import WrRfDemo.Clocked.Signed

/-! # The sine table

Half a period in 1024 entries, with the slope in the upper half of an entry and the sample in the lower.
-/

namespace WrRfDemo.Synth

open Clocked

/-- `INIT_LUT`. -/
def initLut : List Nat :=
  [0x30b1c0000, 0x30b180185, 0x30b14030b, 0x30b100490, 0x30b080616, 0x30b00079b, 0x30af40921, 0x30ae80aa6, 0x30ad80c2c,
   0x30ac80db1, 0x30ab40f36, 0x30aa010bc, 0x30a881241, 0x30a7013c6, 0x30a58154c, 0x30a3816d1, 0x30a1c1856, 0x309fc19db,
   0x309dc1b60, 0x309b81ce5, 0x309901e6a, 0x309681fef, 0x309402173, 0x3091422f8, 0x308e8247c, 0x308b82601, 0x308882785,
   0x30854290a, 0x308202a8e, 0x307ec2c12, 0x307b42d96, 0x307782f1a, 0x3073c309d, 0x307003221, 0x306c033a4, 0x3067c3528,
   0x3063c36ab, 0x305f4382e, 0x305ac39b1, 0x305643b34, 0x305183cb7, 0x304cc3e39, 0x304803fbc, 0x3042c413e, 0x303dc42c0,
   0x303884442, 0x3033045c4, 0x302d84745, 0x3028048c7, 0x302244a48, 0x301c84bc9, 0x301684d4a, 0x301044ecb, 0x300a4504b,
   0x3003c51cc, 0x2ffd8534c, 0x2ff7054cc, 0x2ff04564b, 0x2fe9857cb, 0x2fe28594a, 0x2fdb85ac9, 0x2fd485c48, 0x2fcd45dc7,
   0x2fc605f45, 0x2fbe860c3, 0x2fb6c6241, 0x2faf463bf, 0x2fa74653c, 0x2f9f866ba, 0x2f9786837, 0x2f8f469b3, 0x2f8706b30,
   0x2f7e86cac, 0x2f7606e28, 0x2f6d86fa4, 0x2f64c711f, 0x2f5c0729a, 0x2f5307415, 0x2f4a07590, 0x2f40c770a, 0x2f3787884,
   0x2f2e079fe, 0x2f2487b77, 0x2f1b07cf0, 0x2f1147e69, 0x2f0747fe2, 0x2efd4815a, 0x2ef3482d2, 0x2ee90844a, 0x2edec85c1,
   0x2ed448738, 0x2ec9c88af, 0x2ebf08a25, 0x2eb448b9b, 0x2ea988d10, 0x2e9e88e86, 0x2e9348ffb, 0x2e884916f, 0x2e7cc92e4,
   0x2e7189457, 0x2e65c95cb, 0x2e5a4973e, 0x2e4e898b1, 0x2e4289a23, 0x2e3689b96, 0x2e2a89d07, 0x2e1e49e79, 0x2e11c9fea,
   0x2e058a15a, 0x2df8ca2ca, 0x2dec4a43a, 0x2ddf8a5a9, 0x2dd28a718, 0x2dc58a887, 0x2db88a9f5, 0x2dab4ab63, 0x2d9e0acd0,
   0x2d908ae3d, 0x2d830afaa, 0x2d754b116, 0x2d678b282, 0x2d59cb3ed, 0x2d4bcb558, 0x2d3d8b6c2, 0x2d2f4b82c, 0x2d210b995,
   0x2d12cbafe, 0x2d040bc67, 0x2cf58bdcf, 0x2ce6cbf37, 0x2cd80c09e, 0x2cc90c205, 0x2cb9cc36b, 0x2caacc4d1, 0x2c9b8c636,
   0x2c8c0c79b, 0x2c7c8c8ff, 0x2c6d0ca63, 0x2c5d4cbc7, 0x2c4d4cd2a, 0x2c3d8ce8c, 0x2c2d8cfee, 0x2c1d4d14f, 0x2c0d0d2b0,
   0x2bfccd411, 0x2bec4d571, 0x2bdbcd6d0, 0x2bcb0d82f, 0x2bba4d98d, 0x2ba94daeb, 0x2b984dc48, 0x2b874dda5, 0x2b760df01,
   0x2b64ce05d, 0x2b534e1b8, 0x2b41ce313, 0x2b304e46d, 0x2b1e8e5c6, 0x2b0cce71f, 0x2aface878, 0x2ae8ce9d0, 0x2ad68eb27,
   0x2ac44ec7e, 0x2ab20edd4, 0x2a9f8ef29, 0x2a8d0f07e, 0x2a7a8f1d3, 0x2a67cf326, 0x2a54cf47a, 0x2a41cf5cc, 0x2a2ecf71e,
   0x2a1bcf870, 0x2a088f9c1, 0x29f50fb11, 0x29e18fc61, 0x29ce0fdb0, 0x29ba4fefe, 0x29a69004c, 0x2992d0199, 0x297ed02e6,
   0x296ad0432, 0x29569057d, 0x2942506c8, 0x292e10812, 0x29199095b, 0x290510aa4, 0x28f050bec, 0x28db90d34, 0x28c690e7b,
   0x28b1d0fc1, 0x289c91106, 0x28879124b, 0x287251390, 0x285cd14d3, 0x284791616, 0x283211758, 0x281c5189a, 0x2806919db,
   0x27f0d1b1b, 0x27dad1c5a, 0x27c4d1d99, 0x27ae91ed7, 0x279892015, 0x278212152, 0x276bd228e, 0x2755523c9, 0x273e92504,
   0x27281263e, 0x271112777, 0x26fa528b0, 0x26e3529e7, 0x26cc52b1e, 0x26b512c55, 0x269dd2d8b, 0x268692ebf, 0x266f12ff4,
   0x265793127, 0x263fd325a, 0x26285338c, 0x2610534bd, 0x25f8935ee, 0x25e09371d, 0x25c89384c, 0x25b05397b, 0x259813aa8,
   0x257f93bd5, 0x256753d01, 0x254e93e2c, 0x253613f57, 0x251d54080, 0x2504941a9, 0x24eb942d1, 0x24d2943f9, 0x24b99451f,
   0x24a094645, 0x24875476a, 0x246dd488e, 0x2454949b2, 0x243b14ad4, 0x242154bf6, 0x240794d17, 0x23edd4e38, 0x23d414f57,
   0x23ba15076, 0x23a015193, 0x2386152b0, 0x236bd53cd, 0x2351954e8, 0x233715603, 0x231c9571c, 0x230215835, 0x22e79594d,
   0x22ccd5a65, 0x22b215b7b, 0x229715c90, 0x227c15da5, 0x226115eb9, 0x224615fcc, 0x222ad60de, 0x220f961f0, 0x21f416300,
   0x21d896410, 0x21bd1651f, 0x21a19662c, 0x2185d6739, 0x216a16846, 0x214e16951, 0x213256a5b, 0x211616b65, 0x20fa16c6e,
   0x20ddd6d76, 0x20c196e7c, 0x20a556f83, 0x2088d7088, 0x206c5718c, 0x204fd728f, 0x203317392, 0x201697493, 0x1ff997594,
   0x1fdcd7694, 0x1fbfd7793, 0x1fa2d7891, 0x1f859798e, 0x1f6897a8a, 0x1f4b57b85, 0x1f2dd7c80, 0x1f1097d79, 0x1ef317e72,
   0x1ed557f69, 0x1eb7d8060, 0x1e9a18156, 0x1e7c5824b, 0x1e5e5833e, 0x1e4098431, 0x1e2298523, 0x1e0458614, 0x1de658705,
   0x1dc8187f4, 0x1da9d88e2, 0x1d8b589cf, 0x1d6cd8abc, 0x1d4e58ba7, 0x1d2fd8c92, 0x1d1118d7b, 0x1cf298e64, 0x1cd398f4b,
   0x1cb4d9032, 0x1c95d9117, 0x1c76d91fc, 0x1c57d92e0, 0x1c38d93c3, 0x1c19994a4, 0x1bfa59585, 0x1bdad9665, 0x1bbb99744,
   0x1b9c19822, 0x1b7c998ff, 0x1b5cd99da, 0x1b3d59ab5, 0x1b1d99b8f, 0x1afd99c68, 0x1addd9d40, 0x1abdd9e17, 0x1a9dd9eed,
   0x1a7dd9fc2, 0x1a5dda096, 0x1a3d9a169, 0x1a1d5a23b, 0x19fd1a30c, 0x19dc9a3dc, 0x19bc1a4aa, 0x199b9a578, 0x197b1a645,
   0x195a9a711, 0x1939da7dc, 0x19191a8a6, 0x18f85a96e, 0x18d75aa36, 0x18b69aafd, 0x18959abc3, 0x18745ac87, 0x18535ad4b,
   0x18321ae0e, 0x18111aecf, 0x17ef9af90, 0x17ce5b04f, 0x17ad1b10e, 0x178b9b1cb, 0x176a1b287, 0x17489b343, 0x1726db3fd,
   0x17051b4b6, 0x16e35b56e, 0x16c19b625, 0x169fdb6db, 0x167ddb790, 0x165c1b844, 0x163a1b8f7, 0x1617db9a9, 0x15f5dba5a,
   0x15d39bb0a, 0x15b15bbb8, 0x158f1bc66, 0x156cdbd12, 0x154a9bdbe, 0x15281be68, 0x15059bf11, 0x14e31bfb9, 0x14c09c060,
   0x149ddc106, 0x147b1c1ab, 0x14589c24f, 0x1435dc2f2, 0x1412dc394, 0x13f01c434, 0x13cd1c4d4, 0x13aa1c572, 0x13871c610,
   0x13641c6ac, 0x13411c747, 0x131ddc7e1, 0x12fa9c87a, 0x12d75c912, 0x12b41c9a8, 0x1290dca3e, 0x126d5cad3, 0x1249dcb66,
   0x12269cbf8, 0x12031cc89, 0x11df5cd1a, 0x11bbdcda9, 0x11981ce36, 0x11749cec3, 0x1150dcf4f, 0x112d1cfd9, 0x11091d063,
   0x10e55d0eb, 0x10c19d172, 0x109d9d1f8, 0x10799d27d, 0x10559d301, 0x10319d384, 0x100d5d405, 0xfe95d486, 0xfc51d505,
   0xfa0dd583, 0xf7c9d600, 0xf585d67c, 0xf341d6f7, 0xf0fdd770, 0xeeb5d7e9, 0xec6dd860, 0xea29d8d6, 0xe7e1d94c,
   0xe595d9c0, 0xe34dda32, 0xe105daa4, 0xdeb9db14, 0xdc71db84, 0xda25dbf2, 0xd7d9dc5f, 0xd58ddccb, 0xd341dd36,
   0xd0f1dd9f, 0xcea5de08, 0xcc55de6f, 0xca09ded5, 0xc7b9df3a, 0xc569df9e, 0xc319e001, 0xc0c9e063, 0xbe75e0c3,
   0xbc25e122, 0xb9d5e180, 0xb781e1dd, 0xb52de239, 0xb2d9e294, 0xb085e2ed, 0xae31e345, 0xabdde39c, 0xa989e3f2,
   0xa735e447, 0xa4dde49b, 0xa289e4ed, 0xa031e53e, 0x9dd9e58e, 0x9b81e5dd, 0x9929e62b, 0x96d1e678, 0x9479e6c3,
   0x9221e70d, 0x8fc9e756, 0x8d6de79e, 0x8b15e7e5, 0x88b9e82b, 0x8661e86f, 0x8405e8b2, 0x81a9e8f4, 0x7f4de935,
   0x7cf1e975, 0x7a95e9b3, 0x7839e9f0, 0x75ddea2c, 0x7381ea67, 0x7121eaa1, 0x6ec5eada, 0x6c65eb11, 0x6a09eb47,
   0x67a9eb7c, 0x654debb0, 0x62edebe3, 0x608dec14, 0x5e2dec45, 0x5bcdec74, 0x5971eca2, 0x5711ecce, 0x54b1ecfa,
   0x524ded24, 0x4feded4d, 0x4d8ded75, 0x4b2ded9c, 0x48cdedc2, 0x4669ede6, 0x4409ee09, 0x41a5ee2b, 0x3f45ee4c,
   0x3ce1ee6c, 0x3a81ee8a, 0x381deea7, 0x35bdeec4, 0x3359eede, 0x30f5eef8, 0x2e95ef11, 0x2c31ef28, 0x29cdef3e,
   0x276def53, 0x2509ef67, 0x22a5ef79, 0x2041ef8a, 0x1dddef9b, 0x1b79efa9, 0x1915efb7, 0x16b5efc4, 0x1451efcf,
   0x11edefd9, 0xf89efe2, 0xd25efea, 0xac1eff1, 0x85deff6, 0x5f9effa, 0x395effd, 0x131efff, 0xffed1f000,
   0xffc6defff, 0xffa09effd, 0xff7a5effa, 0xff541eff6, 0xff2ddeff1, 0xff079efea, 0xfee15efe2, 0xfebb1efd9, 0xfe94defcf,
   0xfe6edefc4, 0xfe489efb7, 0xfe225efa9, 0xfdfc1ef9b, 0xfdd5def8a, 0xfdaf9ef79, 0xfd895ef67, 0xfd635ef53, 0xfd3d1ef3e,
   0xfd16def28, 0xfcf0def11, 0xfcca9eef8, 0xfca45eede, 0xfc7e5eec4, 0xfc581eea7, 0xfc321ee8a, 0xfc0bdee6c, 0xfbe5dee4c,
   0xfbbf9ee2b, 0xfb999ee09, 0xfb735ede6, 0xfb4d5edc2, 0xfb275ed9c, 0xfb015ed75, 0xfadb5ed4d, 0xfab51ed24, 0xfa8f1ecfa,
   0xfa691ecce, 0xfa435eca2, 0xfa1d5ec74, 0xf9f75ec45, 0xf9d15ec14, 0xf9ab5ebe3, 0xf9859ebb0, 0xf95f9eb7c, 0xf939deb47,
   0xf913deb11, 0xf8ee1eada, 0xf8c81eaa1, 0xf8a25ea67, 0xf87c9ea2c, 0xf856de9f0, 0xf8311e9b3, 0xf80b5e975, 0xf7e59e935,
   0xf7bfde8f4, 0xf79a1e8b2, 0xf7749e86f, 0xf74ede82b, 0xf7295e7e5, 0xf7039e79e, 0xf6de1e756, 0xf6b89e70d, 0xf6931e6c3,
   0xf66d9e678, 0xf6481e62b, 0xf6229e5dd, 0xf5fd1e58e, 0xf5d79e53e, 0xf5b25e4ed, 0xf58cde49b, 0xf5679e447, 0xf5425e3f2,
   0xf51d1e39c, 0xf4f7de345, 0xf4d29e2ed, 0xf4ad5e294, 0xf4881e239, 0xf462de1dd, 0xf43dde180, 0xf418de122, 0xf3f39e0c3,
   0xf3ce9e063, 0xf3a99e001, 0xf3849df9e, 0xf35f9df3a, 0xf33added5, 0xf315dde6f, 0xf2f11de08, 0xf2cc1dd9f, 0xf2a75dd36,
   0xf2829dccb, 0xf25dddc5f, 0xf2391dbf2, 0xf2149db84, 0xf1efddb14, 0xf1cb5daa4, 0xf1a6dda32, 0xf1821d9c0, 0xf15d9d94c,
   0xf1395d8d6, 0xf114dd860, 0xf0f05d7e9, 0xf0cc1d770, 0xf0a7dd6f7, 0xf0839d67c, 0xf05f5d600, 0xf03b1d583, 0xf016dd505,
   0xeff2dd486, 0xefce9d405, 0xefaa9d384, 0xef869d301, 0xef629d27d, 0xef3e9d1f8, 0xef1add172, 0xeef71d0eb, 0xeed31d063,
   0xeeaf5cfd9, 0xee8b9cf4f, 0xee681cec3, 0xee445ce36, 0xee20dcda9, 0xedfd1cd1a, 0xedd99cc89, 0xedb65cbf8, 0xed92dcb66,
   0xed6f5cad3, 0xed4c1ca3e, 0xed28dc9a8, 0xed059c912, 0xece25c87a, 0xecbf1c7e1, 0xec9c1c747, 0xec791c6ac, 0xec561c610,
   0xec331c572, 0xec101c4d4, 0xebed5c434, 0xebca5c394, 0xeba79c2f2, 0xeb851c24f, 0xeb625c1ab, 0xeb3f9c106, 0xeb1d1c060,
   0xeafa9bfb9, 0xead81bf11, 0xeab59be68, 0xea935bdbe, 0xea711bd12, 0xea4edbc66, 0xea2c9bbb8, 0xea0a5bb0a, 0xe9e85ba5a,
   0xe9c61b9a9, 0xe9a41b8f7, 0xe9825b844, 0xe9605b790, 0xe93e9b6db, 0xe91cdb625, 0xe8fb1b56e, 0xe8d95b4b6, 0xe8b79b3fd,
   0xe8961b343, 0xe8749b287, 0xe8531b1cb, 0xe831db10e, 0xe8109b04f, 0xe7ef1af90, 0xe7ce1aecf, 0xe7acdae0e, 0xe78bdad4b,
   0xe76a9ac87, 0xe7499abc3, 0xe728daafd, 0xe707daa36, 0xe6e71a96e, 0xe6c65a8a6, 0xe6a59a7dc, 0xe6851a711, 0xe6649a645,
   0xe6441a578, 0xe6239a4aa, 0xe6031a3dc, 0xe5e2da30c, 0xe5c29a23b, 0xe5a25a169, 0xe5825a096, 0xe56259fc2, 0xe54259eed,
   0xe52259e17, 0xe50299d40, 0xe4e299c68, 0xe4c2d9b8f, 0xe4a359ab5, 0xe483999da, 0xe464198ff, 0xe44499822, 0xe42559744,
   0xe405d9665, 0xe3e699585, 0xe3c7594a4, 0xe3a8593c3, 0xe389592e0, 0xe36a591fc, 0xe34b59117, 0xe32c99032, 0xe30d98f4b,
   0xe2ef18e64, 0xe2d058d7b, 0xe2b1d8c92, 0xe29358ba7, 0xe274d8abc, 0xe256589cf, 0xe238188e2, 0xe219d87f4, 0xe1fbd8705,
   0xe1dd98614, 0xe1bf98523, 0xe1a1d8431, 0xe183d833e, 0xe1661824b, 0xe14858156, 0xe12ad8060, 0xe10d17f69, 0xe0ef97e72,
   0xe0d257d79, 0xe0b4d7c80, 0xe09797b85, 0xe07a97a8a, 0xe05d5798e, 0xe04057891, 0xe02357793, 0xe00697694, 0xdfe997594,
   0xdfcd17493, 0xdfb057392, 0xdf93d728f, 0xdf775718c, 0xdf5ad7088, 0xdf3e96f83, 0xdf2256e7c, 0xdf0616d76, 0xdeea16c6e,
   0xdecdd6b65, 0xdeb216a5b, 0xde9616951, 0xde7a56846, 0xde5e96739, 0xde431662c, 0xde279651f, 0xde0c16410, 0xddf096300,
   0xddd5561f0, 0xddba160de, 0xdd9f15fcc, 0xdd8415eb9, 0xdd6915da5, 0xdd4e15c90, 0xdd3355b7b, 0xdd1895a65, 0xdcfe1594d,
   0xdce395835, 0xdcc91571c, 0xdcae95603, 0xdc94554e8, 0xdc7a153cd, 0xdc60152b0, 0xdc4615193, 0xdc2c15076, 0xdc1254f57,
   0xdbf894e38, 0xdbded4d17, 0xdbc514bf6, 0xdbab94ad4, 0xdb92549b2, 0xdb78d488e, 0xdb5f9476a, 0xdb4694645, 0xdb2d9451f,
   0xdb14943f9, 0xdafb942d1, 0xdae2d41a9, 0xdaca14080, 0xdab193f57, 0xda98d3e2c, 0xda8093d01, 0xda6813bd5, 0xda4fd3aa8,
   0xda379397b, 0xda1f9384c, 0xda079371d, 0xd9efd35ee, 0xd9d7d34bd, 0xd9c05338c, 0xd9a89325a, 0xd99113127, 0xd97992ff4,
   0xd96252ebf, 0xd94b12d8b, 0xd933d2c55, 0xd91cd2b1e, 0xd905d29e7, 0xd8ef128b0, 0xd8d812777, 0xd8c19263e, 0xd8aad2504,
   0xd894523c9, 0xd87e1228e, 0xd86792152, 0xd85192015, 0xd83b51ed7, 0xd82551d99, 0xd80f51c5a, 0xd7f991b1b, 0xd7e3d19db,
   0xd7ce1189a, 0xd7b891758, 0xd7a351616, 0xd78dd14d3, 0xd77891390, 0xd7639124b, 0xd74e51106, 0xd73990fc1, 0xd72490e7b,
   0xd70fd0d34, 0xd6fb10bec, 0xd6e690aa4, 0xd6d21095b, 0xd6bdd0812, 0xd6a9906c8, 0xd6955057d, 0xd68150432, 0xd66d502e6,
   0xd65990199, 0xd645d004c, 0xd6320fefe, 0xd61e8fdb0, 0xd60b0fc61, 0xd5f78fb11, 0xd5e44f9c1, 0xd5d14f870, 0xd5be4f71e,
   0xd5ab4f5cc, 0xd5984f47a, 0xd5858f326, 0xd5730f1d3, 0xd5608f07e, 0xd54e0ef29, 0xd53bcedd4, 0xd5298ec7e, 0xd5174eb27,
   0xd5054e9d0, 0xd4f34e878, 0xd4e18e71f, 0xd4cfce5c6, 0xd4be4e46d, 0xd4acce313, 0xd49b4e1b8, 0xd48a0e05d, 0xd478cdf01,
   0xd467cdda5, 0xd456cdc48, 0xd445cdaeb, 0xd4350d98d, 0xd4244d82f, 0xd413cd6d0, 0xd4034d571, 0xd3f30d411, 0xd3e2cd2b0,
   0xd3d28d14f, 0xd3c28cfee, 0xd3b2cce8c, 0xd3a2ccd2a, 0xd3930cbc7, 0xd3838ca63, 0xd3740c8ff, 0xd3648c79b, 0xd3554c636,
   0xd3464c4d1, 0xd3370c36b, 0xd3280c205, 0xd3194c09e, 0xd30a8bf37, 0xd2fc0bdcf, 0xd2ed4bc67, 0xd2df0bafe, 0xd2d0cb995,
   0xd2c28b82c, 0xd2b44b6c2, 0xd2a64b558, 0xd2988b3ed, 0xd28acb282, 0xd27d0b116, 0xd26f8afaa, 0xd2620ae3d, 0xd254cacd0,
   0xd2478ab63, 0xd23a8a9f5, 0xd22d8a887, 0xd2208a718, 0xd213ca5a9, 0xd2074a43a, 0xd1fa8a2ca, 0xd1ee4a15a, 0xd1e1c9fea,
   0xd1d589e79, 0xd1c989d07, 0xd1bd89b96, 0xd1b189a23, 0xd1a5c98b1, 0xd19a4973e, 0xd18e895cb, 0xd18349457, 0xd177c92e4,
   0xd16cc916f, 0xd16188ffb, 0xd15688e86, 0xd14bc8d10, 0xd14108b9b, 0xd13648a25, 0xd12bc88af, 0xd12148738, 0xd117085c1,
   0xd10cc844a, 0xd102c82d2, 0xd0f8c815a, 0xd0eec7fe2, 0xd0e507e69, 0xd0db87cf0, 0xd0d207b77, 0xd0c8879fe, 0xd0bf47884,
   0xd0b60770a, 0xd0ad07590, 0xd0a407415, 0xd09b4729a, 0xd0928711f, 0xd08a06fa4, 0xd08186e28, 0xd07906cac, 0xd070c6b30,
   0xd068869b3, 0xd06086837, 0xd058c66ba, 0xd050c653c, 0xd049463bf, 0xd04186241, 0xd03a060c3, 0xd032c5f45, 0xd02b85dc7,
   0xd02485c48, 0xd01d85ac9, 0xd0168594a, 0xd00fc57cb, 0xd0090564b, 0xd002854cc, 0xcffc4534c, 0xcff5c51cc, 0xcfefc504b,
   0xcfe984ecb, 0xcfe384d4a, 0xcfddc4bc9, 0xcfd804a48, 0xcfd2848c7, 0xcfcd04745, 0xcfc7845c4, 0xcfc244442, 0xcfbd442c0,
   0xcfb80413e, 0xcfb343fbc, 0xcfae83e39, 0xcfa9c3cb7, 0xcfa543b34, 0xcfa0c39b1, 0xcf9c4382e, 0xcf98436ab, 0xcf9403528,
   0xcf90033a4, 0xcf8c43221, 0xcf888309d, 0xcf84c2f1a, 0xcf8142d96, 0xcf7e02c12, 0xcf7ac2a8e, 0xcf778290a, 0xcf7482785,
   0xcf7182601, 0xcf6ec247c, 0xcf6c022f8, 0xcf6982173, 0xcf6701fef, 0xcf6481e6a, 0xcf6241ce5, 0xcf6041b60, 0xcf5e419db,
   0xcf5c81856, 0xcf5a816d1, 0xcf590154c, 0xcf57813c6, 0xcf5601241, 0xcf54c10bc, 0xcf5380f36, 0xcf5280db1, 0xcf5180c2c,
   0xcf50c0aa6, 0xcf5000921, 0xcf4f8079b, 0xcf4f00616, 0xcf4ec0490, 0xcf4e8030b, 0xcf4e40185]

def lut (addr : BitVec 10) : BitVec 36 := BitVec.ofNat 36 (initLut.getD addr.toNat 0)

/-- `lut_slope` and `lut_sample`, of an entry that has been read. -/
def slope (entry : BitVec 36) : BitVec 18 := field 18 18 entry

def sample (entry : BitVec 36) : BitVec 18 := field 0 18 entry

/-- What the output stage relies on. -/
def InRange (entry : BitVec 36) : Prop :=
  0 ≤ (sample entry).toInt ∧ (sample entry).toInt ≤ 126976 ∧ -65536 ≤ (slope entry).toInt ∧ (slope entry).toInt ≤ 65536

instance (entry : BitVec 36) : Decidable (InRange entry) := inferInstanceAs (Decidable (_ ∧ _))

theorem length_initLut : initLut.length = 1024 := by
  decide +kernel

theorem initLut_inRange : ∀ entry ∈ initLut, InRange (BitVec.ofNat 36 entry) := by
  decide +kernel

theorem lut_inRange (addr : BitVec 10) : InRange (lut addr) := by
  rw [lut, List.getD_eq_getElem?_getD]
  have hAddr : addr.toNat < initLut.length := length_initLut ▸ addr.isLt
  rw [List.getElem?_eq_getElem hAddr]
  exact initLut_inRange _ (List.getElem_mem hAddr)

end WrRfDemo.Synth

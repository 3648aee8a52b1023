import WrRfDemo.Streamer.Receiver

/-! # The CRC register

A standard CRC register, as both streamers use `gc_crc_gen`: it is restarted, takes words, and
shows a value which, taken as the next word, leaves it with its residue. The register for the
polynomial `0x1021` is one: it starts from all ones, takes a word top bit first and shows its
complement.
-/

namespace WrRfDemo.Streamer

structure CrcRegister (κ : Type*) where
  init : κ
  update : BitVec 16 → κ → κ
  crcO : κ → BitVec 16
  residue : κ → Bool

namespace CrcRegister

variable {κ : Type*}

/-- The value taken as a word leaves the residue. -/
def Checks (c : CrcRegister κ) : Prop := ∀ k, c.residue (c.update (c.crcO k) k) = true

/-- On the receiving side, a restart takes effect before the word that comes with it. -/
def unit (c : CrcRegister κ) : CrcUnit κ where
  take e k :=
    let k := if e.restart then c.init else k
    match e.word with
    | none => k
    | some w => c.update w k
  crcMatch := c.residue

end CrcRegister

/-! ### The polynomial `0x1021` -/

def crcBit (crc : BitVec 16) (bit : Bool) : BitVec 16 :=
  if crc.msb != bit then (crc <<< 1) ^^^ 0x1021 else crc <<< 1

def crcTake (w crc : BitVec 16) : BitVec 16 := (List.range 16).foldl (fun c k => crcBit c (w.getMsbD k)) crc

def crc16 : CrcRegister (BitVec 16) where
  init := 0xffff
  update := crcTake
  crcO k := ~~~k
  residue k := k == 0x1d0f

/-- A word enters the register as if it had been added before and zeros were taken. -/
theorem crcBits_xor (w c : BitVec 16) {j : Nat} (hj : j ≤ 16) :
    (List.range j).foldl (fun c k => crcBit c (w.getMsbD k)) c =
      ((List.range j).foldl (fun c _ => crcBit c false) (c ^^^ w)) ^^^ (w <<< j) := by
  induction j with
  | zero =>
    simp only [List.range_zero, List.foldl_nil, BitVec.shiftLeft_zero, BitVec.xor_assoc, BitVec.xor_self, BitVec.xor_zero]
  | succ j ih =>
    rw [List.range_succ, List.foldl_append, List.foldl_append, ih (by omega)]
    simp only [List.foldl_cons, List.foldl_nil]
    generalize (List.range j).foldl (fun c _ => crcBit c false) (c ^^^ w) = z
    have hTop : (z ^^^ (w <<< j)).msb = (z.msb ^^ w.getMsbD j) := by
      rw [BitVec.msb_xor, BitVec.msb_shiftLeft]
    have hShift : (z ^^^ (w <<< j)) <<< 1 = (z <<< 1) ^^^ (w <<< (j + 1)) := by
      rw [BitVec.shiftLeft_xor_distrib, BitVec.shiftLeft_add]
    have hBit : ((z.msb ^^ w.getMsbD j) != w.getMsbD j) = (z.msb != false) := by
      cases z.msb <;> cases w.getMsbD j <;> rfl
    rw [crcBit, hTop, hBit, hShift, crcBit]
    split_ifs
    · rw [BitVec.xor_assoc, BitVec.xor_assoc, BitVec.xor_comm (w <<< (j + 1))]
    · rfl

theorem crc16_checks : crc16.Checks := by
  intro k
  have hOnes : k ^^^ ~~~k = BitVec.allOnes 16 := by
    apply BitVec.eq_of_getLsbD_eq
    intro j hj
    rw [BitVec.getLsbD_xor, BitVec.getLsbD_not, BitVec.getLsbD_allOnes]
    simp [hj]
  have hTake : crcTake (~~~k) k = 0x1d0f := by
    rw [crcTake, crcBits_xor _ _ (Nat.le_refl 16), hOnes]
    have hGone : (~~~k) <<< 16 = 0 := by simp
    rw [hGone]
    decide +kernel
  change (crcTake (~~~k) k == 0x1d0f) = true
  rw [hTake]
  rfl

/-- The CRC of a subframe: its header and its half-words. -/
def crcOf (words : List (BitVec 16)) : BitVec 16 := ~~~words.foldl (fun k w => crcTake w k) 0xffff

end WrRfDemo.Streamer

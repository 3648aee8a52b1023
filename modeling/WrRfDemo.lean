import WrRfDemo.Adc.Triggers
import WrRfDemo.Control.Integrator
import WrRfDemo.Dac.Transfers
import WrRfDemo.Dds.Alignment
import WrRfDemo.Dds.SampleCounter
import WrRfDemo.Filters.Bounds
import WrRfDemo.Network.Lockstep
import WrRfDemo.Pll.Player
import WrRfDemo.Registers.Board
import WrRfDemo.Registers.Crossing
import WrRfDemo.Registers.RfLib
import WrRfDemo.Speclib.CardScan
import WrRfDemo.Speclib.Loader
import WrRfDemo.Spi.BitBang
import WrRfDemo.Streamer.Acceptance
import WrRfDemo.Streamer.BlockCount
import WrRfDemo.Streamer.BufferQueue
import WrRfDemo.Streamer.Flush
import WrRfDemo.Streamer.FrameEnd
import WrRfDemo.Streamer.FrameLimit
import WrRfDemo.Streamer.Losses
import WrRfDemo.Streamer.NoWedge
import WrRfDemo.Streamer.Numbering
import WrRfDemo.Streamer.RoundTrip
import WrRfDemo.Streamer.Unescaping
import WrRfDemo.Synth.Dither
import WrRfDemo.Synth.Output
import WrRfDemo.Synth.Phases
import WrRfDemo.Synth.Stalls
import WrRfDemo.Timing.Normalized
import WrRfDemo.Ucf.Slots

import WrRfDemo.Cic.Interpolator
import WrRfDemo.Control.PiControl
import WrRfDemo.Synth.QuadChannel

/-! # The core in the reference clock

The tuning word comes from the controller or from the network, goes through the interpolator, and is
scaled and added to the centre frequency. The synthesizer channel runs at the sum.
-/

namespace WrRfDemo.Core

open Clocked Cic Control Synth

/-- What the registers, the ADC and the receive path show in a cycle. -/
structure CoreIn where
  rstNRef : Bool
  adcDvalid : Bool
  adcData : BitVec 16
  gains : Gains
  crMaster : Bool
  crSlave : Bool
  freqHi : BitVec 32
  freqLo : BitVec 32
  gain : BitVec 16
  slaveTune : BitVec 18
  slaveCicRst : Bool
  synthAccIn : BitVec 43
  synthAccLoad : Bool

structure DdsCore where
  pi : PiControl
  cic : Cic1024x
  synthTuneBias : BitVec 43
  synthTune : BitVec 43
  synthTuneD0 : BitVec 43
  synthTuneD1 : BitVec 43
  synthTuneLoad : Bool
  synth : QuadChannel
  dacDataPar : BitVec 56

/-- `f_signed_multiply`: the product of a signed word and an unsigned one. -/
def fSignedMultiply {m n : Nat} (a : BitVec m) (b : BitVec n) (shift outputLength : Nat) : BitVec outputLength :=
  let mul := BitVec.ofInt (m + n + 1) (a.toInt * (0#1 ++ b).toInt)
  (field shift (m + n + 1 - shift) mul).signExtend outputLength

namespace DdsCore

/-- `p_choose_tune_source`. -/
def cicInput (i : CoreIn) (s : DdsCore) : BitVec 18 :=
  if i.crMaster then field 15 1 s.pi.qO ++ field 15 1 s.pi.qO ++ s.pi.qO
  else if i.crSlave then i.slaveTune
  else 0

def cicIn (i : CoreIn) (s : DdsCore) : CicIn := ⟨true, i.slaveCicRst, s.cicInput i⟩

def cicOutClamp (s : DdsCore) : BitVec 18 := field 60 18 s.cic.yO

def quadIn (i : CoreIn) (s : DdsCore) : QuadIn :=
  ⟨i.rstNRef, i.synthAccLoad, s.synthTuneLoad, true, i.synthAccIn, s.synthTuneD1⟩

/-- `p_gen_tune`, with the registers around it. -/
def clock (i : CoreIn) (s : DdsCore) : DdsCore :=
  let next : DdsCore := { s with
    pi := s.pi.clock i.gains ⟨i.rstNRef, i.adcDvalid, i.adcData⟩
    cic := s.cic.clock (s.cicIn i)
    synth := s.synth.clock (s.quadIn i) }
  if !i.rstNRef then
    { next with synthTune := 0, synthTuneD0 := 0, synthTuneD1 := 0, synthTuneBias := 0, synthTuneLoad := false }
  else
    { next with
      synthTuneBias := field 0 11 i.freqHi ++ i.freqLo
      synthTune := s.synthTuneBias + fSignedMultiply s.cicOutClamp i.gain 0 43
      synthTuneD0 := s.synthTune
      synthTuneD1 := s.synthTuneD0
      synthTuneLoad := true
      dacDataPar := s.synth.y.c3 ++ s.synth.y.c2 ++ s.synth.y.c1 ++ s.synth.y.c0 }

def cleared : DdsCore where
  pi := ⟨0, 0, 0, false, false, false, false, 0, 0, 0, 0, false, false, false, 0⟩
  cic := .reset
  synthTuneBias := 0
  synthTune := 0
  synthTuneD0 := 0
  synthTuneD1 := 0
  synthTuneLoad := false
  synth := ⟨0, 0, 0, ⟨0, 0, 0, 0⟩, 0, .ofFn fun _ => ⟨0, 0, 0, 0, 0, 0, 0, 0, 0, 0, 0, 0, 0, 0⟩, ⟨0, 0, 0, 0⟩⟩
  dacDataPar := 0

end DdsCore

end WrRfDemo.Core

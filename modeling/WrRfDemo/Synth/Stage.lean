import WrRfDemo.Synth.Lut

/-! # One phase of the synthesizer

`dds_stage` sends the table address out, and takes the entry in two clocks later; the fraction and the
sign of the phase wait for it in delay lines. Then the entry is interpolated, the dither added, and the
result rounded to the width of the output.
-/

namespace WrRfDemo.Synth

open Clocked

structure Stage where
  lfsr : BitVec 32
  addr0 : BitVec 10
  sign : BitVec 9
  lutAddrO : BitVec 10
  lutIn : BitVec 36
  fracD0 : BitVec 18
  fracD1 : BitVec 18
  fracD2 : BitVec 18
  fracD3 : BitVec 18
  interp : BitVec 18
  sampleD0 : BitVec 18
  qv : BitVec 18
  yt : BitVec 15
  yO : BitVec 14
deriving DecidableEq

/-- The fields of a phase: `acc_i`, cut into half, address and fraction. -/
def half (acc : BitVec 43) : BitVec 1 := field 42 1 acc

def address (acc : BitVec 43) : BitVec 10 := field 32 10 acc

def frac (acc : BitVec 43) : BitVec 18 := field 14 18 acc

/-- `g_dither_taps`. -/
def ditherTaps : BitVec 32 := 0xD0000001

namespace Stage

def lfsrNext (s : Stage) : BitVec 32 :=
  if s.lfsr.getLsbD 0 then (s.lfsr >>> 1) ^^^ ditherTaps else s.lfsr >>> 1

def ditherIn (s : Stage) : BitVec 4 := field 5 3 s.lfsr ++ 0#1

def interpMul (s : Stage) : BitVec 36 := (slope s.lutIn).signExtend 36 * s.fracD3.setWidth 36

def ytNext (s : Stage) : BitVec 15 :=
  if s.sign.getLsbD 5 then (s.qv.sshiftRight 3).setWidth 15 else ((-s.qv).sshiftRight 3).setWidth 15

def yNext (s : Stage) : BitVec 14 :=
  if s.yt.getLsbD 0 then field 1 14 s.yt + 8192 + 1 else field 1 14 s.yt + 8192

/-- A clock with `dreq_i`. -/
def advance (accI : BitVec 43) (lutDataI : BitVec 36) (s : Stage) : Stage where
  lfsr := s.lfsrNext
  addr0 := address accI
  sign := field 0 8 s.sign ++ half accI
  lutAddrO := s.addr0
  lutIn := lutDataI
  fracD0 := frac accI
  fracD1 := s.fracD0
  fracD2 := s.fracD1
  fracD3 := s.fracD2
  interp := (s.interpMul.sshiftRight 25).setWidth 18
  sampleD0 := sample s.lutIn
  qv := s.sampleD0 + s.interp + s.ditherIn.signExtend 18 + 1
  yt := s.ytNext
  yO := s.yNext

def clock (ditherInit : BitVec 32) (rstN dreq : Bool) (accI : BitVec 43) (lutDataI : BitVec 36) (s : Stage) : Stage :=
  if !rstN then { s with lfsr := ditherInit }
  else if dreq then s.advance accI lutDataI
  else s

end Stage

end WrRfDemo.Synth

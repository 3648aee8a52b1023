import WrRfDemo.Clocked.Run
import WrRfDemo.Clocked.Signed
import WrRfDemo.Multirate.Series

/-! # The interpolator of the tuning words

Seven combs work at the low rate, seven integrators at the rate of the clock; a counter of 1024
cycles chooses the cycles in which a sample is taken. The registers are as wide as their
section's numbers need, apart from the last comb: it may wrap around, and the integrator behind it wraps back.
-/

namespace WrRfDemo.Cic

open Clocked

/-- The registers of a comb section: `diffN` and `cic_pipelineN`. -/
structure Comb (n : Nat) where
  diff : BitVec n
  cicPipeline : BitVec n
deriving DecidableEq

namespace Comb

variable {m n : Nat}

def init (n : Nat) : Comb n := ⟨0, 0⟩

def sectionOut (sectionIn : BitVec m) (s : Comb n) : BitVec n :=
  let sectionCast := sectionIn.signExtend n
  (sectionCast.signExtend (n + 1) - s.diff.signExtend (n + 1)).setWidth n

def clock (sectionIn : BitVec m) (s : Comb n) : Comb n := ⟨sectionIn.signExtend n, s.sectionOut sectionIn⟩

end Comb

/-- The `sumN` of an integrator section with its `section_outN`. -/
def integratorSum {m n : Nat} (sectionIn : BitVec m) (sectionOut : BitVec n) : BitVec n :=
  let sectionCast := sectionIn.signExtend n
  (sectionCast.signExtend (n + 1) + sectionOut.signExtend (n + 1)).setWidth n

structure CicIn where
  en : Bool
  rst : Bool
  x : BitVec 18
deriving DecidableEq

structure Cic1024x where
  curCount : BitVec 10
  inputRegister : BitVec 18
  section1 : Comb 19
  section2 : Comb 20
  section3 : Comb 21
  section4 : Comb 22
  section5 : Comb 23
  section6 : Comb 24
  section7 : Comb 24
  sectionOut8 : BitVec 24
  sectionOut9 : BitVec 33
  sectionOut10 : BitVec 42
  sectionOut11 : BitVec 51
  sectionOut12 : BitVec 60
  sectionOut13 : BitVec 69
  sectionOut14 : BitVec 78
  outputRegister : BitVec 78
deriving DecidableEq

namespace Cic1024x

def reset : Cic1024x :=
  ⟨0, 0, .init 19, .init 20, .init 21, .init 22, .init 23, .init 24, .init 24, 0, 0, 0, 0, 0, 0, 0, 0⟩

def phase0 (i : CicIn) (s : Cic1024x) : Bool := s.curCount == 0 && i.en

def upsampling (i : CicIn) (s : Cic1024x) : BitVec 24 := if s.phase0 i then s.section7.cicPipeline else 0

/-- The processes that `phase_0` enables. -/
def lowRate (i : CicIn) (s : Cic1024x) : Cic1024x :=
  if s.phase0 i then
    { s with
      inputRegister := i.x
      section1 := s.section1.clock s.inputRegister
      section2 := s.section2.clock s.section1.cicPipeline
      section3 := s.section3.clock s.section2.cicPipeline
      section4 := s.section4.clock s.section3.cicPipeline
      section5 := s.section5.clock s.section4.cicPipeline
      section6 := s.section6.clock s.section5.cicPipeline
      section7 := s.section7.clock s.section6.cicPipeline }
  else s

def clock (i : CicIn) (s : Cic1024x) : Cic1024x :=
  if i.rst then reset
  else if i.en then
    { s.lowRate i with
      curCount := if s.curCount = 1023 then 0 else s.curCount + 1
      sectionOut8 := integratorSum (s.upsampling i) s.sectionOut8
      sectionOut9 := integratorSum s.sectionOut8 s.sectionOut9
      sectionOut10 := integratorSum s.sectionOut9 s.sectionOut10
      sectionOut11 := integratorSum s.sectionOut10 s.sectionOut11
      sectionOut12 := integratorSum s.sectionOut11 s.sectionOut12
      sectionOut13 := integratorSum s.sectionOut12 s.sectionOut13
      sectionOut14 := integratorSum s.sectionOut13 s.sectionOut14
      outputRegister := s.sectionOut14 }
  else s

def ceOutO (i : CicIn) (s : Cic1024x) : Bool := s.phase0 i

def yO (s : Cic1024x) : BitVec 78 := s.outputRegister

end Cic1024x

/-! ### What the filter is for -/

/-- The inputs of the enabled cycles since the last reset. -/
def feed (fed : List (BitVec 18)) (i : CicIn) (_ : Cic1024x) : List (BitVec 18) :=
  if i.rst then [] else if i.en then fed ++ [i.x] else fed

/-- Every 1024th of them, as numbers. -/
def samples (fed : List (BitVec 18)) (j : Nat) : Int := (fed.getD (1024 * j) 0).toInt

/-- Six moving sums of the samples held, as late as the registers make them. -/
def interpolated (fed : List (BitVec 18)) : Int :=
  if fed.length < 8200 then 0 else Multirate.smoothed 1024 (samples fed) 6 (fed.length - 8200)

end WrRfDemo.Cic

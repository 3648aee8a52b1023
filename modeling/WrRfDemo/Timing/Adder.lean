import Mathlib.Algebra.Group.Nat.Defs
import WrRfDemo.Clocked.Field

/-! # The timestamp adder

Two timestamps are added field by field; the later stages bring the fraction and then the
cycles back into range. Only the reset clears a valid bit, the sums themselves always move.
-/

namespace WrRfDemo.Timing

open Clocked

structure Stamp (taiBits cyclesBits : Nat) where
  tai : BitVec taiBits
  cycles : BitVec cyclesBits
deriving DecidableEq

structure TsSum (fracBits cyclesBits taiBits : Nat) where
  utc : BitVec taiBits
  coarse : BitVec (cyclesBits + 2)
  frac : BitVec (fracBits + 2)
deriving DecidableEq

structure TsAdderIn (fracBits cyclesBits taiBits : Nat) where
  rstN : Bool
  valid : Bool
  enable : Bool
  a : Stamp taiBits cyclesBits
  aFrac : BitVec fracBits
  b : Stamp taiBits cyclesBits
  bFrac : BitVec fracBits
deriving DecidableEq

/-- What stage 2 finds out about the cycles: `unf_coarse` and `ovf_coarse`. -/
structure CoarseRange where
  unfCoarse : Bool
  ovfCoarse : BitVec 2
deriving DecidableEq

structure TsAdder (fracBits cyclesBits taiBits : Nat) where
  pipe0 : Bool
  pipe1 : Bool
  pipe2 : Bool
  pipe3 : Bool
  sum0 : TsSum fracBits cyclesBits taiBits
  sum1 : TsSum fracBits cyclesBits taiBits
  sum2 : TsSum fracBits cyclesBits taiBits
  range : CoarseRange
  sum3 : TsSum fracBits cyclesBits taiBits
deriving DecidableEq

namespace TsSum

variable {fracBits cyclesBits taiBits : Nat}

def ofFields (i : TsAdderIn fracBits cyclesBits taiBits) : TsSum fracBits cyclesBits taiBits where
  frac := i.aFrac.setWidth _ + i.bFrac.setWidth _
  coarse := i.a.cycles.signExtend _ + i.b.cycles.signExtend _
  utc := i.a.tai + i.b.tai

def ovfFrac (s : TsSum fracBits cyclesBits taiBits) : Bool := s.frac.getLsbD fracBits

def carryFrac (s : TsSum fracBits cyclesBits taiBits) : TsSum fracBits cyclesBits taiBits :=
  if s.ovfFrac then { s with frac := s.frac - BitVec.ofNat _ (2 ^ fracBits), coarse := s.coarse + 1 } else s

def coarseRange (refClkRate : Nat) (s : TsSum fracBits cyclesBits taiBits) : CoarseRange :=
  if s.coarse.toInt < 0 then ⟨true, 0⟩
  else if s.coarse.toInt ≥ 2 * refClkRate then ⟨false, 2⟩
  else if s.coarse.toInt ≥ refClkRate then ⟨false, 1⟩
  else ⟨false, 0⟩

def normalize (refClkRate : Nat) (range : CoarseRange) (s : TsSum fracBits cyclesBits taiBits) :
    TsSum fracBits cyclesBits taiBits :=
  if range.unfCoarse then { s with coarse := s.coarse + BitVec.ofNat _ refClkRate, utc := s.utc - 1 }
  else if range.ovfCoarse = 2 then
    { s with coarse := s.coarse - BitVec.ofNat _ (2 * refClkRate), utc := s.utc + 2 }
  else if range.ovfCoarse = 1 then
    { s with coarse := s.coarse - BitVec.ofNat _ refClkRate, utc := s.utc + 1 }
  else s

/-- `q_tai_o` and `q_cycles_o`, without the extra bits. -/
def stamp (s : TsSum fracBits cyclesBits taiBits) : Stamp taiBits cyclesBits :=
  ⟨s.utc, field 0 cyclesBits s.coarse⟩

end TsSum

namespace TsAdder

variable {fracBits cyclesBits taiBits : Nat}

def clock (refClkRate : Nat) (i : TsAdderIn fracBits cyclesBits taiBits)
    (s : TsAdder fracBits cyclesBits taiBits) : TsAdder fracBits cyclesBits taiBits where
  pipe0 := i.rstN && i.enable && i.valid
  sum0 := if i.rstN && i.enable then .ofFields i else s.sum0
  pipe1 := i.rstN && s.pipe0
  sum1 := if i.rstN then s.sum0.carryFrac else s.sum1
  pipe2 := i.rstN && s.pipe1
  sum2 := if i.rstN then s.sum1 else s.sum2
  range := if i.rstN then s.sum1.coarseRange refClkRate else s.range
  pipe3 := i.rstN && s.pipe2
  sum3 := if i.rstN then s.sum2.normalize refClkRate s.range else s.sum3

/-! ### The adder as a shift register of results -/

variable (refClkRate : Nat) (s : TsAdder fracBits cyclesBits taiBits)

/-- The sum of the timestamps at the inputs, as it will leave the adder. -/
def sumOf (i : TsAdderIn fracBits cyclesBits taiBits) : Stamp taiBits cyclesBits :=
  let s := (TsSum.ofFields i).carryFrac
  (s.normalize refClkRate (s.coarseRange refClkRate)).stamp

/-- What each stage holds, as it will leave the adder. -/
def result0 : Stamp taiBits cyclesBits :=
  (s.sum0.carryFrac.normalize refClkRate (s.sum0.carryFrac.coarseRange refClkRate)).stamp

def result1 : Stamp taiBits cyclesBits :=
  (s.sum1.normalize refClkRate (s.sum1.coarseRange refClkRate)).stamp

def result2 : Stamp taiBits cyclesBits := (s.sum2.normalize refClkRate s.range).stamp

def q : Stamp taiBits cyclesBits := s.sum3.stamp

variable {s} {i : TsAdderIn fracBits cyclesBits taiBits}

theorem result0_clock (hRst : i.rstN = true) (hEnable : i.enable = true) :
    (s.clock refClkRate i).result0 refClkRate = sumOf refClkRate i := by
  simp [clock, result0, sumOf, hRst, hEnable]

theorem result1_clock (hRst : i.rstN = true) :
    (s.clock refClkRate i).result1 refClkRate = s.result0 refClkRate := by
  simp [clock, result1, result0, hRst]

theorem result2_clock (hRst : i.rstN = true) :
    (s.clock refClkRate i).result2 refClkRate = s.result1 refClkRate := by
  simp [clock, result2, result1, hRst]

theorem q_clock (hRst : i.rstN = true) : (s.clock refClkRate i).q = s.result2 refClkRate := by
  simp [clock, q, result2, hRst]

theorem results_held (hRst : i.rstN = false) :
    (s.clock refClkRate i).result0 refClkRate = s.result0 refClkRate ∧
      (s.clock refClkRate i).result1 refClkRate = s.result1 refClkRate ∧
      (s.clock refClkRate i).result2 refClkRate = s.result2 refClkRate ∧ (s.clock refClkRate i).q = s.q := by
  simp [clock, result0, result1, result2, q, hRst]

end TsAdder

end WrRfDemo.Timing

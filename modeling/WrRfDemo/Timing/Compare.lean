import WrRfDemo.Timing.Adder

/-! # The timestamp comparator

Two stages: the fields are compared first, then combined. The flags move on in every cycle,
whether `valid_i` is up or not.
-/

namespace WrRfDemo.Timing

variable {taiBits cyclesBits : Nat}

/-- The order in which the comparator ranks timestamps. -/
def Stamp.Earlier (a b : Stamp taiBits cyclesBits) : Prop :=
  a.tai < b.tai ∨ a.tai = b.tai ∧ a.cycles < b.cycles

instance (a b : Stamp taiBits cyclesBits) : Decidable (a.Earlier b) :=
  inferInstanceAs (Decidable (_ ∨ _))

structure TsCompareIn (taiBits cyclesBits : Nat) where
  rstN : Bool
  valid : Bool
  a : Stamp taiBits cyclesBits
  b : Stamp taiBits cyclesBits
deriving DecidableEq

structure TsCompare where
  stage1 : Bool
  taiLess : Bool
  taiEqual : Bool
  cyclesLess : Bool
  cyclesEqual : Bool
  validO : Bool
  equalO : Bool
  aLessO : Bool
  aGreatO : Bool
deriving DecidableEq

namespace TsCompare

def clock (i : TsCompareIn taiBits cyclesBits) (s : TsCompare) : TsCompare where
  stage1 := i.rstN && i.valid
  taiLess := if i.rstN then decide (i.a.tai < i.b.tai) else s.taiLess
  taiEqual := if i.rstN then decide (i.a.tai = i.b.tai) else s.taiEqual
  cyclesLess := if i.rstN then decide (i.a.cycles < i.b.cycles) else s.cyclesLess
  cyclesEqual := if i.rstN then decide (i.a.cycles = i.b.cycles) else s.cyclesEqual
  validO := i.rstN && s.stage1
  equalO := if i.rstN then s.taiEqual && s.cyclesEqual else s.equalO
  aLessO := if i.rstN then s.taiLess || (s.taiEqual && s.cyclesLess) else s.aLessO
  aGreatO := if i.rstN then !(s.taiEqual || s.taiLess) || (s.taiEqual && !(s.cyclesLess || s.cyclesEqual))
    else s.aGreatO

/-- What the first stage has found, as the second will show it. -/
def equalNext (s : TsCompare) : Bool := s.taiEqual && s.cyclesEqual

def aGreatNext (s : TsCompare) : Bool :=
  !(s.taiEqual || s.taiLess) || (s.taiEqual && !(s.cyclesLess || s.cyclesEqual))

variable {i : TsCompareIn taiBits cyclesBits} {s : TsCompare}

theorem equalO_clock (hRst : i.rstN = true) : (s.clock i).equalO = s.equalNext := by
  simp [clock, equalNext, hRst]

theorem aGreatO_clock (hRst : i.rstN = true) : (s.clock i).aGreatO = s.aGreatNext := by
  simp [clock, aGreatNext, hRst]

theorem flags_held (hRst : i.rstN = false) :
    (s.clock i).equalNext = s.equalNext ∧ (s.clock i).aGreatNext = s.aGreatNext ∧ (s.clock i).equalO = s.equalO ∧
      (s.clock i).aGreatO = s.aGreatO := by
  simp [clock, equalNext, aGreatNext, hRst]

theorem equalNext_clock (hRst : i.rstN = true) : (s.clock i).equalNext = decide (i.a = i.b) := by
  obtain ⟨rstN, valid, ⟨aTai, aCycles⟩, ⟨bTai, bCycles⟩⟩ := i
  simp only at hRst
  simp [clock, equalNext, hRst]

theorem decide_lt_of_ne {w : Nat} {x y : BitVec w} (h : x ≠ y) : decide (x < y) = !decide (y < x) := by
  have hNe : x.toNat ≠ y.toNat := fun hEq => h (BitVec.eq_of_toNat_eq hEq)
  rw [Bool.eq_not, ne_eq, decide_eq_decide, BitVec.lt_def, BitVec.lt_def]
  omega

theorem aGreatNext_clock (hRst : i.rstN = true) : (s.clock i).aGreatNext = decide (i.b.Earlier i.a) := by
  obtain ⟨rstN, valid, ⟨aTai, aCycles⟩, ⟨bTai, bCycles⟩⟩ := i
  simp only at hRst
  by_cases hTai : aTai = bTai
  · subst hTai
    by_cases hCycles : aCycles = bCycles
    · simp [clock, aGreatNext, hRst, Stamp.Earlier, hCycles]
    · simp [clock, aGreatNext, hRst, Stamp.Earlier, hCycles, decide_lt_of_ne hCycles]
  · simp [clock, aGreatNext, hRst, Stamp.Earlier, hTai, decide_lt_of_ne hTai, Ne.symm hTai]

end TsCompare

end WrRfDemo.Timing

import Mathlib.Data.Int.ModEq
import Mathlib.Tactic.IntervalCases
import Mathlib.Tactic.Ring
import WrRfDemo.Clocked.Delay
import WrRfDemo.Clocked.Signed
import WrRfDemo.Timing.WrTime

/-! # Normalized sums

The adder beside the same sum in unbounded numbers. As long as the cycles stay in the range that
the adder asks for, every field of every stage shows the unbounded number, and the last stage
shows it normalized.
-/

namespace WrRfDemo.Timing

open Clocked

variable {fracBits taiBits : Nat}

/-- The sum of two timestamps, field by field, in unbounded numbers. -/
structure ExactSum where
  utc : Int
  coarse : Int
  frac : Int
deriving DecidableEq

namespace ExactSum

def ofFields (i : TsAdderIn fracBits 28 taiBits) : ExactSum where
  utc := i.a.tai.toNat + i.b.tai.toNat
  coarse := i.a.cycles.toInt + i.b.cycles.toInt
  frac := i.aFrac.toNat + i.bFrac.toNat

def carryFrac (fracBits : Nat) (x : ExactSum) : ExactSum :=
  if 2 ^ fracBits ≤ x.frac then { x with frac := x.frac - 2 ^ fracBits, coarse := x.coarse + 1 } else x

def normalize (x : ExactSum) : ExactSum :=
  if x.coarse < 0 then { x with coarse := x.coarse + refClkRate, utc := x.utc - 1 }
  else if 2 * refClkRate ≤ x.coarse then { x with coarse := x.coarse - 2 * refClkRate, utc := x.utc + 2 }
  else if refClkRate ≤ x.coarse then { x with coarse := x.coarse - refClkRate, utc := x.utc + 1 }
  else x

/-- The time that the fields stand for, in units of the fraction. -/
def value (fracBits : Nat) (x : ExactSum) : Int :=
  x.utc * refClkRate * 2 ^ fracBits + x.coarse * 2 ^ fracBits + x.frac

variable {x : ExactSum}

@[simp] theorem value_carryFrac : (x.carryFrac fracBits).value fracBits = x.value fracBits := by
  rw [carryFrac]
  split_ifs
  · simp only [value]
    ring
  · rfl

@[simp] theorem value_normalize : x.normalize.value fracBits = x.value fracBits := by
  rw [normalize]
  split_ifs
  · simp only [value]
    ring
  · simp only [value]
    ring
  · simp only [value]
    ring
  · rfl

theorem frac_carryFrac (h : 0 ≤ x.frac ∧ x.frac < 2 * 2 ^ fracBits) :
    0 ≤ (x.carryFrac fracBits).frac ∧ (x.carryFrac fracBits).frac < 2 ^ fracBits := by
  rw [carryFrac]
  split_ifs
  · simp only
    omega
  · omega

theorem coarse_carryFrac (fracBits : Nat) (x : ExactSum) :
    x.coarse ≤ (x.carryFrac fracBits).coarse ∧ (x.carryFrac fracBits).coarse ≤ x.coarse + 1 := by
  rw [carryFrac]
  split_ifs
  · simp only
    omega
  · omega

@[simp] theorem frac_normalize : x.normalize.frac = x.frac := by
  rw [normalize]
  split_ifs <;> rfl

theorem coarse_normalize (h : -(refClkRate : Int) ≤ x.coarse ∧ x.coarse < 3 * refClkRate) :
    0 ≤ x.normalize.coarse ∧ x.normalize.coarse < refClkRate := by
  rw [normalize]
  split_ifs
  · simp only
    omega
  · simp only
    omega
  · simp only
    omega
  · omega

end ExactSum

namespace TsSum

/-- `q_frac_o`. -/
def qFrac {cyclesBits : Nat} (s : TsSum fracBits cyclesBits taiBits) : BitVec fracBits := field 0 fracBits s.frac

/-- The fields, read as signed, are these numbers; of the seconds only the rest is kept. -/
structure Shows (s : TsSum fracBits 28 taiBits) (x : ExactSum) : Prop where
  utc : s.utc = BitVec.ofInt taiBits x.utc
  coarse : s.coarse.toInt = x.coarse
  frac : s.frac.toInt = x.frac

variable {s : TsSum fracBits 28 taiBits} {x : ExactSum}

theorem ofFields_shows (i : TsAdderIn fracBits 28 taiBits) : (ofFields i).Shows (.ofFields i) := by
  constructor
  · simp [ofFields, ExactSum.ofFields, BitVec.ofInt_add]
  · have hA := fits_toInt i.a.cycles
    have hB := fits_toInt i.b.cycles
    have hSum : Fits 30 ((i.a.cycles.signExtend 30).toInt + (i.b.cycles.signExtend 30).toInt) := by
      rw [BitVec.toInt_signExtend_of_le (by decide), BitVec.toInt_signExtend_of_le (by decide)]
      simp only [Fits] at hA hB ⊢
      omega
    rw [ofFields, toInt_add_of_fits hSum, BitVec.toInt_signExtend_of_le (by decide),
      BitVec.toInt_signExtend_of_le (by decide), ExactSum.ofFields]
  · have hA := i.aFrac.isLt
    have hB := i.bFrac.isLt
    have hPow : 2 ^ (fracBits + 2) = 2 ^ fracBits * 4 := Nat.pow_add 2 fracBits 2
    have hFrac : (ofFields i).frac.toNat = i.aFrac.toNat + i.bFrac.toNat := by
      have hWideA : i.aFrac.toNat % 2 ^ (fracBits + 2) = i.aFrac.toNat := Nat.mod_eq_of_lt (by omega)
      have hWideB : i.bFrac.toNat % 2 ^ (fracBits + 2) = i.bFrac.toNat := Nat.mod_eq_of_lt (by omega)
      rw [ofFields, BitVec.toNat_add, BitVec.toNat_setWidth, BitVec.toNat_setWidth, hWideA, hWideB]
      exact Nat.mod_eq_of_lt (by omega)
    rw [BitVec.toInt_eq_toNat_of_lt (by omega), hFrac, ExactSum.ofFields]
    push_cast
    rfl

theorem toNat_frac (h : s.Shows x) (hFrac : 0 ≤ x.frac) : (s.frac.toNat : Int) = x.frac := by
  have hRead := h.frac
  have hLt : (s.frac.toNat : Int) < 2 ^ (fracBits + 2) := by exact_mod_cast s.frac.isLt
  rw [BitVec.toInt_eq_toNat_cond] at hRead
  split_ifs at hRead
  · exact hRead
  · push_cast at hRead
    omega

theorem ovfFrac_iff (h : s.Shows x) (hFrac : 0 ≤ x.frac ∧ x.frac < 2 * 2 ^ fracBits) :
    s.ovfFrac = true ↔ 2 ^ fracBits ≤ x.frac := by
  have hNat := toNat_frac h hFrac.1
  have hPow : ((2 ^ fracBits : Nat) : Int) = 2 ^ fracBits := by push_cast; rfl
  have hLt : s.frac.toNat < 2 * 2 ^ fracBits := by omega
  have hBit : s.ovfFrac = decide (s.frac.toNat / 2 ^ fracBits % 2 = 1) := Nat.testBit_eq_decide_div_mod_eq
  rw [hBit, decide_eq_true_iff, Nat.mod_eq_of_lt (Nat.div_lt_of_lt_mul (by omega))]
  constructor
  · intro hOne
    have hDiv := Nat.div_mul_le_self s.frac.toNat (2 ^ fracBits)
    rw [hOne] at hDiv
    omega
  · intro hOver
    exact Nat.div_eq_of_lt_le (by omega) (by omega)

theorem carryFrac_shows (h : s.Shows x) (hFrac : 0 ≤ x.frac ∧ x.frac < 2 * 2 ^ fracBits)
    (hCoarse : Fits 30 (x.coarse + 1)) : s.carryFrac.Shows (x.carryFrac fracBits) := by
  have hPow : (2 : Int) ^ (fracBits + 2) = 2 ^ fracBits * 4 := pow_add 2 fracBits 2
  rw [carryFrac, ExactSum.carryFrac]
  simp only [ovfFrac_iff h hFrac]
  split_ifs with hOver
  · have hOne : (1 : BitVec 30).toInt = 1 := by decide
    have hModulus : (BitVec.ofNat (fracBits + 2) (2 ^ fracBits)).toInt = 2 ^ fracBits := by
      rw [toInt_ofNat_of_fits] <;> push_cast
      · rfl
      · constructor <;> omega
    refine ⟨h.utc, ?_, ?_⟩
    · rw [toInt_add_of_fits, h.coarse, hOne]
      rw [h.coarse, hOne]
      exact hCoarse
    · rw [toInt_sub_of_fits, h.frac, hModulus]
      rw [h.frac, hModulus]
      constructor <;> omega
  · exact h

theorem normalize_shows (h : s.Shows x) (hCoarse : -(refClkRate : Int) ≤ x.coarse ∧ x.coarse < 3 * refClkRate) :
    (s.normalize refClkRate (s.coarseRange refClkRate)).Shows x.normalize := by
  have hRate : (BitVec.ofNat 30 refClkRate).toInt = refClkRate := by decide
  have hTwice : (BitVec.ofNat 30 (2 * refClkRate)).toInt = 2 * refClkRate := by decide
  have hRange : refClkRate = 125000000 := rfl
  rw [coarseRange, h.coarse, ExactSum.normalize]
  split_ifs with hUnder hTwo hOne
  · refine ⟨?_, ?_, h.frac⟩
    · simp [normalize, h.utc, Int.sub_eq_add_neg, BitVec.ofInt_add, BitVec.ofInt_neg, BitVec.sub_eq_add_neg]
    · rw [normalize, if_pos rfl, toInt_add_of_fits, h.coarse, hRate]
      rw [h.coarse, hRate]
      constructor <;> omega
  · refine ⟨?_, ?_, h.frac⟩
    · simp [normalize, h.utc, BitVec.ofInt_add]
    · rw [normalize, if_neg Bool.false_ne_true, if_pos rfl, toInt_sub_of_fits, h.coarse, hTwice]
      rw [h.coarse, hTwice]
      constructor <;> omega
  · refine ⟨?_, ?_, h.frac⟩
    · simp [normalize, h.utc, BitVec.ofInt_add]
    · rw [normalize, if_neg Bool.false_ne_true, if_neg (by decide), if_pos rfl, toInt_sub_of_fits, h.coarse, hRate]
      rw [h.coarse, hRate]
      constructor <;> omega
  · exact h

/-- The outputs stand for the sum, in normal form. -/
structure Normal (s : TsSum fracBits 28 taiBits) (x : ExactSum) : Prop where
  cycles : 0 ≤ s.stamp.cycles.toInt ∧ s.stamp.cycles.toInt < refClkRate
  coarse : s.coarse.toInt = s.stamp.cycles.toInt
  frac : s.frac.toInt = s.qFrac.toNat
  sum : s.stamp.tai.toNat * refClkRate * 2 ^ fracBits + s.stamp.cycles.toInt * 2 ^ fracBits + s.qFrac.toNat ≡
    x.value fracBits [ZMOD 2 ^ taiBits * (refClkRate * 2 ^ fracBits)]

theorem Shows.normal (h : s.Shows x) (hCoarse : 0 ≤ x.coarse ∧ x.coarse < refClkRate)
    (hFrac : 0 ≤ x.frac ∧ x.frac < 2 ^ fracBits) : s.Normal x := by
  have hRange : refClkRate = 125000000 := rfl
  have hFits : Fits 28 s.coarse.toInt := by
    rw [h.coarse]
    constructor <;> omega
  have hCycles : s.stamp.cycles.toInt = s.coarse.toInt := toInt_field_of_fits (by decide) hFits
  have hNat := toNat_frac h hFrac.1
  have hPow : ((2 ^ fracBits : Nat) : Int) = 2 ^ fracBits := by push_cast; rfl
  have hQFrac : s.qFrac.toNat = s.frac.toNat := by
    have hLow : s.qFrac.toNat = s.frac.toNat % 2 ^ fracBits := by simp [qFrac, field]
    rw [hLow, Nat.mod_eq_of_lt (by omega)]
  have hTai : (s.stamp.tai.toNat : Int) ≡ x.utc [ZMOD 2 ^ taiBits] := by
    have hSome : ((2 ^ taiBits : Nat) : Int) ≠ 0 := Int.natCast_ne_zero.mpr (Nat.two_pow_pos taiBits).ne'
    have hUtc : (s.utc.toNat : Int) = x.utc % 2 ^ taiBits := by
      rw [h.utc, BitVec.toNat_ofInt, Int.toNat_of_nonneg (Int.emod_nonneg _ hSome)]
      push_cast
      rfl
    rw [stamp, hUtc]
    exact Int.mod_modEq _ _
  refine ⟨?_, hCycles.symm, ?_, ?_⟩
  · rw [hCycles, h.coarse]
    exact hCoarse
  · rw [h.frac, ← hNat, hQFrac]
  · rw [hCycles, h.coarse, hQFrac, hNat, ExactSum.value, Int.mul_assoc, Int.mul_assoc x.utc]
    exact ((hTai.mul_right' (c := refClkRate * 2 ^ fracBits)).add_right _).add_right _

end TsSum

/-- The cycles at the inputs are in the range that the adder asks for. -/
def TsAdderIn.Admissible (i : TsAdderIn fracBits 28 taiBits) : Prop :=
  -refClkRate + 1 ≤ i.a.cycles.toInt + i.b.cycles.toInt ∧
    i.a.cycles.toInt + i.b.cycles.toInt ≤ 3 * refClkRate - 1

instance (i : TsAdderIn fracBits 28 taiBits) : Decidable i.Admissible := inferInstanceAs (Decidable (_ ∧ _))

namespace TsAdder

def qFrac (s : TsAdder fracBits 28 taiBits) : BitVec fracBits := s.sum3.qFrac

/-- The sum of the inputs goes through the stages, and no field of any stage overflows. -/
structure Adds (i : TsAdderIn fracBits 28 taiBits) (s0 s1 s2 s3 : TsAdder fracBits 28 taiBits) : Prop where
  sum0 : s0.sum0.Shows (.ofFields i)
  sum1 : s1.sum1.Shows ((ExactSum.ofFields i).carryFrac fracBits)
  sum2 : s2.sum2.Shows ((ExactSum.ofFields i).carryFrac fracBits)
  sum3 : s3.sum3.Shows ((ExactSum.ofFields i).carryFrac fracBits).normalize
  normal : s3.sum3.Normal (.ofFields i)

section

variable {i : TsAdderIn fracBits 28 taiBits}

theorem frac_ofFields (i : TsAdderIn fracBits 28 taiBits) :
    0 ≤ (ExactSum.ofFields i).frac ∧ (ExactSum.ofFields i).frac < 2 * 2 ^ fracBits := by
  have hA := i.aFrac.isLt
  have hB := i.bFrac.isLt
  have hPow : ((2 ^ fracBits : Nat) : Int) = 2 ^ fracBits := by push_cast; rfl
  simp only [ExactSum.ofFields]
  omega

/-- Two fields of 28 bits stay below three rounds of the clock, with the carry too. -/
theorem coarse_ofFields (h : i.Admissible) : -(refClkRate : Int) ≤ ((ExactSum.ofFields i).carryFrac fracBits).coarse ∧
    ((ExactSum.ofFields i).carryFrac fracBits).coarse < 3 * refClkRate := by
  have hA := fits_toInt i.a.cycles
  have hB := fits_toInt i.b.cycles
  have hRate : refClkRate = 125000000 := rfl
  have hCarried := ExactSum.coarse_carryFrac fracBits (ExactSum.ofFields i)
  simp only [Fits, TsAdderIn.Admissible, ExactSum.ofFields] at hA hB h hCarried ⊢
  omega

theorem shows_carried (i : TsAdderIn fracBits 28 taiBits) :
    (TsSum.ofFields i).carryFrac.Shows ((ExactSum.ofFields i).carryFrac fracBits) := by
  apply TsSum.carryFrac_shows (TsSum.ofFields_shows i) (frac_ofFields i)
  have hA := fits_toInt i.a.cycles
  have hB := fits_toInt i.b.cycles
  simp only [Fits, ExactSum.ofFields] at hA hB ⊢
  omega

theorem normal_sum (h : i.Admissible) :
    ((TsSum.ofFields i).carryFrac.normalize refClkRate ((TsSum.ofFields i).carryFrac.coarseRange refClkRate)).Normal
      (.ofFields i) := by
  have hFrac := ExactSum.frac_carryFrac (frac_ofFields i)
  have hNormal := (TsSum.normalize_shows (shows_carried i) (coarse_ofFields h)).normal
    (ExactSum.coarse_normalize (coarse_ofFields h)) (by rw [ExactSum.frac_normalize]; exact hFrac)
  have hSum := hNormal.sum
  rw [ExactSum.value_normalize, ExactSum.value_carryFrac] at hSum
  exact ⟨hNormal.cycles, hNormal.coarse, hNormal.frac, hSum⟩

end

variable {s s0 s1 s2 s3 : TsAdder fracBits 28 taiBits} {i i1 i2 i3 : TsAdderIn fracBits 28 taiBits}

theorem adds_of_clocks (hRst : i.rstN = true ∧ i1.rstN = true ∧ i2.rstN = true ∧ i3.rstN = true)
    (h0 : s0 = s.clock refClkRate i) (h1 : s1 = s0.clock refClkRate i1) (h2 : s2 = s1.clock refClkRate i2)
    (h3 : s3 = s2.clock refClkRate i3) (hEnable : i.enable = true) (hAdmissible : i.Admissible) :
    Adds i s0 s1 s2 s3 := by
  obtain ⟨hRst, hRst1, hRst2, hRst3⟩ := hRst
  have hSum0 : s0.sum0 = .ofFields i := by simp [h0, clock, hRst, hEnable]
  have hSum1 : s1.sum1 = (TsSum.ofFields i).carryFrac := by simp [h1, clock, hRst1, hSum0]
  have hSum2 : s2.sum2 = (TsSum.ofFields i).carryFrac := by simp [h2, clock, hRst2, hSum1]
  have hRange : s2.range = (TsSum.ofFields i).carryFrac.coarseRange refClkRate := by simp [h2, clock, hRst2, hSum1]
  have hSum3 : s3.sum3 =
      (TsSum.ofFields i).carryFrac.normalize refClkRate ((TsSum.ofFields i).carryFrac.coarseRange refClkRate) := by
    simp [h3, clock, hRst3, hSum2, hRange]
  have hCarried := shows_carried i
  constructor
  · exact hSum0 ▸ TsSum.ofFields_shows i
  · exact hSum1 ▸ hCarried
  · exact hSum2 ▸ hCarried
  · exact hSum3 ▸ TsSum.normalize_shows hCarried (coarse_ofFields hAdmissible)
  · exact hSum3 ▸ normal_sum hAdmissible

/-! ### A stream of inputs -/

def pipe (j : Nat) (s : TsAdder fracBits 28 taiBits) : Bool :=
  match j with
  | 0 => s.pipe0
  | 1 => s.pipe1
  | 2 => s.pipe2
  | _ => s.pipe3

variable {r : TsAdderIn fracBits 28 taiBits} {inputs : List (TsAdderIn fracBits 28 taiBits)}

theorem pipe3_stateAt {n : Nat} (hReset : r.rstN = false) (hRun : ∀ j ∈ inputs, j.rstN = true) (hn : n ≤ inputs.length) :
    (stateAt (clock refClkRate) inputs (s.clock refClkRate r) n).pipe3 = true ↔
      ∃ k, n = k + 4 ∧ ∃ i, inputs[k]? = some i ∧ i.enable = true ∧ i.valid = true := by
  have hEmpty : ∀ j ≤ 3, pipe j (s.clock refClkRate r) = false := by
    intro j hj
    interval_cases j <;> simp [pipe, clock, hReset]
  have hFirst : ∀ i ∈ inputs, ∀ s : TsAdder fracBits 28 taiBits,
      pipe 0 (s.clock refClkRate i) = (i.enable && i.valid) := by
    intro i hi s
    simp [pipe, clock, hRun i hi]
  have hNext : ∀ i ∈ inputs, ∀ j < 3, ∀ s : TsAdder fracBits 28 taiBits,
      pipe (j + 1) (s.clock refClkRate i) = pipe j s := by
    intro i hi j hj s
    interval_cases j <;> simp [pipe, clock, hRun i hi]
  have hBit := bit_stateAt hEmpty hFirst hNext (Nat.le_refl 3) hn
  simp only [Bool.and_eq_true] at hBit
  exact hBit

/-- Each enabled valid input, and nothing else, comes out four clocks later, and it is the normalized sum. -/
theorem sums_in_order (hReset : r.rstN = false) (hRun : ∀ j ∈ inputs, j.rstN = true)
    (hAdmissible : ∀ j ∈ inputs, j.enable = true → j.valid = true → j.Admissible)
    (s : TsAdder fracBits 28 taiBits) :
    let state := stateAt (clock refClkRate) inputs (s.clock refClkRate r)
    (∀ n ≤ inputs.length, (state n).pipe3 = true ↔
      ∃ k, n = k + 4 ∧ ∃ i, inputs[k]? = some i ∧ i.enable = true ∧ i.valid = true) ∧
    ∀ k i, inputs[k]? = some i → i.enable = true → i.valid = true → k + 4 ≤ inputs.length →
      Adds i (state (k + 1)) (state (k + 2)) (state (k + 3)) (state (k + 4)) := by
  intro state
  constructor
  · exact fun n hn => pipe3_stateAt hReset hRun hn
  · intro k i hInput hEnable hValid hLong
    have hClock : ∀ j < inputs.length, ∃ i ∈ inputs, state (j + 1) = (state j).clock refClkRate i :=
      fun j hj => exists_stateAt_succ hj
    obtain ⟨i1, hi1, h1⟩ := hClock (k + 1) (by omega)
    obtain ⟨i2, hi2, h2⟩ := hClock (k + 2) (by omega)
    obtain ⟨i3, hi3, h3⟩ := hClock (k + 3) (by omega)
    have hMem := List.mem_of_getElem? hInput
    exact adds_of_clocks ⟨hRun i hMem, hRun i1 hi1, hRun i2 hi2, hRun i3 hi3⟩ (stateAt_succ hInput) h1 h2 h3 hEnable
      (hAdmissible i hMem hEnable hValid)

/-- Two cycles before the start of the epoch, with a carry from the fraction. -/
theorem sums_in_order_borrow :
    let reset : TsAdderIn 4 28 8 := ⟨false, false, true, ⟨0, 0⟩, 0, ⟨0, 0⟩, 0⟩
    let idle : TsAdderIn 4 28 8 := ⟨true, false, true, ⟨0, 0⟩, 0, ⟨0, 0⟩, 0⟩
    let sample : TsAdderIn 4 28 8 := ⟨true, true, true, ⟨0, 0⟩, 15, ⟨0, -2⟩, 15⟩
    let zero : TsSum 4 28 8 := ⟨0, 0, 0⟩
    let s : TsAdder 4 28 8 := ⟨true, true, true, true, zero, zero, zero, ⟨false, 0⟩, zero⟩
    let s4 := stateAt (clock refClkRate) [sample, idle, idle, idle] (s.clock refClkRate reset) 4
    s4.pipe3 = true ∧ s4.sum3.Normal ⟨0, -2, 30⟩ ∧ s4.q = ⟨-1, 124999999⟩ ∧ s4.qFrac = 14 := by
  intro reset idle sample zero s s4
  have hRun : ∀ j ∈ [sample, idle, idle, idle], j.rstN = true := by decide
  have hAdmissible : ∀ j ∈ [sample, idle, idle, idle], j.enable = true → j.valid = true → j.Admissible := by decide
  obtain ⟨hValid, hSum⟩ := sums_in_order (r := reset) rfl hRun hAdmissible s
  refine ⟨(hValid 4 (by decide)).mpr ⟨0, rfl, sample, rfl, rfl, rfl⟩, (hSum 0 sample rfl rfl rfl (by decide)).normal, ?_⟩
  decide

end TsAdder

end WrRfDemo.Timing

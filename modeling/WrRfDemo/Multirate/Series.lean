import Mathlib.Algebra.Order.BigOperators.Group.Finset
import Mathlib.Algebra.Ring.GeomSum
import Mathlib.RingTheory.PowerSeries.Expand

/-! # Sequences of samples as power series

A sequence of samples is the power series of its terms: a delay multiplies by `X`, a comb by `1 - X`, and
putting `rate - 1` zeros after each sample expands the series by `rate`. Accumulating what combs have
differentiated at the low rate leaves moving sums over `rate` samples.
-/

namespace WrRfDemo.Multirate

open PowerSeries Finset

section Ring

variable {A : Type*} [CommRing A] (rate : Nat)

/-- The sum of the last `rate` samples, those before the first being zero. -/
def movingSum (f : Nat → A) (n : Nat) : A := ∑ i ∈ range rate, if i ≤ n then f (n - i) else 0

/-- Each sample shown `rate` times. -/
def hold (f : Nat → A) (n : Nat) : A := f (n / rate)

/-- The samples held, and then smoothed by that many moving sums. -/
def smoothed (f : Nat → A) : Nat → Nat → A
  | 0 => hold rate f
  | k + 1 => movingSum rate (smoothed f k)

/-- What an accumulator shows that starts at zero and has added up the samples so far. -/
noncomputable def accumulated (u : A⟦X⟧) : A⟦X⟧ := mk fun n => ∑ i ∈ range n, coeff i u

@[simp] theorem coeff_zero_accumulated (u : A⟦X⟧) : coeff 0 (accumulated u) = 0 := by
  simp [accumulated]

theorem coeff_succ_accumulated (u : A⟦X⟧) (n : Nat) :
    coeff (n + 1) (accumulated u) = coeff n (accumulated u) + coeff n u := by
  simp [accumulated, sum_range_succ]

theorem coeff_succ_comb (u : A⟦X⟧) (n : Nat) : coeff (n + 1) ((1 - X) * u) = coeff (n + 1) u - coeff n u := by
  rw [sub_mul, one_mul, map_sub, coeff_succ_X_mul]

/-- An accumulator behind a comb is a delay. -/
theorem accumulated_comb (u : A⟦X⟧) : accumulated ((1 - X) * u) = X * u := by
  ext n
  induction n with
  | zero => simp
  | succ n ih =>
    rw [coeff_succ_accumulated, ih, coeff_succ_X_mul]
    cases n with
    | zero => simp [sub_mul]
    | succ n => rw [coeff_succ_X_mul, coeff_succ_comb, add_sub_cancel]

theorem accumulated_combs (k : Nat) (u : A⟦X⟧) : accumulated^[k] ((1 - X) ^ k * u) = X ^ k * u := by
  induction k generalizing u with
  | zero => simp
  | succ k ih =>
    calc accumulated^[k + 1] ((1 - X) ^ (k + 1) * u)
        = accumulated^[k] (accumulated ((1 - X) * ((1 - X) ^ k * u))) := by
          rw [Function.iterate_succ_apply, pow_succ', mul_assoc]
      _ = accumulated^[k] ((1 - X) ^ k * (X * u)) := by rw [accumulated_comb, mul_left_comm]
      _ = X ^ (k + 1) * u := by rw [ih, ← mul_assoc, ← pow_succ]

/-- The response of a moving sum to a single one. -/
noncomputable def box : A⟦X⟧ := ∑ i ∈ range rate, X ^ i

theorem comb_mul_box : (1 - X) * box rate = (1 - X ^ rate : A⟦X⟧) := mul_neg_geom_sum X rate

theorem coeff_box_mul (u : A⟦X⟧) (n : Nat) :
    coeff n (box rate * u) = movingSum rate (fun j => coeff j u) n := by
  rw [box, sum_mul, map_sum]
  exact sum_congr rfl fun i _ => coeff_X_pow_mul' u i n

/-- Accumulators that are behind combs of the low rate. -/
theorem accumulated_low_combs {k sections : Nat} (hk : k ≤ sections) (u : A⟦X⟧) :
    accumulated^[k] ((1 - X ^ rate) ^ sections * u) =
      X ^ k * (box rate ^ k * ((1 - X ^ rate) ^ (sections - k) * u)) := by
  obtain ⟨more, rfl⟩ := Nat.exists_eq_add_of_le hk
  have hSplit : ((1 - X ^ rate) ^ (k + more) * u : A⟦X⟧) =
      (1 - X) ^ k * (box rate ^ k * ((1 - X ^ rate) ^ more * u)) := by
    rw [pow_add, ← comb_mul_box, mul_pow, mul_assoc, mul_assoc]
  rw [hSplit, accumulated_combs, Nat.add_sub_cancel_left]

variable {rate} (hRate : rate ≠ 0)

/-- The moving sum of samples with zeros between them holds each sample. -/
theorem coeff_box_mul_expand (u : A⟦X⟧) (n : Nat) :
    coeff n (box rate * expand rate hRate u) = hold rate (fun j => coeff j u) n := by
  have hPos := Nat.pos_of_ne_zero hRate
  rw [coeff_box_mul, movingSum, sum_eq_single_of_mem (n % rate) (mem_range.mpr (Nat.mod_lt n hPos))]
  · rw [if_pos (Nat.mod_le n rate), coeff_expand, if_pos (Nat.dvd_sub_mod n), hold]
    congr 2
    exact Nat.div_eq_sub_mod_div.symm
  · intro i hi hOther
    split_ifs with hStarted
    · rw [coeff_expand, if_neg]
      rintro ⟨q, hq⟩
      apply hOther
      rw [show n = i + rate * q by omega, Nat.add_mul_mod_self_left, Nat.mod_eq_of_lt (mem_range.mp hi)]
    · rfl

theorem coeff_boxes_mul_expand (u : A⟦X⟧) (k n : Nat) :
    coeff n (box rate ^ (k + 1) * expand rate hRate u) = smoothed rate (fun j => coeff j u) k n := by
  induction k generalizing n with
  | zero => rw [zero_add, pow_one, coeff_box_mul_expand, smoothed]
  | succ k ih =>
    rw [pow_succ', mul_assoc, coeff_box_mul, smoothed]
    congr 1
    funext j
    exact ih j

/-- Samples that are older than the moving sums together do not matter, nor does when the others were taken. -/
theorem smoothed_shift (hPos : 0 < rate) {f g : Nat → A} (shift k : Nat) {n : Nat} (hFull : k * (rate - 1) ≤ n)
    (hSame : ∀ j, (n - k * (rate - 1)) / rate ≤ j → j ≤ n / rate → f j = g (j + shift)) :
    smoothed rate f k n = smoothed rate g k (n + shift * rate) := by
  induction k generalizing n with
  | zero =>
    rw [smoothed, smoothed, hold, hold, Nat.add_mul_div_right n shift hPos]
    exact hSame (n / rate) (by simp) le_rfl
  | succ k ih =>
    rw [Nat.add_mul, one_mul] at hFull hSame
    rw [smoothed, smoothed, movingSum, movingSum]
    refine sum_congr rfl fun i hi => ?_
    have hi := mem_range.mp hi
    rw [if_pos (by omega), if_pos (by omega), ih (n := n - i) (by omega)]
    · congr 1
      omega
    · intro j hLow hHigh
      refine hSame j (le_trans (Nat.div_le_div_right ?_) hLow) (le_trans hHigh (Nat.div_le_div_right ?_)) <;> omega

end Ring

/-! ### Bounds -/

section Bounds

variable {rate : Nat} {lo hi b : Int} {u : Int⟦X⟧}

def Within (lo hi : Int) (u : Int⟦X⟧) : Prop := ∀ n, lo ≤ coeff n u ∧ coeff n u ≤ hi

theorem movingSum_within {f : Nat → Int} {n : Nat}
    (h : ∀ i < rate, (lo ≤ if i ≤ n then f (n - i) else 0) ∧ (if i ≤ n then f (n - i) else 0) ≤ hi) :
    rate * lo ≤ movingSum rate f n ∧ movingSum rate f n ≤ rate * hi := by
  have hLow := card_nsmul_le_sum (range rate) _ lo fun i hi => (h i (mem_range.mp hi)).1
  have hHigh := sum_le_card_nsmul (range rate) _ hi fun i hi => (h i (mem_range.mp hi)).2
  rw [card_range, nsmul_eq_mul] at hLow hHigh
  exact ⟨hLow, hHigh⟩

theorem Within.delay (h : Within lo hi u) (hLow : lo ≤ 0) (hHigh : 0 ≤ hi) (k : Nat) : Within lo hi (X ^ k * u) := by
  intro n
  rw [coeff_X_pow_mul']
  split_ifs
  · exact h (n - k)
  · exact ⟨hLow, hHigh⟩

theorem Within.comb (h : Within lo hi u) (hLow : lo ≤ 0) (hHigh : 0 ≤ hi) (k : Nat) :
    Within (-(hi - lo)) (hi - lo) ((1 - X ^ k) * u) := by
  intro n
  have hNow := h n
  have hDelayed := h.delay hLow hHigh k n
  rw [sub_mul, one_mul, map_sub]
  constructor <;> omega

theorem Within.nonneg (h : Within (-b) b u) : 0 ≤ b := by
  have hFirst := h 0
  omega

theorem Within.combs (h : Within (-b) b u) (k sections : Nat) :
    Within (-(2 ^ sections * b)) (2 ^ sections * b) ((1 - X ^ k) ^ sections * u) := by
  induction sections with
  | zero => simpa using h
  | succ sections ih =>
    have hNow := ih.nonneg
    have hNext := ih.comb (by omega) hNow k
    rw [pow_succ', mul_assoc, pow_succ', mul_assoc]
    rwa [show 2 ^ sections * b - -(2 ^ sections * b) = 2 * (2 ^ sections * b) by ring] at hNext

theorem Within.boxed (h : Within lo hi u) (hLow : lo ≤ 0) (hHigh : 0 ≤ hi) :
    Within (rate * lo) (rate * hi) (box rate * u) := by
  intro n
  rw [coeff_box_mul]
  refine movingSum_within fun i _ => ?_
  split_ifs
  · exact h (n - i)
  · exact ⟨hLow, hHigh⟩

theorem Within.boxes (h : Within lo hi u) (hLow : lo ≤ 0) (hHigh : 0 ≤ hi) (k : Nat) :
    Within (rate ^ k * lo) (rate ^ k * hi) (box rate ^ k * u) := by
  induction k with
  | zero => simpa using h
  | succ k ih =>
    have hPow : (0 : Int) ≤ rate ^ k := Int.pow_nonneg (Int.natCast_nonneg rate)
    rw [pow_succ', mul_assoc, pow_succ', mul_assoc, mul_assoc]
    exact ih.boxed (Int.mul_nonpos_of_nonneg_of_nonpos hPow hLow) (Int.mul_nonneg hPow hHigh)

theorem Within.held {f : Nat → Int} (h : ∀ j, lo ≤ f j ∧ f j ≤ hi) (hRate : rate ≠ 0) :
    Within lo hi (box rate * expand rate hRate (mk f)) := by
  intro n
  rw [coeff_box_mul_expand, hold, coeff_mk]
  exact h (n / rate)

/-- What the moving sums show lies between the samples that they cover, scaled. -/
theorem smoothed_within {f : Nat → Int} {k n : Nat} (hFull : k * (rate - 1) ≤ n)
    (h : ∀ j, (n - k * (rate - 1)) / rate ≤ j → j ≤ n / rate → lo ≤ f j ∧ f j ≤ hi) :
    rate ^ k * lo ≤ smoothed rate f k n ∧ smoothed rate f k n ≤ rate ^ k * hi := by
  induction k generalizing n with
  | zero =>
    rw [smoothed, hold, pow_zero, one_mul, one_mul]
    exact h (n / rate) (by simp) le_rfl
  | succ k ih =>
    rw [Nat.add_mul, one_mul] at hFull h
    rw [smoothed, pow_succ', mul_assoc, mul_assoc]
    refine movingSum_within fun i hi => ?_
    rw [if_pos (by omega)]
    refine ih (by omega) fun j hLow hHigh => ?_
    refine h j (le_trans (Nat.div_le_div_right ?_) hLow) (le_trans hHigh (Nat.div_le_div_right ?_)) <;> omega

/-- The same from the first sample on, zero being between the bounds. -/
theorem smoothed_within_of_zero {f : Nat → Int} {n : Nat} (hLow : lo ≤ 0) (hHigh : 0 ≤ hi) (k : Nat)
    (h : ∀ j ≤ n / rate, lo ≤ f j ∧ f j ≤ hi) :
    rate ^ k * lo ≤ smoothed rate f k n ∧ smoothed rate f k n ≤ rate ^ k * hi := by
  have hPow : ∀ k : Nat, (0 : Int) ≤ rate ^ k := fun k => Int.pow_nonneg (Int.natCast_nonneg rate)
  induction k generalizing n with
  | zero =>
    rw [smoothed, Multirate.hold, pow_zero, one_mul, one_mul]
    exact h (n / rate) le_rfl
  | succ k ih =>
    rw [smoothed, pow_succ', mul_assoc, mul_assoc]
    refine movingSum_within fun i _ => ?_
    split_ifs
    · exact ih fun j hj => h j (le_trans hj (Nat.div_le_div_right (Nat.sub_le n i)))
    · exact ⟨Int.mul_nonpos_of_nonneg_of_nonpos (hPow k) hLow, Int.mul_nonneg (hPow k) hHigh⟩

end Bounds

end WrRfDemo.Multirate

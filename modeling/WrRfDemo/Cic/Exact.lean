import WrRfDemo.Cic.Interpolator

/-! # The interpolator computes exactly

Each register of the interpolator holds the term of a power series in the samples, and shows it without overflow,
apart from the pipeline register of the last comb.
-/

namespace WrRfDemo.Cic

open Clocked Multirate PowerSeries

/-! ### The series that the sections show -/

/-- The input of the section behind `k` combs, by the samples taken. -/
noncomputable def low (x : Nat → Int) (k : Nat) : Int⟦X⟧ := (X * (1 - X)) ^ k * (X * mk x)

/-- The output of the first `k` integrators, by the enabled cycles. -/
noncomputable def high (x : Nat → Int) (k : Nat) : Int⟦X⟧ := accumulated^[k] (expand 1024 (by decide) (low x 7))

variable {x : Nat → Int} {n m : Nat}

theorem low_succ (x : Nat → Int) (k : Nat) : low x (k + 1) = X * (1 - X) * low x k := by
  rw [low, low, pow_succ', mul_assoc]

theorem high_succ (x : Nat → Int) (k : Nat) : high x (k + 1) = accumulated (high x k) := by
  rw [high, high, Function.iterate_succ_apply']

theorem expand_low (x : Nat → Int) : expand 1024 (by decide) (low x 7) =
    (1 - X ^ 1024) ^ 7 * (X ^ (8 * 1024) * expand 1024 (by decide) (mk x)) := by
  rw [low, map_mul, map_pow, map_mul, map_mul, map_sub, map_one, expand_X]
  ring

theorem high_eq (x : Nat → Int) {k : Nat} (hk : k < 7) : high x (k + 1) = X ^ (k + 1 + 8 * 1024) *
    ((1 - X ^ 1024) ^ (6 - k) * (box 1024 ^ k * (box 1024 * expand 1024 (by decide) (mk x)))) := by
  rw [high, expand_low, accumulated_low_combs 1024 (by omega : k + 1 ≤ 7), show 7 - (k + 1) = 6 - k by omega]
  ring

theorem low_fits (hx : ∀ j, Fits 18 (x j)) (k m : Nat) : Fits (18 + k) (coeff m (low x k)) := by
  have hSamples : Within (-2 ^ 17) (2 ^ 17 - 1) (mk x) := by
    intro j
    obtain ⟨hLow, hHigh⟩ := hx j
    rw [coeff_mk]
    constructor <;> omega
  cases k with
  | zero =>
    have hBound := hSamples.delay (by decide) (by decide) 1 m
    rw [low, pow_zero, one_mul]
    rw [pow_one] at hBound
    constructor <;> omega
  | succ k =>
    have hComb := hSamples.comb (by decide) (by decide) 1
    have hBound := (hComb.combs 1 k).delay (by simp) (by simp) (k + 2) m
    have hLow : low x (k + 1) = X ^ (k + 2) * ((1 - X ^ 1) ^ k * ((1 - X ^ 1) * mk x)) := by
      rw [low, mul_pow]
      ring
    have hPow : (2 : Int) ^ (18 + (k + 1)) = 2 ^ k * 2 ^ 19 := by ring
    have hPos : (0 : Int) < 2 ^ k := Int.pow_pos (by decide)
    rw [hLow, Fits, hPow]
    constructor <;> omega

theorem held_within (hx : ∀ j, Fits 18 (x j)) :
    Within (-2 ^ 17) (2 ^ 17 - 1) (box 1024 * expand 1024 (by decide) (mk x)) := by
  refine Within.held (fun j => ?_) (by decide)
  obtain ⟨hLow, hHigh⟩ := hx j
  constructor <;> omega

theorem high_fits (hx : ∀ j, Fits 18 (x j)) {k : Nat} (hk : k < 7) (n : Nat) :
    Fits (24 + 9 * k) (coeff n (high x (k + 1))) := by
  have hHeld := held_within hx
  rw [high_eq x hk]
  have hBoxes : Within _ _ (box 1024 ^ k * _) := hHeld.boxes (by decide) (by decide) k
  rcases Nat.lt_or_eq_of_le (Nat.le_of_lt_succ hk) with hCombs | rfl
  · have hCombed := (hBoxes.comb (by simp) (by simp) 1024).combs 1024 (5 - k)
    have hBound := hCombed.delay (Int.neg_nonpos_of_nonneg hCombed.nonneg) hCombed.nonneg (k + 1 + 8 * 1024) n
    have hScale : (2 : Int) ^ (5 - k) * ((1024 : Nat) : Int) ^ k = 2 ^ (5 + 9 * k) := by
      rw [show ((1024 : Nat) : Int) = 2 ^ 10 by norm_num, ← pow_mul, ← pow_add]
      congr 1
      omega
    have hWidth : (2 : Int) ^ (24 + 9 * k) = 2 ^ 19 * 2 ^ (5 + 9 * k) := by ring
    have hPos : (0 : Int) < 2 ^ (5 + 9 * k) := Int.pow_pos (by decide)
    rw [← mul_sub, ← mul_assoc (2 ^ (5 - k)), hScale] at hBound
    rw [show 6 - k = 5 - k + 1 by omega, pow_succ (1 - X ^ 1024) (5 - k), mul_assoc ((1 - X ^ 1024) ^ (5 - k)), Fits,
      hWidth]
    constructor <;> omega
  · have hBound := hBoxes.delay (by simp) (by simp) (6 + 1 + 8 * 1024) n
    rw [Nat.sub_self, pow_zero, one_mul]
    norm_num at hBound ⊢
    constructor <;> omega

/-! ### The registers -/

/-- A comb section that has seen the first `m` terms of `z`. -/
structure Comb.Holds {w : Nat} (s : Comb w) (z : Int⟦X⟧) (m : Nat) : Prop where
  diff : s.diff = BitVec.ofInt w (coeff m (X * z))
  pipeline : s.cicPipeline = BitVec.ofInt w (coeff m (X * (1 - X) * z))

theorem Comb.holds_init (w : Nat) (z : Int⟦X⟧) : (Comb.init w).Holds z 0 := by
  constructor <;> simp [Comb.init, mul_assoc]

theorem Comb.Holds.clock {v w : Nat} {s : Comb w} {z : Int⟦X⟧} (h : s.Holds z m) {sectionIn : BitVec v}
    (hIn : sectionIn.signExtend w = BitVec.ofInt w (coeff m z)) : (s.clock sectionIn).Holds z (m + 1) := by
  constructor
  · rw [coeff_succ_X_mul]
    exact hIn
  · have hStep : coeff (m + 1) (X * (1 - X) * z) = coeff m z - coeff m (X * z) := by
      rw [mul_assoc, coeff_succ_X_mul, sub_mul, one_mul, map_sub]
    rw [hStep, ofInt_sub, ← hIn, ← h.diff]
    exact setWidth_sub_signExtend _ _

theorem Comb.Holds.pipeline_low {w k : Nat} {s : Comb w} (h : s.Holds (low x k) m) :
    s.cicPipeline = BitVec.ofInt w (coeff m (low x (k + 1))) := by
  rw [h.pipeline, low_succ]

/-- What the registers behind `phase_0` hold when the first `m` samples have been taken. -/
structure LowRate (x : Nat → Int) (m : Nat) (s : Cic1024x) : Prop where
  input : s.inputRegister = BitVec.ofInt 18 (coeff m (low x 0))
  section1 : s.section1.Holds (low x 0) m
  section2 : s.section2.Holds (low x 1) m
  section3 : s.section3.Holds (low x 2) m
  section4 : s.section4.Holds (low x 3) m
  section5 : s.section5.Holds (low x 4) m
  section6 : s.section6.Holds (low x 5) m
  section7 : s.section7.Holds (low x 6) m

/-- What the registers behind `en_i` hold after `n` cycles. -/
structure HighRate (x : Nat → Int) (n : Nat) (s : Cic1024x) : Prop where
  out8 : s.sectionOut8 = BitVec.ofInt 24 (coeff n (high x 1))
  out9 : s.sectionOut9 = BitVec.ofInt 33 (coeff n (high x 2))
  out10 : s.sectionOut10 = BitVec.ofInt 42 (coeff n (high x 3))
  out11 : s.sectionOut11 = BitVec.ofInt 51 (coeff n (high x 4))
  out12 : s.sectionOut12 = BitVec.ofInt 60 (coeff n (high x 5))
  out13 : s.sectionOut13 = BitVec.ofInt 69 (coeff n (high x 6))
  out14 : s.sectionOut14 = BitVec.ofInt 78 (coeff n (high x 7))
  output : s.outputRegister = BitVec.ofInt 78 (coeff n (X * high x 7))

theorem lowRate_reset (x : Nat → Int) : LowRate x 0 .reset := by
  refine ⟨?_, Comb.holds_init .., Comb.holds_init .., Comb.holds_init .., Comb.holds_init .., Comb.holds_init ..,
    Comb.holds_init .., Comb.holds_init ..⟩
  simp [low, Cic1024x.reset]

theorem highRate_reset (x : Nat → Int) : HighRate x 0 .reset := by
  constructor <;> simp [high_succ, Cic1024x.reset]

variable {s : Cic1024x} {i : CicIn}

/-- A comb section behind another one: the number before it fits its register. -/
theorem Comb.Holds.next {v w k : Nat} {s : Comb v} {t : Comb w} (hx : ∀ j, Fits 18 (x j)) (hv : v = 18 + (k + 1))
    (hw : v ≤ w) (h : s.Holds (low x k) m) (hNext : t.Holds (low x (k + 1)) m) :
    (t.clock s.cicPipeline).Holds (low x (k + 1)) (m + 1) := by
  subst hv
  apply hNext.clock
  rw [h.pipeline_low, signExtend_ofInt_of_fits (low_fits hx (k + 1) m) hw]

theorem LowRate.step (hx : ∀ j, Fits 18 (x j)) (h : LowRate x m s) (hPhase : s.phase0 i = true)
    (hTaken : x m = i.x.toInt) : LowRate x (m + 1) (s.lowRate i) := by
  rw [Cic1024x.lowRate, if_pos hPhase]
  refine ⟨?_, h.section1.clock ?_, h.section1.next hx rfl (by decide) h.section2,
    h.section2.next hx rfl (by decide) h.section3, h.section3.next hx rfl (by decide) h.section4,
    h.section4.next hx rfl (by decide) h.section5, h.section5.next hx rfl (by decide) h.section6,
    h.section6.next hx rfl (by decide) h.section7⟩
  · simp [low, coeff_succ_X_mul, hTaken]
  · rw [h.input, signExtend_ofInt_of_fits (low_fits hx 0 m) (by decide)]

theorem integratorSum_eq {v w : Nat} {sectionIn : BitVec v} {sectionOut : BitVec w} {u : Int⟦X⟧}
    (hIn : sectionIn.signExtend w = BitVec.ofInt w (coeff n u))
    (hOut : sectionOut = BitVec.ofInt w (coeff n (accumulated u))) :
    integratorSum sectionIn sectionOut = BitVec.ofInt w (coeff (n + 1) (accumulated u)) := by
  rw [coeff_succ_accumulated, Int.add_comm, BitVec.ofInt_add, ← hIn, ← hOut]
  exact setWidth_add_signExtend _ _

/-- An integrator section behind another one: the number before it fits its register. -/
theorem integratorSum_high {k v w : Nat} {sectionIn : BitVec v} {sectionOut : BitVec w} (hx : ∀ j, Fits 18 (x j))
    (hk : k < 7) (hv : v = 24 + 9 * k) (hw : v ≤ w) (hIn : sectionIn = BitVec.ofInt v (coeff n (high x (k + 1))))
    (hOut : sectionOut = BitVec.ofInt w (coeff n (high x (k + 2)))) :
    integratorSum sectionIn sectionOut = BitVec.ofInt w (coeff (n + 1) (high x (k + 2))) := by
  subst hv
  rw [high_succ] at hOut ⊢
  refine integratorSum_eq ?_ hOut
  rw [hIn, signExtend_ofInt_of_fits (high_fits hx hk n) hw]

/-- The registers after `n` enabled cycles: one sample is taken in the first of every 1024. -/
structure Tracks (x : Nat → Int) (n : Nat) (s : Cic1024x) : Prop where
  count : s.curCount = BitVec.ofNat 10 n
  low : LowRate x ((n + 1023) / 1024) s
  high : HighRate x n s

theorem tracks_reset (x : Nat → Int) : Tracks x 0 .reset := ⟨rfl, lowRate_reset x, highRate_reset x⟩

theorem Tracks.phase0_iff (h : Tracks x n s) : s.phase0 i = true ↔ i.en = true ∧ n % 1024 = 0 := by
  have hZero : BitVec.ofNat 10 n = 0 ↔ n % 1024 = 0 := by
    rw [← BitVec.toNat_inj, BitVec.toNat_ofNat]
    rfl
  rw [Cic1024x.phase0, Bool.and_eq_true, beq_iff_eq, h.count, hZero, and_comm]

theorem Tracks.upsampling (h : Tracks x n s) (hEn : i.en = true) :
    s.upsampling i = BitVec.ofInt 24 (coeff n (Cic.high x 0)) := by
  rw [Cic1024x.upsampling, Cic.high, Function.iterate_zero_apply, coeff_expand]
  by_cases hPhase : n % 1024 = 0
  · rw [if_pos (h.phase0_iff.mpr ⟨hEn, hPhase⟩), if_pos (Nat.dvd_of_mod_eq_zero hPhase),
      h.low.section7.pipeline_low, show (n + 1023) / 1024 = n / 1024 by omega]
  · rw [if_neg fun hPhase0 => hPhase (h.phase0_iff.mp hPhase0).2, if_neg fun hDvd => hPhase (Nat.mod_eq_zero_of_dvd hDvd)]
    rfl

theorem Tracks.lowRate (hx : ∀ j, Fits 18 (x j)) (h : Tracks x n s) (hEn : i.en = true)
    (hTaken : n % 1024 = 0 → x (n / 1024) = i.x.toInt) : LowRate x ((n + 1 + 1023) / 1024) (s.lowRate i) := by
  by_cases hPhase : n % 1024 = 0
  · rw [show (n + 1 + 1023) / 1024 = (n + 1023) / 1024 + 1 by omega]
    refine h.low.step hx (h.phase0_iff.mpr ⟨hEn, hPhase⟩) ?_
    rw [show (n + 1023) / 1024 = n / 1024 by omega, hTaken hPhase]
  · rw [Cic1024x.lowRate, if_neg fun hPhase0 => hPhase (h.phase0_iff.mp hPhase0).2,
      show (n + 1 + 1023) / 1024 = (n + 1023) / 1024 by omega]
    exact h.low

theorem Tracks.step (hx : ∀ j, Fits 18 (x j)) (h : Tracks x n s) (hRst : i.rst = false) (hEn : i.en = true)
    (hTaken : n % 1024 = 0 → x (n / 1024) = i.x.toInt) : Tracks x (n + 1) (s.clock i) := by
  have hLow := h.lowRate hx hEn hTaken
  have hHigh := h.high
  rw [Cic1024x.clock, if_neg (by simp [hRst]), if_pos hEn]
  refine ⟨?_, ⟨hLow.input, hLow.section1, hLow.section2, hLow.section3, hLow.section4, hLow.section5, hLow.section6,
    hLow.section7⟩, ⟨?_, integratorSum_high hx (by decide) rfl (by decide) hHigh.out8 hHigh.out9,
    integratorSum_high hx (by decide) rfl (by decide) hHigh.out9 hHigh.out10,
    integratorSum_high hx (by decide) rfl (by decide) hHigh.out10 hHigh.out11,
    integratorSum_high hx (by decide) rfl (by decide) hHigh.out11 hHigh.out12,
    integratorSum_high hx (by decide) rfl (by decide) hHigh.out12 hHigh.out13,
    integratorSum_high hx (by decide) rfl (by decide) hHigh.out13 hHigh.out14, ?_⟩⟩
  · have hCount : (if s.curCount = 1023 then 0 else s.curCount + 1) = BitVec.ofNat 10 (n + 1) := by
      rw [BitVec.ofNat_add, ← h.count]
      split_ifs with hLast
      · rw [hLast]
        rfl
      · rfl
    exact hCount
  · rw [high_succ]
    refine integratorSum_eq ?_ (by rw [← high_succ]; exact hHigh.out8)
    rw [h.upsampling hEn, BitVec.signExtend_eq]
  · rw [coeff_succ_X_mul]
    exact hHigh.out14

theorem Tracks.output_toInt (hx : ∀ j, Fits 18 (x j)) (h : Tracks x n s) :
    s.yO.toInt = if n < 8200 then 0 else smoothed 1024 x 6 (n - 8200) := by
  have hFits : Fits 78 (coeff n (X * Cic.high x 7)) := by
    cases n with
    | zero =>
      rw [coeff_zero_X_mul]
      decide
    | succ n =>
      rw [coeff_succ_X_mul]
      exact high_fits hx (by decide : 6 < 7) n
  have hSeries : X * Cic.high x 7 = X ^ 8200 * (box 1024 ^ (6 + 1) * expand 1024 (by decide) (PowerSeries.mk x)) := by
    rw [high_eq x (by decide : 6 < 7)]
    ring
  rw [Cic1024x.yO, h.high.output, toInt_ofInt_of_fits hFits, hSeries, coeff_X_pow_mul']
  split_ifs with hLate hEarly hEarly
  · omega
  · rw [coeff_boxes_mul_expand]
    simp only [coeff_mk]
  · rfl
  · omega

/-! ### Runs -/

/-- The registers are those of any samples that begin with the ones taken. -/
def Exact (fed : List (BitVec 18)) (s : Cic1024x) : Prop :=
  ∀ x : Nat → Int, (∀ j, Fits 18 (x j)) → (∀ j, 1024 * j < fed.length → x j = samples fed j) → Tracks x fed.length s

theorem exact_reset : Exact [] .reset := fun x _ _ => tracks_reset x

theorem Exact.step {fed : List (BitVec 18)} (h : Exact fed s) (i : CicIn) : Exact (feed fed i s) (s.clock i) := by
  rw [feed]
  split_ifs with hRst hEn
  · rw [Cic1024x.clock, if_pos hRst]
    exact exact_reset
  · intro x hx hSame
    have hBefore : ∀ j, 1024 * j < fed.length → x j = samples fed j := by
      intro j hj
      rw [hSame j (by rw [List.length_append]; omega), samples, samples, List.getD_append _ _ _ _ hj]
    rw [List.length_append, List.length_singleton]
    refine (h x hx hBefore).step hx (by simpa using hRst) hEn fun hPhase => ?_
    have hIndex : 1024 * (fed.length / 1024) = fed.length := by omega
    rw [hSame _ (by rw [hIndex, List.length_append]; simp), samples, hIndex]
    simp
  · rw [Cic1024x.clock, if_neg hRst, if_neg hEn]
    exact h

theorem samples_fits (fed : List (BitVec 18)) (j : Nat) : Fits 18 (samples fed j) := fits_toInt _

theorem Exact.tracks {fed : List (BitVec 18)} (h : Exact fed s) : Tracks (samples fed) fed.length s :=
  h (samples fed) (samples_fits fed) fun _ _ => rfl

theorem exact_run (inputs : List CicIn) : Exact (run (watch Cic1024x.clock feed) inputs ([], .reset)).1
    (run (watch Cic1024x.clock feed) inputs ([], .reset)).2 :=
  run_keeps (fun p : List (BitVec 18) × Cic1024x => Exact p.1 p.2) (fun i _ h => h.step i) inputs exact_reset

theorem interpolator_exact (inputs : List CicIn) :
    (run (watch Cic1024x.clock feed) inputs ([], .reset)).2.yO.toInt =
      interpolated (run (watch Cic1024x.clock feed) inputs ([], .reset)).1 :=
  (exact_run inputs).tracks.output_toInt (samples_fits _)

end WrRfDemo.Cic

import WrRfDemo.Filters.Fir

/-! # What the filter computes

Each call finds the latest samples in their cells, and its passes go through them from the oldest to the newest.
-/

namespace WrRfDemo.Filters

open Memory

/-- The filter of a file, after the calls with the samples. -/
structure Tracks (numbers : List ℚ) (samples : List Int) (flt : FirFilter) : Prop where
  taps : flt.nTaps = numbers.length
  coefs : ∀ i < flt.nTaps, flt.coefs[i]? = numbers[i]?
  low : 0 ≤ flt.pos
  high : flt.pos < flt.nTaps
  recent : Recent samples flt.pos.toNat flt.delay

/-- One term of the convolution, of as many taps as there are numbers. -/
def product (numbers : List ℚ) (samples : List Int) (t i : Nat) : ℚ :=
  numbers.getD i 0 * sampleAt samples (t - numbers.length + 1 + i)

variable {numbers : List ℚ} {samples : List Int} {flt : FirFilter}

theorem product_append (samples more : List Int) {t i : Nat} (hi : i < numbers.length) (ht : t < samples.length) :
    product numbers (samples ++ more) t i = product numbers samples t i := by
  rw [product, product, sampleAt_append samples more (by omega)]

theorem Loaded.tracks (h : Loaded numbers flt) (hTaps : 1 ≤ flt.nTaps) : Tracks numbers [] flt where
  taps := h.taps
  coefs := h.coefs
  low := by rw [h.pos]
  high := by rw [h.pos]; omega
  recent := by
    rw [h.pos, h.delay]
    exact recent_start flt.nTaps

namespace FirFilter

theorem idx_eq_slot (flt : FirFilter) {pos i : Nat} (hPos : flt.pos = pos) (hi : i < flt.nTaps) (hHigh : pos < flt.nTaps) :
    flt.idx i = slot flt.nTaps (pos + 1) i := by
  rw [idx, slot, hPos]
  split_ifs <;> omega

theorem acc_of_terms {f : Nat → ℚ} {n : Nat} (hTerms : ∀ i < n, flt.term i = .ok (f i)) {k : Nat} (hk : k ≤ n) :
    flt.acc k = .ok (∑ i ∈ Finset.range k, f i) := by
  induction k with
  | zero => rfl
  | succ i ih =>
    rw [acc, ih (Nat.le_of_succ_le hk), Finset.sum_range_succ]
    change (flt.term i >>= fun term => _) = _
    rw [hTerms i hk]
    rfl

end FirFilter

structure Kept (numbers : List ℚ) (samples : List Int) (x : Int) (kept : FirFilter) : Prop where
  terms : ∀ i < kept.nTaps, kept.term i = .ok (product numbers (samples ++ [x]) samples.length i)
  next : Tracks numbers (samples ++ [x]) kept.advance

theorem Tracks.coef (h : Tracks numbers samples flt) {i : Nat} (hi : i < flt.nTaps) : flt.coefs[i] = numbers.getD i 0 := by
  rw [List.getD_eq_getElem?_getD, ← h.coefs i hi, Vector.getElem?_eq_getElem hi]
  rfl

theorem Tracks.advance {pos : Nat} (h : Tracks numbers samples flt) (x : Int) (hPos : flt.pos = pos) (hHigh : pos < flt.nTaps)
    (hPut : Recent (samples ++ [x]) (pos + 1) (flt.delay.set pos x)) :
    Tracks numbers (samples ++ [x]) (FirFilter.advance { flt with delay := flt.delay.set pos x }) := by
  refine ⟨h.taps, h.coefs, ?_, ?_, ?_⟩
  · dsimp only [FirFilter.advance]
    split_ifs <;> omega
  · dsimp only [FirFilter.advance]
    split_ifs <;> omega
  · dsimp only [FirFilter.advance]
    split_ifs with hLast
    · have hEnd : pos + 1 = flt.nTaps := by omega
      rw [hEnd] at hPut
      exact hPut.wrap
    · rw [hPos]
      exact hPut

theorem Tracks.keep (h : Tracks numbers samples flt) (x : Int) :
    ∃ kept, flt.keep x = .ok kept ∧ kept.nTaps = flt.nTaps ∧ Kept numbers samples x kept := by
  obtain ⟨pos, hPos⟩ := Int.eq_ofNat_of_zero_le h.low
  have hHigh : pos < flt.nTaps := by
    have hHigh := h.high
    omega
  have hRecent := h.recent
  rw [hPos, Int.toNat_natCast] at hRecent
  have hPut := hRecent.put hHigh x
  refine ⟨{ flt with delay := flt.delay.set pos x }, ?_, rfl, ?_, h.advance x hPos hHigh hPut⟩
  · rw [FirFilter.keep, hPos, save_ofNat _ _ _ hHigh]
    rfl
  · intro i hi
    have hIdx := FirFilter.idx_eq_slot { flt with delay := flt.delay.set pos x } hPos hi hHigh
    have hSlot := slot_lt (n := flt.nTaps) hHigh hi
    have hSample := hPut.walk hHigh hi
    have hTime : ((samples ++ [x]).length : Int) - flt.nTaps + i = samples.length - numbers.length + 1 + i := by
      rw [List.length_append, List.length_singleton, h.taps]
      omega
    rw [FirFilter.term, hIdx, load_ofNat _ _ hi, load_ofNat _ _ hSlot, product, ← hTime, ← hSample, ← h.coef hi]
    rfl

theorem Tracks.firProcess (h : Tracks numbers samples flt) (x : Int) :
    ∃ kept, flt.keep x = .ok kept ∧ kept.nTaps = flt.nTaps ∧ Kept numbers samples x kept ∧
      flt.firProcess x =
        .ok (FirFilter.truncate (∑ i ∈ Finset.range flt.nTaps, product numbers (samples ++ [x]) samples.length i), kept.advance) := by
  obtain ⟨kept, hKeep, hSize, hKept⟩ := h.keep x
  refine ⟨kept, hKeep, hSize, hKept, ?_⟩
  rw [FirFilter.firProcess, hKeep]
  change (kept.acc kept.nTaps >>= fun acc => _) = _
  rw [FirFilter.acc_of_terms hKept.terms (Nat.le_refl _), hSize]
  rfl

theorem Tracks.calls (h : Tracks numbers samples flt) (more : List Int) :
    ∃ reached, flt.calls more = .ok reached ∧ Tracks numbers (samples ++ more) reached := by
  induction more generalizing samples flt with
  | nil =>
    rw [List.append_nil]
    exact ⟨flt, rfl, h⟩
  | cons x rest ih =>
    obtain ⟨kept, -, -, hKept, hCall⟩ := h.firProcess x
    obtain ⟨reached, hRest, hReached⟩ := ih hKept.next
    rw [List.append_assoc] at hReached
    refine ⟨reached, ?_, hReached⟩
    rw [FirFilter.calls, hCall]
    exact hRest

theorem loaded_of_firLoad {stack : Vector ℚ 1024} (hLoad : firLoad stack (some numbers) = .ok (some flt)) :
    Loaded numbers flt := by
  by_cases hFits : numbers.length ≤ 1024
  · obtain ⟨made, hMade, hLoaded⟩ := firLoad_fits stack numbers hFits
    rw [hLoad] at hMade
    cases hMade
    exact hLoaded
  · rw [firLoad_over stack numbers (Nat.not_le.mp hFits)] at hLoad
    cases hLoad

/-- Each call of a filter with taps adds up the products of its coefficients and the latest samples, the oldest first,
and leaves the position on the ring. -/
theorem firProcess_convolves {stack : Vector ℚ 1024} {numbers : List ℚ} {flt : FirFilter}
    (hLoad : firLoad stack (some numbers) = .ok (some flt)) (hTaps : 1 ≤ flt.nTaps) (before : List Int) (x : Int)
    (after : List Int) :
    ∃ reached kept, flt.calls before = .ok reached ∧ reached.keep x = .ok kept ∧ flt.nTaps = numbers.length ∧
      (∀ i < flt.nTaps, flt.coefs[i]? = numbers[i]? ∧
        kept.term i = .ok (product numbers (before ++ x :: after) before.length i)) ∧
      (∀ k ≤ flt.nTaps, kept.acc k = .ok (∑ i ∈ Finset.range k, product numbers (before ++ x :: after) before.length i)) ∧
      reached.firProcess x = .ok (FirFilter.truncate
        (∑ i ∈ Finset.range flt.nTaps, product numbers (before ++ x :: after) before.length i), kept.advance) ∧
      (0 ≤ reached.pos ∧ reached.pos < flt.nTaps) ∧ 0 ≤ kept.advance.pos ∧ kept.advance.pos < flt.nTaps := by
  have hLoaded := loaded_of_firLoad hLoad
  obtain ⟨reached, hReached, hTracks⟩ := (hLoaded.tracks hTaps).calls before
  rw [List.nil_append] at hTracks
  obtain ⟨kept, hKeep, hSize, hKept, hCall⟩ := hTracks.firProcess x
  have hSame : reached.nTaps = flt.nTaps := hTracks.taps.trans hLoaded.taps.symm
  have hProduct : ∀ i < flt.nTaps, product numbers (before ++ [x]) before.length i =
      product numbers (before ++ x :: after) before.length i := by
    intro i hi
    rw [← product_append (before ++ [x]) after (by rw [← hLoaded.taps]; exact hi) (by simp), List.append_assoc,
      List.singleton_append]
  have hTerms : ∀ i < flt.nTaps, kept.term i = .ok (product numbers (before ++ x :: after) before.length i) := by
    intro i hi
    rw [← hProduct i hi]
    exact hKept.terms i (by omega)
  have hSum : ∑ i ∈ Finset.range flt.nTaps, product numbers (before ++ [x]) before.length i =
      ∑ i ∈ Finset.range flt.nTaps, product numbers (before ++ x :: after) before.length i :=
    Finset.sum_congr rfl fun i hi => hProduct i (Finset.mem_range.mp hi)
  have hHigh := hTracks.high
  have hNext := hKept.next.high
  rw [hSame, hSum] at hCall
  rw [hSame] at hHigh
  change kept.advance.pos < kept.nTaps at hNext
  rw [hSize, hSame] at hNext
  exact ⟨reached, kept, hReached, hKeep, hLoaded.taps, fun i hi => ⟨hLoaded.coefs i hi, hTerms i hi⟩,
    fun k hk => FirFilter.acc_of_terms hTerms hk, hCall, ⟨hTracks.low, hHigh⟩, hKept.next.low, hNext⟩

theorem firProcess_convolves_two :
    ∃ flt reached kept, firLoad (Vector.replicate 1024 0) (some [2, 3]) = .ok (some flt) ∧ flt.calls [10, 20] = .ok reached ∧
      reached.keep 30 = .ok kept ∧ kept.acc 2 = .ok (2 * 20 + 3 * 30) := by
  obtain ⟨flt, hLoad, hLoaded⟩ := firLoad_fits (Vector.replicate 1024 0) [2, 3] (by decide)
  have hTaps : flt.nTaps = 2 := hLoaded.taps
  obtain ⟨reached, kept, hReached, hKeep, -, -, hAcc, -⟩ := firProcess_convolves hLoad (by omega) [10, 20] 30 [40]
  refine ⟨flt, reached, kept, hLoad, hReached, hKeep, ?_⟩
  rw [hAcc 2 (by omega)]
  simp [Finset.sum_range_succ, product, sampleAt]

end WrRfDemo.Filters

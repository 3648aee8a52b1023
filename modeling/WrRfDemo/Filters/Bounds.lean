import WrRfDemo.Filters.Convolution

/-! # The indices of the filter

A file with more numbers than there is room for is written one place behind the buffer before the bound is checked, and a
file without numbers makes a filter whose ring has no cell for the first sample.
-/

namespace WrRfDemo.Filters

open Memory

variable {numbers : List ℚ} {flt : FirFilter}

theorem Loaded.no_cell (h : Loaded [] flt) (x : Int) : flt.firProcess x = .error ⟨.delay, 0, 0⟩ := by
  obtain ⟨nTaps, pos, delay, coefs⟩ := flt
  have hTaps : nTaps = 0 := h.taps
  have hPos : pos = 0 := h.pos
  subst hTaps hPos
  rfl

/-- Loading and all later calls stay inside the arrays exactly for at most 1024 numbers, and at least one where the filter
is called. -/
theorem inside_iff (stack : Vector ℚ 1024) (numbers : List ℚ) (samples : List Int) :
    (∃ flt reached, firLoad stack (some numbers) = .ok (some flt) ∧ flt.calls samples = .ok reached) ↔
      numbers.length ≤ 1024 ∧ (numbers ≠ [] ∨ samples = []) := by
  constructor
  · rintro ⟨flt, reached, hLoad, hCalls⟩
    refine ⟨?_, ?_⟩
    · by_contra hOver
      rw [firLoad_over stack numbers (Nat.not_le.mp hOver)] at hLoad
      cases hLoad
    · by_contra hNone
      obtain ⟨hEmpty, hSome⟩ := not_or.mp hNone
      rw [not_not] at hEmpty
      subst hEmpty
      obtain ⟨x, rest, rfl⟩ := List.exists_cons_of_ne_nil hSome
      rw [FirFilter.calls, (loaded_of_firLoad hLoad).no_cell x] at hCalls
      cases hCalls
  · rintro ⟨hFits, hUsed⟩
    obtain ⟨flt, hLoad, hLoaded⟩ := firLoad_fits stack numbers hFits
    rcases hUsed with hSome | rfl
    · have hTaps : 1 ≤ flt.nTaps := by
        rw [hLoaded.taps]
        exact List.length_pos_iff.mpr hSome
      obtain ⟨reached, hCalls, -⟩ := (hLoaded.tracks hTaps).calls samples
      exact ⟨flt, reached, hLoad, hCalls⟩
    · exact ⟨flt, flt, hLoad, rfl⟩

/-- A file of 1025 numbers, and an empty file whose filter is called. -/
theorem outside :
    firLoad (Vector.replicate 1024 0) (some (List.replicate 1025 1)) = .error ⟨.coeffs, 1024, 1024⟩ ∧
      (∃ flt, firLoad (Vector.replicate 1024 0) (some []) = .ok (some flt) ∧ flt.firProcess 5 = .error ⟨.delay, 0, 0⟩) ∧
      ¬ ∀ (stack : Vector ℚ 1024) (numbers : List ℚ) (samples : List Int),
        ∃ flt reached, firLoad stack (some numbers) = .ok (some flt) ∧ flt.calls samples = .ok reached := by
  have hOver : firLoad (Vector.replicate 1024 0) (some (List.replicate 1025 1)) = .error ⟨.coeffs, 1024, 1024⟩ :=
    firLoad_over _ _ (by rw [List.length_replicate]; decide)
  obtain ⟨flt, hLoad, hLoaded⟩ := firLoad_fits (Vector.replicate 1024 0) [] (by decide)
  refine ⟨hOver, ⟨flt, hLoad, hLoaded.no_cell 5⟩, ?_⟩
  intro hAlways
  obtain ⟨flt, reached, hSome, -⟩ := hAlways (Vector.replicate 1024 0) (List.replicate 1025 1) []
  rw [hOver] at hSome
  cases hSome

end WrRfDemo.Filters

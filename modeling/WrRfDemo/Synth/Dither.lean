import WrRfDemo.Clocked.Galois
import WrRfDemo.Synth.QuadChannel

/-! # The dither registers

The taps keep a register that is not zero from becoming zero, and from standing still. The seeds are the multiples of
one number, and the first of them is zero.
-/

namespace WrRfDemo.Synth

open Clocked

theorem Stage.lfsrNext_eq (s : Stage) : s.lfsrNext = galoisNext ditherTaps s.lfsr := rfl

theorem msb_ditherTaps : ditherTaps.msb = true := rfl

/-- The one word whose differences are the taps is even. -/
theorem galoisNext_ditherTaps_ne {x : BitVec 32} (hx : x ≠ 0) : galoisNext ditherTaps x ≠ x := by
  intro hFixed
  rcases galoisNext_eq_self hFixed with hShift | ⟨hOdd, hTaps⟩
  · exact hx (eq_zero_of_shift_eq_self hShift)
  · have hWord : (fun x : BitVec 32 => x ^^^ x >>> 1) 0x9ffffffe = ditherTaps := by decide
    rw [xor_shift_injective (hTaps.trans hWord.symm)] at hOdd
    exact absurd hOdd (by decide)

namespace QuadChannel

theorem seed_ne_zero : ∀ {k : Fin 4}, k ≠ 0 → seed k ≠ 0 := by
  decide

variable {r i : QuadIn} {s : QuadChannel} {k : Fin 4}

theorem lfsr_clock (i : QuadIn) (s : QuadChannel) (k : Fin 4) :
    ((s.clock i).stages.get k).lfsr =
      if !i.rstN then seed k else if i.dreq then (s.stages.get k).lfsrNext else (s.stages.get k).lfsr := by
  simp only [clock, Stage.clock, Stage.advance, seed, Quad.get_ofFn]
  split_ifs <;> rfl

theorem lfsr_ne_zero_clock (hk : k ≠ 0) (h : (s.stages.get k).lfsr ≠ 0) : ((s.clock i).stages.get k).lfsr ≠ 0 := by
  rw [lfsr_clock]
  split_ifs
  · exact seed_ne_zero hk
  · exact galoisNext_ne_zero msb_ditherTaps h
  · exact h

theorem lfsr_zero_clock (h : (s.stages.get 0).lfsr = 0) : ((s.clock i).stages.get 0).lfsr = 0 := by
  rw [lfsr_clock]
  split_ifs
  · rfl
  · rw [Stage.lfsrNext_eq, h, galoisNext_zero]
  · exact h

/-- A register keeps clear of zero, and changes with every sample, in every instance but the first. -/
theorem dithers_iff (hReset : r.rstN = false) (s : QuadChannel) (inputs : List QuadIn) (k : Fin 4) :
    let stage := (run clock inputs (s.clock r)).stages.get k
    stage.lfsr ≠ 0 ∧ stage.lfsrNext ≠ stage.lfsr ↔ k ≠ 0 := by
  intro stage
  have hSeed : ((s.clock r).stages.get k).lfsr = seed k := by
    rw [lfsr_clock, hReset]
    rfl
  constructor
  · rintro ⟨hRuns, -⟩ rfl
    exact hRuns (run_keeps (fun s : QuadChannel => (s.stages.get 0).lfsr = 0) (fun _ _ h => lfsr_zero_clock h) inputs hSeed)
  · intro hk
    have hFirst : ((s.clock r).stages.get k).lfsr ≠ 0 := by
      rw [hSeed]
      exact seed_ne_zero hk
    have hRuns : stage.lfsr ≠ 0 :=
      run_keeps (fun s : QuadChannel => (s.stages.get k).lfsr ≠ 0) (fun _ _ h => lfsr_ne_zero_clock hk h) inputs hFirst
    exact ⟨hRuns, galoisNext_ditherTaps_ne hRuns⟩

theorem dithers_second :
    let stage : Stage := ⟨0, 0, 0, 0, 0, 0, 0, 0, 0, 0, 0, 0, 0, 0⟩
    let s : QuadChannel := ⟨0, 0, 0, ⟨0, 0, 0, 0⟩, 0, ⟨stage, stage, stage, stage⟩, ⟨0, 0, 0, 0⟩⟩
    let next := (run clock (List.replicate 100 ⟨true, false, false, true, 0, 0⟩)
      (s.clock ⟨false, false, false, false, 0, 0⟩)).stages.get 1
    next.lfsr ≠ 0 ∧ next.lfsrNext ≠ next.lfsr :=
  (dithers_iff rfl _ _ 1).mpr (by decide)

/-- The seed of the first instance is zero, and its register stays there. -/
theorem dither_locked :
    let stage : Stage := ⟨1, 0, 0, 0, 0, 0, 0, 0, 0, 0, 0, 0, 0, 0⟩
    let s : QuadChannel := ⟨0, 0, 0, ⟨0, 0, 0, 0⟩, 0, ⟨stage, stage, stage, stage⟩, ⟨0, 0, 0, 0⟩⟩
    let reset : QuadIn := ⟨false, false, false, false, 0, 0⟩
    ((s.clock reset).stages.get 0).lfsr = 0 ∧
      ((run clock (List.replicate 5 ⟨true, false, false, true, 0, 0⟩) (s.clock reset)).stages.get 0).lfsr = 0 ∧
      ¬ ∀ (s : QuadChannel) (r : QuadIn) (inputs : List QuadIn) (k : Fin 4), r.rstN = false →
        ((run clock inputs (s.clock r)).stages.get k).lfsr ≠ 0 := by
  intro stage s reset
  have hSeed : ((s.clock reset).stages.get 0).lfsr = 0 := by decide
  refine ⟨hSeed, by decide, ?_⟩
  intro hAlways
  exact hAlways s reset [] 0 rfl hSeed

end QuadChannel

end WrRfDemo.Synth

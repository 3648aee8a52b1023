import WrRfDemo.Clocked.Run

/-! # Two machines side by side

Runs of two machines that take their steps together, for statements that compare the two.
-/

namespace WrRfDemo.Clocked

variable {ι κ σ τ : Type*}

def beside (first : ι → σ → σ) (second : κ → τ → τ) (i : ι × κ) (s : σ × τ) : σ × τ := (first i.1 s.1, second i.2 s.2)

theorem run_beside (first : ι → σ → σ) (second : κ → τ → τ) (inputs : List (ι × κ)) (s : σ × τ) :
    run (beside first second) inputs s = (run first (inputs.map Prod.fst) s.1, run second (inputs.map Prod.snd) s.2) := by
  induction inputs generalizing s with
  | nil => rfl
  | cons i rest ih => exact ih (beside first second i s)

theorem run_beside_zip (first : ι → σ → σ) (second : κ → τ → τ) {as : List ι} {bs : List κ} (hLength : as.length = bs.length)
    (s : σ × τ) : run (beside first second) (as.zip bs) s = (run first as s.1, run second bs s.2) := by
  rw [run_beside, List.map_fst_zip (Nat.le_of_eq hLength), List.map_snd_zip (Nat.le_of_eq hLength.symm)]

/-- A condition that holds at all pairs of places with as much before them. -/
theorem along_beside_zip {first : ι → σ → σ} {second : κ → τ → τ} {ok : ι × κ → σ × τ → Prop} {as : List ι} {bs : List κ}
    {s : σ} {t : τ} (h : ∀ before i after before' j after', as = before ++ i :: after → bs = before' ++ j :: after' →
      before.length = before'.length → ok (i, j) (run first before s, run second before' t)) :
    Along (beside first second) ok (as.zip bs) (s, t) := by
  induction as generalizing bs s t with
  | nil => trivial
  | cons i rest ih =>
    cases bs with
    | nil => trivial
    | cons j others =>
      refine ⟨h [] i rest [] j others rfl rfl rfl, ih ?_⟩
      rintro before i' after before' j' after' rfl rfl hLength
      exact h (i :: before) i' after (j :: before') j' after' rfl rfl (congrArg Nat.succ hLength)

theorem along_of_places {step : ι → σ → σ} {ok : ι → σ → Prop} {inputs : List ι} {s : σ}
    (h : ∀ before i after, inputs = before ++ i :: after → ok i (run step before s)) : Along step ok inputs s := by
  induction inputs generalizing s with
  | nil => trivial
  | cons i rest ih =>
    refine ⟨h [] i rest rfl, ih ?_⟩
    rintro before j after rfl
    exact h (i :: before) j after rfl

end WrRfDemo.Clocked

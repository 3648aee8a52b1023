import Mathlib.Data.List.Infix

/-! # Runs of a synchronous machine

A clocked design is a step function on states: one step is one rising edge, taken
with the inputs of that cycle. The rules below carry an invariant along a run whose
every step meets a stated condition, and bound a run by a measure that its steps decrease.
-/

namespace WrRfDemo.Clocked

variable {ι σ ω : Type*}

def run (step : ι → σ → σ) : List ι → σ → σ
  | [], s => s
  | i :: rest, s => run step rest (step i s)

@[simp] theorem run_nil (step : ι → σ → σ) (s : σ) : run step [] s = s := rfl

@[simp] theorem run_cons (step : ι → σ → σ) (i : ι) (rest : List ι) (s : σ) :
    run step (i :: rest) s = run step rest (step i s) := rfl

theorem run_append (step : ι → σ → σ) (before after : List ι) (s : σ) :
    run step (before ++ after) s = run step after (run step before s) := by
  induction before generalizing s with
  | nil => rfl
  | cons i rest ih => exact ih (step i s)

/-- Every step of the run is taken from an input and a state that `ok` admits. -/
def Along (step : ι → σ → σ) (ok : ι → σ → Prop) : List ι → σ → Prop
  | [], _ => True
  | i :: rest, s => ok i s ∧ Along step ok rest (step i s)

instance decidableAlong (step : ι → σ → σ) (ok : ι → σ → Prop) [∀ i s, Decidable (ok i s)] :
    ∀ inputs s, Decidable (Along step ok inputs s)
  | [], _ => isTrue trivial
  | i :: rest, s =>
    have := decidableAlong step ok rest (step i s)
    inferInstanceAs (Decidable (ok i s ∧ Along step ok rest (step i s)))

theorem Along.mono {step : ι → σ → σ} {ok weaker : ι → σ → Prop}
    (hWeaker : ∀ i s, ok i s → weaker i s) {inputs : List ι} {s : σ}
    (h : Along step ok inputs s) : Along step weaker inputs s := by
  induction inputs generalizing s with
  | nil => trivial
  | cons i rest ih => exact ⟨hWeaker i s h.1, ih h.2⟩

/-- Two conditions that agree while either has held so far hold along the same runs. -/
theorem along_congr {step : ι → σ → σ} {ok other : ι → σ → Prop} {Inv : σ → Prop}
    (hSame : ∀ i s, Inv s → (ok i s ↔ other i s)) (hStep : ∀ i s, Inv s → ok i s → Inv (step i s)) (inputs : List ι)
    {s : σ} (hInit : Inv s) : Along step ok inputs s ↔ Along step other inputs s := by
  induction inputs generalizing s with
  | nil => exact Iff.rfl
  | cons i rest ih =>
    constructor
    · rintro ⟨hOk, hRest⟩
      exact ⟨(hSame i s hInit).mp hOk, (ih (hStep i s hInit hOk)).mp hRest⟩
    · rintro ⟨hOther, hRest⟩
      have hOk := (hSame i s hInit).mpr hOther
      exact ⟨hOk, (ih (hStep i s hInit hOk)).mpr hRest⟩

theorem Along.and {step : ι → σ → σ} {ok more : ι → σ → Prop} {inputs : List ι} {s : σ} (h : Along step ok inputs s)
    (hMore : Along step more inputs s) : Along step (fun i s => ok i s ∧ more i s) inputs s := by
  induction inputs generalizing s with
  | nil => trivial
  | cons i rest ih => exact ⟨⟨h.1, hMore.1⟩, ih h.2 hMore.2⟩

theorem along_of_forall {step : ι → σ → σ} {ok : ι → σ → Prop} {inputs : List ι}
    (h : ∀ i ∈ inputs, ∀ s, ok i s) (s : σ) : Along step ok inputs s := by
  induction inputs generalizing s with
  | nil => trivial
  | cons i rest ih =>
    exact ⟨h i List.mem_cons_self s, ih (fun j hj => h j (List.mem_cons_of_mem i hj)) _⟩

theorem along_append {step : ι → σ → σ} {ok : ι → σ → Prop} {before after : List ι} {s : σ} :
    Along step ok (before ++ after) s ↔ Along step ok before s ∧ Along step ok after (run step before s) := by
  induction before generalizing s with
  | nil => exact ⟨fun h => ⟨trivial, h⟩, And.right⟩
  | cons i rest ih =>
    constructor
    · rintro ⟨hFirst, hRest⟩
      obtain ⟨hBefore, hAfter⟩ := ih.mp hRest
      exact ⟨⟨hFirst, hBefore⟩, hAfter⟩
    · rintro ⟨⟨hFirst, hBefore⟩, hAfter⟩
      exact ⟨hFirst, ih.mpr ⟨hBefore, hAfter⟩⟩

/-- What each step can only spoil holds all along a run that keeps it to the end. -/
theorem along_of_last {step : ι → σ → σ} {Good : σ → Prop} (hBack : ∀ i s, Good (step i s) → Good s) (inputs : List ι)
    {s : σ} (hLast : Good (run step inputs s)) : Along step (fun i s => Good (step i s)) inputs s ∧ Good s := by
  induction inputs generalizing s with
  | nil => exact ⟨trivial, hLast⟩
  | cons i rest ih =>
    obtain ⟨hRest, hNext⟩ := ih hLast
    exact ⟨⟨hNext, hRest⟩, hBack i s hNext⟩

theorem run_invariant {step : ι → σ → σ} {ok : ι → σ → Prop} {Inv : σ → Prop}
    (hStep : ∀ i s, Inv s → ok i s → Inv (step i s)) (inputs : List ι) {s : σ}
    (hInit : Inv s) (hAlong : Along step ok inputs s) : Inv (run step inputs s) := by
  induction inputs generalizing s with
  | nil => exact hInit
  | cons i rest ih => exact ih (hStep i s hInit hAlong.1) hAlong.2

theorem run_counted {step : ι → σ → σ} {ok : ι → σ → Prop} {Inv : Nat → σ → Prop}
    (hStep : ∀ n i s, Inv n s → ok i s → Inv (n + 1) (step i s)) (inputs : List ι) {n : Nat} {s : σ}
    (hInit : Inv n s) (hAlong : Along step ok inputs s) : Inv (n + inputs.length) (run step inputs s) := by
  induction inputs generalizing n s with
  | nil => exact hInit
  | cons i rest ih =>
    have hRest := ih (hStep n i s hInit hAlong.1) hAlong.2
    rwa [Nat.succ_add_eq_add_succ] at hRest

/-- A phase of a run: its steps are admitted, and it ends where `Good` holds. -/
structure Passes (step : ι → σ → σ) (ok : ι → σ → Prop) (inputs : List ι) (s : σ) (Good : σ → Prop) : Prop where
  along : Along step ok inputs s
  ends : Good (run step inputs s)

theorem Passes.mono {step : ι → σ → σ} {ok : ι → σ → Prop} {inputs : List ι} {s : σ} {Good Better : σ → Prop}
    (h : Passes step ok inputs s Good) (hGood : ∀ t, Good t → Better t) : Passes step ok inputs s Better :=
  ⟨h.along, hGood _ h.ends⟩

theorem Passes.append {step : ι → σ → σ} {ok : ι → σ → Prop} {before after : List ι} {s : σ} {Mid Good : σ → Prop}
    (h : Passes step ok before s Mid) (hAfter : ∀ t, Mid t → Passes step ok after t Good) :
    Passes step ok (before ++ after) s Good := by
  have hRest := hAfter _ h.ends
  refine ⟨along_append.mpr ⟨h.along, hRest.along⟩, ?_⟩
  rw [run_append]
  exact hRest.ends

/-- A phase of one input over and over, told by its cycles. -/
theorem passes_replicate {step : ι → σ → σ} {ok : ι → σ → Prop} (Inv : Nat → σ → Prop) {i : ι} {n : Nat}
    (hStep : ∀ k < n, ∀ s, Inv k s → ok i s ∧ Inv (k + 1) (step i s)) {s : σ} (hInit : Inv 0 s) :
    Passes step ok (List.replicate n i) s (Inv n) := by
  induction n with
  | zero => exact ⟨trivial, hInit⟩
  | succ n ih =>
    rw [List.replicate_succ']
    refine (ih fun k hk => hStep k (Nat.lt_succ_of_lt hk)).append ?_
    rintro t hInv
    obtain ⟨hOk, hNext⟩ := hStep n (Nat.lt_succ_self n) t hInv
    exact ⟨⟨hOk, trivial⟩, hNext⟩

theorem run_keeps {step : ι → σ → σ} (Inv : σ → Prop) (hStep : ∀ i s, Inv s → Inv (step i s)) (inputs : List ι) {s : σ}
    (hInit : Inv s) : Inv (run step inputs s) := by
  induction inputs generalizing s with
  | nil => exact hInit
  | cons i rest ih => exact ih (hStep i s hInit)

/-- A counter that every step moves by one. -/
theorem run_ticks {step : ι → σ → σ} (now : σ → Nat) (hStep : ∀ i s, now (step i s) = now s + 1) (inputs : List ι) (s : σ) :
    now (run step inputs s) = now s + inputs.length := by
  induction inputs generalizing s with
  | nil => rfl
  | cons i rest ih =>
    rw [run_cons, ih, hStep, List.length_cons, Nat.add_assoc, Nat.add_comm 1]

/-- Where a step that is not admitted spoils the state, good states throughout and admitted steps throughout
are the same. -/
theorem always_iff_along {step : ι → σ → σ} {ok : ι → σ → Prop} {Inv Good : σ → Prop} (hGood : ∀ s, Inv s → Good s)
    (hStep : ∀ i s, Inv s → ok i s → Inv (step i s)) (hBreak : ∀ i s, Inv s → Good (step i s) → ok i s)
    (inputs : List ι) {s : σ} (hInit : Inv s) :
    (∀ before after, inputs = before ++ after → Good (run step before s)) ↔ Along step ok inputs s := by
  constructor
  · intro hAlways
    induction inputs generalizing s with
    | nil => trivial
    | cons i rest ih =>
      have hOk := hBreak i s hInit (hAlways [i] rest rfl)
      exact ⟨hOk, ih (hStep i s hInit hOk) fun before after hSplit => hAlways (i :: before) after (by rw [hSplit]; rfl)⟩
  · rintro hAlong before after rfl
    exact hGood _ (run_invariant hStep before hInit (along_append.mp hAlong).1)

/-! ### Watched runs

An observer reads the inputs and the state of each cycle and changes nothing. -/

def watch (step : ι → σ → σ) (see : ω → ι → σ → ω) (i : ι) (p : ω × σ) : ω × σ :=
  (see p.1 i p.2, step i p.2)

@[simp] theorem watch_fst (step : ι → σ → σ) (see : ω → ι → σ → ω) (i : ι) (p : ω × σ) :
    (watch step see i p).1 = see p.1 i p.2 := rfl

@[simp] theorem watch_snd (step : ι → σ → σ) (see : ω → ι → σ → ω) (i : ι) (p : ω × σ) :
    (watch step see i p).2 = step i p.2 := rfl

theorem run_watch_snd (step : ι → σ → σ) (see : ω → ι → σ → ω) (inputs : List ι) (p : ω × σ) :
    (run (watch step see) inputs p).2 = run step inputs p.2 := by
  induction inputs generalizing p with
  | nil => rfl
  | cons i rest ih => exact ih (watch step see i p)

theorem along_watch {step : ι → σ → σ} {see : ω → ι → σ → ω} {ok : ι → σ → Prop} {inputs : List ι} {s : σ}
    (h : Along step ok inputs s) (o : ω) : Along (watch step see) (fun i p => ok i p.2) inputs (o, s) := by
  induction inputs generalizing o s with
  | nil => trivial
  | cons i rest ih => exact ⟨h.1, ih h.2 _⟩

theorem watch_invariant {step : ι → σ → σ} {see : ω → ι → σ → ω} {ok : ι → σ → Prop}
    {Inv : ω → σ → Prop} (hStep : ∀ o i s, Inv o s → ok i s → Inv (see o i s) (step i s))
    (inputs : List ι) {o : ω} {s : σ} (hInit : Inv o s) (hAlong : Along step ok inputs s) :
    Inv (run (watch step see) inputs (o, s)).1 (run (watch step see) inputs (o, s)).2 := by
  induction inputs generalizing o s with
  | nil => exact hInit
  | cons i rest ih => exact ih (hStep o i s hInit hAlong.1) hAlong.2

theorem watched_invariant {step : ι → σ → σ} {see : ω → ι → σ → ω} {ok : ι → ω × σ → Prop} {Inv : ω → σ → Prop}
    (hStep : ∀ o i s, Inv o s → ok i (o, s) → Inv (see o i s) (step i s)) (inputs : List ι) {o : ω} {s : σ}
    (hInit : Inv o s) (hAlong : Along (watch step see) ok inputs (o, s)) :
    Inv (run (watch step see) inputs (o, s)).1 (run (watch step see) inputs (o, s)).2 := by
  induction inputs generalizing o s with
  | nil => exact hInit
  | cons i rest ih => exact ih (hStep o i s hInit hAlong.1) hAlong.2

/-! ### Bounded progress -/

/-- A measure that every step short of the goal decreases bounds the steps to the goal. -/
theorem reaches_of_decreasing {step : ι → σ → σ} {ok : ι → Prop} {Inv Goal : σ → Prop} (measure : σ → Nat)
    (hZero : ∀ s, Inv s → measure s = 0 → Goal s)
    (hStep : ∀ i s, ok i → Inv s → ¬Goal s → Inv (step i s) ∧ measure (step i s) < measure s)
    (inputs : List ι) (hOk : ∀ i ∈ inputs, ok i) {s : σ} (hInv : Inv s) (hEnough : measure s ≤ inputs.length) :
    ∃ before after, inputs = before ++ after ∧ Goal (run step before s) := by
  induction inputs generalizing s with
  | nil => exact ⟨[], [], rfl, hZero s hInv (Nat.le_zero.mp hEnough)⟩
  | cons i rest ih =>
    by_cases hGoal : Goal s
    · exact ⟨[], i :: rest, rfl, hGoal⟩
    · obtain ⟨hNext, hLess⟩ := hStep i s (hOk i List.mem_cons_self) hInv hGoal
      rw [List.length_cons] at hEnough
      obtain ⟨before, after, rfl, hDone⟩ := ih (fun j hj => hOk j (List.mem_cons_of_mem i hj)) hNext (by omega)
      exact ⟨i :: before, after, rfl, hDone⟩

end WrRfDemo.Clocked

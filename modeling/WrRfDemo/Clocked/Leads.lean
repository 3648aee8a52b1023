import WrRfDemo.Clocked.Run

/-! # Timed phases

The events of a run, and triples about phases of a fixed number of cycles: from a state that satisfies `P`, the phase
goes through states that satisfy `through`, and leaves events and a last state that satisfy `Q`.
-/

namespace WrRfDemo.Clocked

variable {ι σ ε : Type*}

def trace (step : ι → σ → σ) (emit : ι → σ → List ε) : List ι → σ → List ε
  | [], _ => []
  | i :: rest, s => emit i s ++ trace step emit rest (step i s)

theorem trace_append (step : ι → σ → σ) (emit : ι → σ → List ε) (before after : List ι) (s : σ) :
    trace step emit (before ++ after) s = trace step emit before s ++ trace step emit after (run step before s) := by
  induction before generalizing s with
  | nil => rfl
  | cons i rest ih => rw [List.cons_append, trace, ih, trace, List.append_assoc, run_cons]

/-- The phases of a machine, for inputs and states of some kind. -/
structure Clockwork (ι σ ε : Type*) where
  step : ι → σ → σ
  emit : ι → σ → List ε
  ok : ι → Prop
  through : σ → Prop

namespace Clockwork

variable (c : Clockwork ι σ ε)

def Leads (n : Nat) (P : σ → Prop) (Q : List ε → σ → Prop) : Prop :=
  ∀ inputs s, inputs.length = n → (∀ j ∈ inputs, c.ok j) → P s →
    Along c.step (fun _ s => c.through s) inputs s ∧ Q (trace c.step c.emit inputs s) (run c.step inputs s)

variable {c} {n m : Nat} {P P' : σ → Prop} {Q Q' : List ε → σ → Prop}

theorem leads_zero (h : ∀ s, P s → Q [] s) : c.Leads 0 P Q := by
  intro inputs s hLength _ hP
  obtain rfl := List.eq_nil_of_length_eq_zero hLength
  exact ⟨trivial, h s hP⟩

theorem leads_one (h : ∀ i s, c.ok i → P s → c.through s ∧ Q (c.emit i s) (c.step i s)) : c.Leads 1 P Q := by
  intro inputs s hLength hOk hP
  obtain ⟨i, rfl⟩ := List.length_eq_one_iff.mp hLength
  obtain ⟨hThrough, hQ⟩ := h i s (hOk i List.mem_cons_self) hP
  refine ⟨⟨hThrough, trivial⟩, ?_⟩
  rw [trace, trace, List.append_nil]
  exact hQ

theorem Leads.mono (h : c.Leads n P Q) (hP : ∀ s, P' s → P s) (hQ : ∀ events s, Q events s → Q' events s) :
    c.Leads n P' Q' := by
  intro inputs s hLength hOk hFirst
  obtain ⟨hAlong, hLast⟩ := h inputs s hLength hOk (hP s hFirst)
  exact ⟨hAlong, hQ _ _ hLast⟩

theorem Leads.seq (hFirst : c.Leads n P Q) (hThen : ∀ before, c.Leads m (Q before) fun after s => Q' (before ++ after) s) :
    c.Leads (n + m) P Q' := by
  intro inputs s hLength hOk hP
  rw [← List.take_append_drop n inputs] at hLength hOk ⊢
  have hTake : (inputs.take n).length = n := by
    rw [List.take_append_drop] at hLength
    rw [List.length_take]
    omega
  have hDrop : (inputs.drop n).length = m := by
    rw [List.length_append, hTake] at hLength
    omega
  obtain ⟨hAlongFirst, hMiddle⟩ := hFirst _ s hTake (fun j hj => hOk j (List.mem_append_left _ hj)) hP
  obtain ⟨hAlongThen, hLast⟩ := hThen _ _ _ hDrop (fun j hj => hOk j (List.mem_append_right _ hj)) hMiddle
  rw [along_append, trace_append, run_append]
  exact ⟨⟨hAlongFirst, hAlongThen⟩, hLast⟩

theorem Leads.andThen {events : List ε} {M : σ → Prop} (hFirst : c.Leads n P fun before s => before = events ∧ M s)
    (hThen : c.Leads m M Q) : c.Leads (n + m) P fun all s => ∃ after, all = events ++ after ∧ Q after s := by
  apply hFirst.seq
  rintro before inputs s hLength hOk ⟨rfl, hM⟩
  obtain ⟨hAlong, hQ⟩ := hThen inputs s hLength hOk hM
  exact ⟨hAlong, _, rfl, hQ⟩

theorem leads_quiet {P : Nat → σ → Prop} {last : Nat}
    (h : ∀ k < last, ∀ i s, c.ok i → P k s → c.through s ∧ c.emit i s = [] ∧ P (k + 1) (c.step i s)) (n : Nat) {first : Nat}
    (hn : first + n = last) : c.Leads n (P first) fun events s => events = [] ∧ P last s := by
  induction n generalizing first with
  | zero =>
    obtain rfl : first = last := hn
    exact leads_zero fun s hP => ⟨rfl, hP⟩
  | succ n ih =>
    have hOne : c.Leads 1 (P first) fun events s => events = [] ∧ P (first + 1) s :=
      leads_one fun i s hOk hP => h first (by omega) i s hOk hP
    rw [Nat.add_comm n 1]
    apply (hOne.andThen (ih (by omega))).mono (fun s hP => hP)
    rintro events s ⟨after, rfl, rfl, hLast⟩
    exact ⟨rfl, hLast⟩

/-- Before its last cycle a phase is still going on, and has left the first of its events. -/
theorem Leads.cut (h : c.Leads n P Q) {more : ι} (hMore : c.ok more) {inputs : List ι} {s : σ} (hShort : inputs.length < n)
    (hOk : ∀ j ∈ inputs, c.ok j) (hP : P s) :
    c.through (run c.step inputs s) ∧ ∃ events last, Q events last ∧ trace c.step c.emit inputs s <+: events := by
  obtain ⟨missing, hMissing⟩ : ∃ missing, n = inputs.length + (missing + 1) := ⟨n - inputs.length - 1, by omega⟩
  have hLength : (inputs ++ more :: List.replicate missing more).length = n := by simp [hMissing]
  have hAll : ∀ j ∈ inputs ++ more :: List.replicate missing more, c.ok j := by
    intro j hj
    rcases List.mem_append.mp hj with hIn | hPad
    · exact hOk j hIn
    · rw [← List.replicate_succ] at hPad
      rw [List.eq_of_mem_replicate hPad]
      exact hMore
  obtain ⟨hAlong, hQ⟩ := h _ s hLength hAll hP
  obtain ⟨-, hThrough, -⟩ := along_append.mp hAlong
  refine ⟨hThrough, _, _, hQ, ?_⟩
  rw [trace_append]
  exact List.prefix_append _ _

end Clockwork

end WrRfDemo.Clocked

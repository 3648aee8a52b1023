import Mathlib.Data.List.Destutter

/-! # Levels that stay

What a wave shows at its changes does not depend on how long each level stays. Two waves are the same in this
sense when `destutter'` makes them equal.
-/

namespace WrRfDemo.Clocked

variable {α ε : Type*}

/-- What `f` makes of each two levels that follow each other. -/
def transitions (f : α → α → List ε) : α → List α → List ε
  | _, [] => []
  | a, b :: rest => f a b ++ transitions f b rest

theorem getLastD_append (a : α) (before after : List α) :
    (before ++ after).getLastD a = after.getLastD (before.getLastD a) := by
  induction before generalizing a with
  | nil => rfl
  | cons b rest ih => rw [List.cons_append, List.getLastD_cons, List.getLastD_cons, ih b]

theorem transitions_append (f : α → α → List ε) (a : α) (before after : List α) :
    transitions f a (before ++ after) = transitions f a before ++ transitions f (before.getLastD a) after := by
  induction before generalizing a with
  | nil => rfl
  | cons b rest ih =>
    rw [List.cons_append, transitions, ih b, transitions, List.append_assoc]
    cases rest <;> rfl

variable [DecidableEq α]

theorem head_destutter' (a : α) (l : List α) : ∃ rest, l.destutter' (· ≠ ·) a = a :: rest := by
  induction l with
  | nil => exact ⟨[], rfl⟩
  | cons b l ih =>
    rcases eq_or_ne a b with rfl | hOther
    · rw [List.destutter'_cons_neg _ (not_not.mpr rfl)]
      exact ih
    · exact ⟨_, List.destutter'_cons_pos _ hOther⟩

theorem transitions_destutter' {f : α → α → List ε} (hStay : ∀ a, f a a = []) (a : α) (l : List α) :
    transitions f a (l.destutter' (· ≠ ·) a).tail = transitions f a l := by
  induction l generalizing a with
  | nil => rfl
  | cons b l ih =>
    rcases eq_or_ne a b with rfl | hOther
    · rw [List.destutter'_cons_neg _ (not_not.mpr rfl), ih a, transitions, hStay a, List.nil_append]
    · obtain ⟨rest, hRest⟩ := head_destutter' b l
      have hTail := ih b
      rw [hRest, List.tail_cons] at hTail
      rw [List.destutter'_cons_pos _ hOther, List.tail_cons, hRest, transitions, hTail, transitions]

/-- Waves that differ only in how long their levels stay show the same at the changes. -/
theorem transitions_congr {f : α → α → List ε} (hStay : ∀ a, f a a = []) {a : α} {l m : List α}
    (hSame : l.destutter' (· ≠ ·) a = m.destutter' (· ≠ ·) a) : transitions f a l = transitions f a m := by
  rw [← transitions_destutter' hStay a l, hSame, transitions_destutter' hStay a m]

theorem mem_destutter'_of_mem {a b : α} {l : List α} (h : b ∈ l) : b ∈ l.destutter' (· ≠ ·) a := by
  induction l generalizing a with
  | nil => exact absurd h List.not_mem_nil
  | cons c l ih =>
    rcases eq_or_ne a c with rfl | hOther
    · rw [List.destutter'_cons_neg _ (not_not.mpr rfl)]
      rcases List.mem_cons.mp h with rfl | hLater
      · exact List.mem_destutter' ..
      · exact ih hLater
    · rw [List.destutter'_cons_pos _ hOther]
      rcases List.mem_cons.mp h with rfl | hLater
      · exact List.mem_cons_of_mem _ (List.mem_destutter' ..)
      · exact List.mem_cons_of_mem _ (ih hLater)

theorem mem_of_mem_destutter' {a b : α} {l : List α} (h : b ∈ l.destutter' (· ≠ ·) a) : b = a ∨ b ∈ l :=
  List.mem_cons.mp ((List.destutter'_sublist _ _ a).subset h)

/-- One more cycle of a wave. -/
theorem destutter'_concat (a b : α) (l : List α) :
    (l ++ [b]).destutter' (· ≠ ·) a =
      l.destutter' (· ≠ ·) a ++ if l.getLastD a = b then [] else [b] := by
  induction l generalizing a with
  | nil =>
    rcases eq_or_ne a b with rfl | hOther
    · simp
    · simp [hOther]
  | cons c l ih =>
    have hLast : (c :: l).getLastD a = l.getLastD c := by cases l <;> rfl
    rw [List.cons_append, hLast]
    rcases eq_or_ne a c with rfl | hOther
    · rw [List.destutter'_cons_neg _ (not_not.mpr rfl), List.destutter'_cons_neg _ (not_not.mpr rfl), ih a]
    · rw [List.destutter'_cons_pos _ hOther, List.destutter'_cons_pos _ hOther, ih c, List.cons_append]

end WrRfDemo.Clocked

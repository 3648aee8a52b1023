/-! # Items on their way through a pipeline

A source shows items one after the other, and each stage of a pipeline behind it is about an item that
has been on show before. The stage at depth `k` is about the present item once that has been passed
on `k` times.
-/

namespace WrRfDemo.Clocked

/-- The number of the item on show, and how often it has been passed on. -/
structure Source where
  item : Nat
  age : Nat
deriving DecidableEq

namespace Source

/-- A cycle in which the item on show is replaced, or the pipeline moves. -/
def next (replaced moves : Bool) (src : Source) : Source :=
  if replaced then ⟨src.item + 1, 0⟩ else if moves then ⟨src.item, src.age + 1⟩ else src

/-- The item that the stage at depth `k` is about. -/
structure Feeds (src : Source) (k : Nat) (stage : Option Nat) : Prop where
  present : stage = some src.item ↔ k ≤ src.age
  earlier : ∀ item ∈ stage, item ≤ src.item

variable {src : Source} {k : Nat} {stage : Option Nat}

theorem feeds_none (hAge : src.age < k) : src.Feeds k none :=
  ⟨by simp [hAge], by simp⟩

theorem Feeds.replaced (h : src.Feeds k stage) {depth : Nat} (hDepth : 0 < depth) (moves : Bool) :
    (src.next true moves).Feeds depth stage := by
  constructor
  · constructor
    · intro hPresent
      exact absurd (h.earlier _ hPresent) (Nat.not_succ_le_self src.item)
    · intro hLate
      simp [next] at hLate
      omega
  · intro item hItem
    exact Nat.le_succ_of_le (h.earlier item hItem)

theorem feeds_first (src : Source) (replaced : Bool) : (src.next replaced true).Feeds 1 (some src.item) := by
  cases replaced <;> constructor <;> simp [next]

theorem Feeds.moves (h : src.Feeds k stage) (replaced : Bool) : (src.next replaced true).Feeds (k + 1) stage := by
  cases replaced with
  | true => exact h.replaced (Nat.succ_pos k) true
  | false =>
    refine ⟨?_, h.earlier⟩
    simpa [next] using h.present

theorem Feeds.holds (h : src.Feeds k stage) (hk : 0 < k) (replaced : Bool) : (src.next replaced false).Feeds k stage := by
  cases replaced with
  | true => exact h.replaced hk false
  | false => exact h

end Source

end WrRfDemo.Clocked

import Mathlib.Data.List.Infix

/-! # FIFOs by their history

What was written to a FIFO, and how much of it was taken. A FIFO between two clocks is known at one of them by its port: what is
done at the other clock is its own affair.
-/

namespace WrRfDemo.Memory

structure Fifo (α : Type) where
  written : List α
  taken : Nat
  taken_le : taken ≤ written.length

namespace Fifo

variable {α : Type}

def empty : Fifo α := ⟨[], 0, le_rfl⟩

def content (f : Fifo α) : List α := f.written.drop f.taken

def put (words : List α) (f : Fifo α) : Fifo α :=
  ⟨f.written ++ words, f.taken, by rw [List.length_append]; exact Nat.le_add_right_of_le f.taken_le⟩

def take (n : Nat) (f : Fifo α) : Fifo α := ⟨f.written, min (f.taken + n) f.written.length, Nat.min_le_right ..⟩

/-- Nothing was taken in between. -/
def Fills (f g : Fifo α) : Prop := f.written <+: g.written ∧ g.taken = f.taken

/-- Nothing was written in between. -/
def Drains (f g : Fifo α) : Prop := g.written = f.written ∧ f.taken ≤ g.taken

variable {f g h : Fifo α}

theorem Fills.refl (f : Fifo α) : Fills f f := ⟨List.prefix_rfl, rfl⟩

theorem Fills.trans (hFirst : Fills f g) (hSecond : Fills g h) : Fills f h :=
  ⟨hFirst.1.trans hSecond.1, hSecond.2.trans hFirst.2⟩

theorem fills_put (words : List α) (f : Fifo α) : Fills f (f.put words) := ⟨List.prefix_append .., rfl⟩

theorem length_content_put (words : List α) (f : Fifo α) :
    (f.put words).content.length = f.content.length + words.length := by
  have hLe := f.taken_le
  rw [content, content, List.length_drop, List.length_drop]
  change (f.written ++ words).length - f.taken = _
  rw [List.length_append]
  omega

theorem Drains.refl (f : Fifo α) : Drains f f := ⟨rfl, le_rfl⟩

theorem Drains.trans (hFirst : Drains f g) (hSecond : Drains g h) : Drains f h :=
  ⟨hSecond.1.trans hFirst.1, hFirst.2.trans hSecond.2⟩

theorem drains_take (n : Nat) (f : Fifo α) : Drains f (f.take n) :=
  ⟨rfl, Nat.le_min.mpr ⟨Nat.le_add_right .., f.taken_le⟩⟩

theorem content_eq_nil_iff : f.content = [] ↔ f.taken = f.written.length := by
  rw [content, List.drop_eq_nil_iff]
  exact ⟨fun h => Nat.le_antisymm f.taken_le h, ge_of_eq⟩

theorem taken_take_one (hSome : f.content ≠ []) : (f.take 1).taken = f.taken + 1 := by
  have hLt : f.taken < f.written.length := by
    apply Nat.lt_of_le_of_ne f.taken_le
    intro hAll
    exact hSome (content_eq_nil_iff.mpr hAll)
  exact Nat.min_eq_left hLt

theorem Fills.content_ne_nil (hFills : Fills f g) (hSome : f.content ≠ []) : g.content ≠ [] := by
  intro hNone
  apply hSome
  rw [content_eq_nil_iff] at hNone ⊢
  have hLength := hFills.1.length_le
  have hLe := f.taken_le
  have hTaken := hFills.2
  omega

theorem Fills.length_content_le (hFills : Fills f g) : f.content.length ≤ g.content.length := by
  have hLength := hFills.1.length_le
  have hTaken := hFills.2
  rw [content, content, List.length_drop, List.length_drop]
  omega

theorem head_content {x : α} (h : f.content.head? = some x) : f.written[f.taken]? = some x := by
  rwa [content, List.head?_drop] at h

theorem Drains.length_content_le (hDrains : Drains f g) : g.content.length ≤ f.content.length := by
  have hTaken := hDrains.2
  rw [content, content, List.length_drop, List.length_drop, hDrains.1]
  omega

end Fifo

/-! ### The ports of a FIFO between two clocks -/

/-- A FIFO at the clock that reads it. Its history has the words that have come through to this side; a step takes the number of the
cycle and the request. -/
structure ReadPort (α : Type) where
  state : Type
  step : Nat → Bool → state → state
  empty : state → Bool
  data : state → α
  history : state → Fifo α

/-- A request takes the next word, where there is one, and it is shown behind the request. -/
structure ReadPort.Obeys {α : Type} (port : ReadPort α) : Prop where
  step : ∀ t req s, ∃ words, port.history (port.step t req s) = (if req then (port.history s).take 1 else port.history s).put words
  data : ∀ t s, ∀ x ∈ (port.history s).content.head?, port.data (port.step t true s) = x
  empty : ∀ s, port.empty s = true ↔ (port.history s).content = []

/-- A FIFO at the clock that writes it. Its history has the words as taken that this side has heard of. -/
structure WritePort (α : Type) where
  state : Type
  step : Nat → Option α → state → state
  full : state → Bool
  history : state → Fifo α

/-- It takes a word where it has room. -/
structure WritePort.Obeys {α : Type} (port : WritePort α) (size : Nat) : Prop where
  step : ∀ t word s, ∃ n, port.history (port.step t word s) =
    ((port.history s).put (if (port.history s).content.length < size then word.toList else [])).take n
  full : ∀ s, port.full s = true ↔ size ≤ (port.history s).content.length

namespace Fifo

variable {α : Type}

theorem put_nil (f : Fifo α) : f.put [] = f := by
  simp [put]

def arriving (words : Nat → List α) : ReadPort α where
  state := Fifo α × α
  step t req s := ((if req then s.1.take 1 else s.1).put (words t), if req then s.1.content.headD s.2 else s.2)
  empty s := s.1.content.isEmpty
  data s := s.2
  history s := s.1

def leaving (size : Nat) (taken : Nat → Nat) : WritePort α where
  state := Fifo α
  step t word f := (f.put (if f.content.length < size then word.toList else [])).take (taken t)
  full f := decide (size ≤ f.content.length)
  history f := f

theorem arriving_obeys (words : Nat → List α) : (arriving words).Obeys := by
  constructor
  · exact fun t req s => ⟨words t, rfl⟩
  · intro t s x hx
    change s.1.content.headD s.2 = x
    rw [List.headD_eq_head?_getD, show s.1.content.head? = some x from hx]
    rfl
  · exact fun s => List.isEmpty_iff

theorem leaving_obeys (size : Nat) (taken : Nat → Nat) : (leaving (α := α) size taken).Obeys size :=
  ⟨fun t _ _ => ⟨taken t, rfl⟩, fun _ => decide_eq_true_iff⟩

end Fifo

end WrRfDemo.Memory

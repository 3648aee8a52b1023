import WrRfDemo.Clocked.Run

/-! # A queue with transactional writes

What is written waits until an accept moves it to the end of the queue or a drop discards it. The
ledger of a run also lists what was accepted and what was delivered; the two differ by what is
still in the queue.
-/

namespace WrRfDemo.Clocked

/-- What one cycle asks of the queue. -/
structure Request (α : Type*) where
  reset : Bool
  word : Option α
  accept : Bool
  drop : Bool
  pop : Bool

structure TransactionQueue (α : Type*) where
  committed : List α
  pending : List α

namespace TransactionQueue

variable {α : Type*}

def empty : TransactionQueue α := ⟨[], []⟩

def size (q : TransactionQueue α) : Nat := q.committed.length + q.pending.length

/-- The words that wait after this cycle; a full queue takes none, and a drop discards them all. -/
def pendingNext (capacity : Nat) (r : Request α) (q : TransactionQueue α) : List α :=
  if r.drop then []
  else (if r.accept then [] else q.pending) ++ if capacity ≤ q.size then [] else r.word.toList

def next (capacity : Nat) (r : Request α) (q : TransactionQueue α) : TransactionQueue α :=
  if r.reset then empty
  else
    { committed := (if r.pop then q.committed.tail else q.committed) ++ if r.accept then q.pending else []
      pending := q.pendingNext capacity r }

end TransactionQueue

/-- The queue with what was accepted and what was delivered since the last reset. -/
structure Ledger (α : Type*) where
  queue : TransactionQueue α
  accepted : List α
  delivered : List α

namespace Ledger

variable {α : Type*}

def empty : Ledger α := ⟨.empty, [], []⟩

def next (capacity : Nat) (r : Request α) (l : Ledger α) : Ledger α :=
  if r.reset then empty
  else
    { queue := l.queue.next capacity r
      accepted := l.accepted ++ if r.accept then l.queue.pending else []
      delivered := l.delivered ++ if r.pop then l.queue.committed.take 1 else [] }

/-- Accepted words are delivered once, unaltered and in order, or still in the queue. -/
def Balanced (l : Ledger α) : Prop := l.accepted = l.delivered ++ l.queue.committed

theorem balanced_empty : (empty : Ledger α).Balanced := rfl

@[simp] theorem queue_next (capacity : Nat) (r : Request α) (l : Ledger α) :
    (l.next capacity r).queue = l.queue.next capacity r := by
  cases hReset : r.reset <;> simp [next, TransactionQueue.next, hReset, empty]

theorem Balanced.next {l : Ledger α} (h : l.Balanced) (capacity : Nat) (r : Request α) :
    (l.next capacity r).Balanced := by
  cases hReset : r.reset with
  | true =>
    rw [Ledger.next, if_pos hReset]
    exact balanced_empty
  | false =>
    have hTaken : l.queue.committed =
        (if r.pop then l.queue.committed.take 1 else []) ++ if r.pop then l.queue.committed.tail else l.queue.committed := by
      cases r.pop with
      | false => rfl
      | true => simp [← List.drop_one]
    have hAll : l.accepted = (l.delivered ++ if r.pop then l.queue.committed.take 1 else []) ++
        if r.pop then l.queue.committed.tail else l.queue.committed := by
      rw [List.append_assoc, ← hTaken]
      exact h
    simp only [Balanced, Ledger.next, TransactionQueue.next, hReset, Bool.false_eq_true, if_false]
    rw [hAll, List.append_assoc]

end Ledger

end WrRfDemo.Clocked

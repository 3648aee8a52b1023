import Mathlib.Algebra.Group.Nat.Defs
import Mathlib.Data.List.Infix

/-! # Ring memories

A memory addressed by counters that wrap. A list lies in the ring from an address on when
its elements stand there in order.
-/

namespace WrRfDemo.Clocked

variable {a : Nat} {α : Type*}

def store (mem : BitVec a → α) (slot : BitVec a) (v : α) : BitVec a → α :=
  fun p => if p = slot then v else mem p

/-- The elements of `l` stand at `start` and the addresses after it. -/
def LiesAt (mem : BitVec a → α) : BitVec a → List α → Prop
  | _, [] => True
  | start, v :: rest => mem start = v ∧ LiesAt mem (start + 1) rest

def wordsFrom (mem : BitVec a → α) (start : BitVec a) : Nat → List α
  | 0 => []
  | len + 1 => mem start :: wordsFrom mem (start + 1) len

theorem wordsFrom_of_liesAt {mem : BitVec a → α} {start : BitVec a} {l : List α}
    (h : LiesAt mem start l) : wordsFrom mem start l.length = l := by
  induction l generalizing start with
  | nil => rfl
  | cons v rest ih =>
    obtain ⟨hHead, hRest⟩ := h
    rw [List.length_cons, wordsFrom, hHead, ih hRest]

theorem add_ofNat_succ (start : BitVec a) (k : Nat) :
    start + BitVec.ofNat a (k + 1) = start + 1 + BitVec.ofNat a k := by
  rw [Nat.add_comm k 1, BitVec.ofNat_add, ← BitVec.add_assoc]
  rfl

theorem liesAt_append {mem : BitVec a → α} {start : BitVec a} {before after : List α} :
    LiesAt mem start (before ++ after) ↔
      LiesAt mem start before ∧ LiesAt mem (start + BitVec.ofNat a before.length) after := by
  induction before generalizing start with
  | nil => simp [LiesAt]
  | cons v rest ih =>
    rw [List.cons_append, LiesAt, LiesAt, ih, List.length_cons, add_ofNat_succ]
    exact and_assoc.symm

/-- Two counters less than one round apart are equal only if they do not differ. -/
theorem add_ofNat_eq_iff {start : BitVec a} {j k : Nat} (hj : j < 2 ^ a) (hk : k < 2 ^ a) :
    start + BitVec.ofNat a j = start + BitVec.ofNat a k ↔ j = k := by
  rw [BitVec.add_right_inj, ← BitVec.toNat_inj, BitVec.toNat_ofNat, BitVec.toNat_ofNat,
    Nat.mod_eq_of_lt hj, Nat.mod_eq_of_lt hk]

theorem toNat_add_ofNat_sub {start : BitVec a} {k : Nat} (hk : k < 2 ^ a) :
    (start + BitVec.ofNat a k - start).toNat = k := by
  rw [BitVec.add_comm, BitVec.add_sub_cancel, BitVec.toNat_ofNat, Nat.mod_eq_of_lt hk]

theorem liesAt_store {mem : BitVec a → α} {start : BitVec a} {l : List α} {k : Nat} (v : α)
    (h : LiesAt mem start l) (hk : k < 2 ^ a) (hLength : l.length ≤ k) :
    LiesAt (store mem (start + BitVec.ofNat a k) v) start l := by
  induction l generalizing start k with
  | nil => trivial
  | cons w rest ih =>
    obtain ⟨hHead, hRest⟩ := h
    rw [List.length_cons] at hLength
    obtain ⟨k, rfl⟩ := Nat.exists_eq_add_one_of_ne_zero (show k ≠ 0 by omega)
    constructor
    · rw [store, if_neg, hHead]
      intro hSame
      have hZero : start + BitVec.ofNat a 0 = start + BitVec.ofNat a (k + 1) := by simpa using hSame
      have := (add_ofNat_eq_iff (by omega) hk).mp hZero
      omega
    · rw [add_ofNat_succ]
      exact ih hRest (by omega) (by omega)

theorem liesAt_concat {mem : BitVec a → α} {start : BitVec a} {l : List α} (v : α)
    (h : LiesAt mem start l) (hFits : l.length < 2 ^ a) :
    LiesAt (store mem (start + BitVec.ofNat a l.length) v) start (l ++ [v]) := by
  rw [liesAt_append]
  refine ⟨liesAt_store v h hFits (Nat.le_refl _), ?_, trivial⟩
  simp [store]

end WrRfDemo.Clocked

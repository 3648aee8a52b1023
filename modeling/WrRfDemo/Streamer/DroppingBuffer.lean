import WrRfDemo.Clocked.Run
import WrRfDemo.Clocked.Ring

/-! # The dropping buffer

A ring with three pointers: words are written behind the commit boundary, which an accept
moves up to the write pointer and to which a drop moves the write pointer back. The buffer
holds two lists, the words committed and not yet read and the words not yet committed, as
long as no drop meets an accept that has something to commit.
-/

namespace WrRfDemo.Streamer

open Clocked

structure BufferIn (α : Type*) where
  rstN : Bool
  d : α
  dDrop : Bool
  dAccept : Bool
  dValid : Bool
  dReq : Bool

/-- `g_size` is `2 ^ a`. -/
structure DroppingBuffer (a : Nat) (α : Type*) where
  wrPtr : BitVec a
  rdPtr : BitVec a
  boundary : BitVec a
  emptyReg : Bool
  mem : BitVec a → α
  dO : α
  dValidO : Bool

namespace DroppingBuffer

variable {a : Nat} {α : Type*}

def emptyComb (s : DroppingBuffer a α) : Bool := s.boundary == s.rdPtr

def full (s : DroppingBuffer a α) : Bool := s.wrPtr + 1 == s.rdPtr

def dReqO (s : DroppingBuffer a α) : Bool := !s.full

def reads (i : BufferIn α) (s : DroppingBuffer a α) : Bool := i.dReq && !s.emptyReg && !s.emptyComb

def clock (i : BufferIn α) (s : DroppingBuffer a α) : DroppingBuffer a α where
  wrPtr :=
    if !i.rstN then 0
    else if i.dDrop then s.boundary
    else if i.dValid && !s.full then s.wrPtr + 1
    else s.wrPtr
  rdPtr := if !i.rstN then 0 else if s.reads i then s.rdPtr + 1 else s.rdPtr
  boundary := if !i.rstN then 0 else if i.dAccept then s.wrPtr else s.boundary
  emptyReg := !i.rstN || s.emptyComb
  mem := if i.dValid then store s.mem s.wrPtr i.d else s.mem
  dO := if s.reads i then s.mem s.rdPtr else s.dO
  dValidO := s.reads i

/-- The committed words that the reader has yet to take. -/
def readable (s : DroppingBuffer a α) : List α := wordsFrom s.mem s.rdPtr (s.boundary - s.rdPtr).toNat

/-- The words written since the last accept or drop. -/
def uncommitted (s : DroppingBuffer a α) : List α := wordsFrom s.mem s.boundary (s.wrPtr - s.boundary).toNat

/-- Counted from the read pointer, the commit boundary is not ahead of the write pointer. -/
def BoundaryBehind (s : DroppingBuffer a α) : Prop :=
  (s.boundary - s.rdPtr).toNat ≤ (s.wrPtr - s.rdPtr).toNat

/-! ### The two lists in the ring -/

/-- The ring holds the `committed` and then the `pending` words. -/
structure Contains (s : DroppingBuffer a α) (committed pending : List α) : Prop where
  fits : committed.length + pending.length < 2 ^ a
  boundary : s.boundary = s.rdPtr + BitVec.ofNat a committed.length
  wrPtr : s.wrPtr = s.rdPtr + BitVec.ofNat a (committed ++ pending).length
  stored : LiesAt s.mem s.rdPtr (committed ++ pending)

variable {s : DroppingBuffer a α} {committed pending : List α} {i : BufferIn α}

theorem Contains.readable (h : s.Contains committed pending) : s.readable = committed := by
  have hFits := h.fits
  rw [DroppingBuffer.readable, h.boundary, toNat_add_ofNat_sub (by omega)]
  exact wordsFrom_of_liesAt (liesAt_append.mp h.stored).1

theorem Contains.wrPtr_eq (h : s.Contains committed pending) :
    s.wrPtr = s.boundary + BitVec.ofNat a pending.length := by
  rw [h.wrPtr, h.boundary, List.length_append, BitVec.ofNat_add, BitVec.add_assoc]

theorem Contains.uncommitted (h : s.Contains committed pending) : s.uncommitted = pending := by
  have hFits := h.fits
  rw [DroppingBuffer.uncommitted, h.wrPtr_eq, toNat_add_ofNat_sub (by omega), h.boundary]
  exact wordsFrom_of_liesAt (liesAt_append.mp h.stored).2

theorem Contains.pending_of_eq (h : s.Contains committed pending) (hEq : s.wrPtr = s.boundary) :
    pending = [] := by
  have hFits := h.fits
  have hZero : s.boundary + BitVec.ofNat a pending.length = s.boundary + BitVec.ofNat a 0 := by
    rw [← h.wrPtr_eq, hEq]
    simp
  exact List.length_eq_zero_iff.mp ((add_ofNat_eq_iff (by omega) (by omega)).mp hZero)

theorem Contains.boundaryBehind (h : s.Contains committed pending) : s.BoundaryBehind := by
  have hFits := h.fits
  rw [BoundaryBehind, h.boundary, h.wrPtr, List.length_append, toNat_add_ofNat_sub (by omega),
    toNat_add_ofNat_sub hFits]
  exact Nat.le_add_right _ _

theorem Contains.emptyComb_iff (h : s.Contains committed pending) :
    s.emptyComb = true ↔ committed = [] := by
  have hFits := h.fits
  have hZero : s.rdPtr + BitVec.ofNat a committed.length = s.rdPtr + BitVec.ofNat a 0 ↔
    committed.length = 0 := add_ofNat_eq_iff (by omega) (by omega)
  rw [emptyComb, beq_iff_eq, h.boundary, ← List.length_eq_zero_iff, ← hZero]
  simp

theorem Contains.full_iff (h : s.Contains committed pending) :
    s.full = true ↔ committed.length + pending.length + 1 = 2 ^ a := by
  have hFits := h.fits
  have hNext : s.wrPtr + 1 = s.rdPtr + BitVec.ofNat a (committed.length + pending.length + 1) := by
    rw [h.wrPtr, List.length_append, BitVec.ofNat_add _ 1, BitVec.add_assoc]
    rfl
  rw [full, beq_iff_eq, hNext]
  constructor
  · intro hRound
    by_contra hShort
    have hZero : s.rdPtr + BitVec.ofNat a (committed.length + pending.length + 1) =
        s.rdPtr + BitVec.ofNat a 0 := by simpa using hRound
    have := (add_ofNat_eq_iff (by omega) (by omega)).mp hZero
    omega
  · intro hRound
    have hWrap : BitVec.ofNat a (2 ^ a) = 0 := BitVec.eq_of_toNat_eq
      (by rw [BitVec.toNat_ofNat, Nat.mod_self]; exact BitVec.toNat_zero.symm)
    rw [hRound, hWrap]
    simp

theorem Contains.reset (i : BufferIn α) (hRst : i.rstN = false) (s : DroppingBuffer a α) :
    (s.clock i).Contains [] [] := by
  refine ⟨Nat.two_pow_pos a, ?_, ?_, trivial⟩ <;> simp [clock, hRst]

/-- What the write port and the strobes make of the two lists. -/
def committedNext (i : BufferIn α) (committed pending : List α) : List α :=
  committed ++ if i.dAccept then pending else []

def pendingNext (i : BufferIn α) (s : DroppingBuffer a α) (pending : List α) : List α :=
  if i.dDrop then []
  else (if i.dAccept then [] else pending) ++ if i.dValid && !s.full then [i.d] else []

theorem Contains.stored_write (h : s.Contains committed pending) :
    LiesAt (s.clock i).mem s.rdPtr (committed ++ pending) ∧
      (i.dValid = true → LiesAt (s.clock i).mem s.rdPtr (committed ++ pending ++ [i.d])) := by
  have hFits : (committed ++ pending).length < 2 ^ a := by
    rw [List.length_append]
    exact h.fits
  cases hValid : i.dValid with
  | false => simpa [clock, hValid] using h.stored
  | true =>
    simp only [clock, hValid, if_true, h.wrPtr]
    exact ⟨liesAt_store i.d h.stored hFits (Nat.le_refl _), fun _ => liesAt_concat i.d h.stored hFits⟩

theorem Contains.write (h : s.Contains committed pending) (hRst : i.rstN = true)
    (hOrder : i.dDrop = true → i.dAccept = true → pending = []) :
    ({ s.clock i with rdPtr := s.rdPtr } : DroppingBuffer a α).Contains
      (committedNext i committed pending) (pendingNext i s pending) := by
  obtain ⟨hStored, hPushed⟩ := h.stored_write (i := i)
  have hFull := h.full_iff
  have hFits := h.fits
  have hWr : s.wrPtr = s.rdPtr + BitVec.ofNat a (committed.length + pending.length) := by
    rw [h.wrPtr, List.length_append]
  cases hDrop : i.dDrop with
  | true =>
    cases hAccept : i.dAccept with
    | true =>
      have hNone := hOrder hDrop hAccept
      subst hNone
      have hSame : s.wrPtr = s.boundary := by rw [hWr, h.boundary]; rfl
      constructor <;> simp_all [committedNext, pendingNext, clock]
    | false =>
      constructor
      · simp [committedNext, pendingNext, hDrop, hAccept]
        omega
      · simp [committedNext, clock, hRst, hAccept, h.boundary]
      · simp [committedNext, pendingNext, clock, hRst, hDrop, hAccept, h.boundary]
      · simpa [committedNext, pendingNext, hDrop, hAccept] using (liesAt_append.mp hStored).1
  | false =>
    have hList : committedNext i committed pending ++ pendingNext i s pending =
        committed ++ pending ++ if i.dValid && !s.full then [i.d] else [] := by
      cases hAccept : i.dAccept <;> simp [committedNext, pendingNext, hDrop, hAccept]
    have hBoundary : (s.clock i).boundary = s.rdPtr + BitVec.ofNat a (committedNext i committed pending).length := by
      cases hAccept : i.dAccept with
      | true => simp [committedNext, clock, hRst, hAccept, hWr]
      | false => simp [committedNext, clock, hRst, hAccept, h.boundary]
    cases hPush : i.dValid && !s.full with
    | false =>
      rw [hPush, if_neg (by decide), List.append_nil] at hList
      have hLength := congrArg List.length hList
      simp only [List.length_append] at hLength
      refine ⟨?_, hBoundary, ?_, ?_⟩
      · omega
      · rw [hList, List.length_append]
        simp only [clock, hRst, hDrop, hPush]
        exact hWr
      · rwa [hList]
    | true =>
      rw [hPush, if_pos rfl] at hList
      obtain ⟨hValid, hRoom⟩ := Bool.and_eq_true_iff.mp hPush
      have hLength := congrArg List.length hList
      simp only [List.length_append, List.length_singleton] at hLength
      have hNotFull : committed.length + pending.length + 1 ≠ 2 ^ a := by
        intro hRound
        rw [hFull.mpr hRound] at hRoom
        cases hRoom
      refine ⟨?_, hBoundary, ?_, ?_⟩
      · omega
      · rw [hList]
        simp only [clock, hRst, hDrop, hPush, List.length_append, List.length_singleton]
        rw [BitVec.ofNat_add _ 1, ← BitVec.add_assoc, ← hWr]
        rfl
      · rw [hList]
        exact hPushed hValid

theorem Contains.clock (h : s.Contains committed pending) (hRst : i.rstN = true)
    (hOrder : i.dDrop = true → i.dAccept = true → pending = []) :
    (s.clock i).Contains
      ((if s.reads i then committed.tail else committed) ++ if i.dAccept then pending else [])
      (pendingNext i s pending) := by
  obtain ⟨hFits, hBoundary, hWrPtr, hStored⟩ := h.write hRst hOrder
  cases hReads : s.reads i with
  | false =>
    have hRd : (s.clock i).rdPtr = s.rdPtr := by simp [DroppingBuffer.clock, hRst, hReads]
    refine ⟨hFits, ?_, ?_, ?_⟩ <;> rw [hRd] <;> assumption
  | true =>
    have hRd : (s.clock i).rdPtr = s.rdPtr + 1 := by simp [DroppingBuffer.clock, hRst, hReads]
    have hSome : committed ≠ [] := by
      intro hNone
      have := h.emptyComb_iff.mpr hNone
      simp [reads, this] at hReads
    obtain ⟨v, rest, rfl⟩ := List.exists_cons_of_ne_nil hSome
    simp only [committedNext, List.cons_append] at hFits hBoundary hWrPtr hStored
    rw [if_pos rfl, List.tail_cons]
    refine ⟨?_, ?_, ?_, ?_⟩
    · rw [List.length_cons] at hFits
      omega
    · rw [hRd, ← add_ofNat_succ]
      exact hBoundary
    · rw [hRd, ← add_ofNat_succ]
      exact hWrPtr
    · rw [hRd]
      exact hStored.2

theorem Contains.head_of_reads (h : s.Contains committed pending) (hReads : s.reads i = true) :
    committed.head? = some (s.mem s.rdPtr) := by
  cases committed with
  | nil =>
    have := h.emptyComb_iff.mpr rfl
    simp [reads, this] at hReads
  | cons v rest => rw [List.head?_cons, h.stored.1]

end DroppingBuffer

end WrRfDemo.Streamer

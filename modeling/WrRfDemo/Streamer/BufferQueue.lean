import WrRfDemo.Clocked.Transactions
import WrRfDemo.Streamer.DroppingBuffer

/-! # The dropping buffer as a queue

From a reset on, and as long as no cycle accepts and drops at once, the ring is a queue with
transactional writes that holds one word less than its size. The read port answers one clock
later, so a word leaves the queue at the edge that raises `d_valid_o`.
-/

namespace WrRfDemo.Streamer

open Clocked

namespace DroppingBuffer

variable {a : Nat} {α : Type*}

def capacity (a : Nat) : Nat := 2 ^ a - 1

/-- The ports of this cycle, with what the next one shows as taken. -/
def request (i : BufferIn α) (s : DroppingBuffer a α) : Request α where
  reset := !i.rstN
  word := if i.dValid then some i.d else none
  accept := i.dAccept
  drop := i.dDrop
  pop := (s.clock i).dValidO

def ledgerNext (l : Ledger α) (i : BufferIn α) (s : DroppingBuffer a α) : Ledger α := l.next (capacity a) (s.request i)

structure Agrees (s : DroppingBuffer a α) (l : Ledger α) : Prop where
  readable : s.readable = l.queue.committed
  uncommitted : s.uncommitted = l.queue.pending
  full : s.full = true ↔ l.queue.size = capacity a
  fits : l.queue.size ≤ capacity a
  balanced : l.Balanced

def Holds (l : Ledger α) (s : DroppingBuffer a α) : Prop :=
  s.Contains l.queue.committed l.queue.pending ∧ l.Balanced

variable {s : DroppingBuffer a α} {l : Ledger α} {i : BufferIn α}

theorem Holds.full_iff (h : Holds l s) : s.full = true ↔ l.queue.size = capacity a := by
  have hFits := h.1.fits
  rw [h.1.full_iff, TransactionQueue.size, capacity]
  omega

theorem Holds.agrees (h : Holds l s) : s.Agrees l := by
  refine ⟨h.1.readable, h.1.uncommitted, h.full_iff, ?_, h.2⟩
  have hFits := h.1.fits
  rw [TransactionQueue.size, capacity]
  omega

theorem pendingNext_eq (h : Holds l s) :
    pendingNext i s l.queue.pending = l.queue.pendingNext (capacity a) (s.request i) := by
  have hPushed : (if i.dValid && !s.full then [i.d] else []) =
      if capacity a ≤ l.queue.size then [] else (s.request i).word.toList := by
    have hFits := h.agrees.fits
    cases hFull : s.full with
    | true =>
      have hSize := h.full_iff.mp hFull
      rw [if_pos hSize.ge, Bool.not_true, Bool.and_false, if_neg Bool.false_ne_true]
    | false =>
      have hRoom : ¬capacity a ≤ l.queue.size := by
        intro hReach
        rw [h.full_iff.mpr (by omega)] at hFull
        cases hFull
      cases hValid : i.dValid <;> simp [hRoom, request, hValid]
  rw [pendingNext, TransactionQueue.pendingNext, hPushed]
  rfl

theorem Holds.next (h : Holds l s) (hOrder : ¬(i.dAccept = true ∧ i.dDrop = true)) :
    Holds (ledgerNext l i s) (s.clock i) := by
  refine ⟨?_, h.2.next _ _⟩
  rw [ledgerNext, Ledger.queue_next]
  cases hRst : i.rstN with
  | false =>
    have hReset : (s.request i).reset = true := by simp [request, hRst]
    rw [TransactionQueue.next, if_pos hReset]
    exact Contains.reset i hRst s
  | true =>
    have hReset : (s.request i).reset = false := by simp [request, hRst]
    rw [TransactionQueue.next, if_neg (ne_true_of_eq_false hReset), ← pendingNext_eq h]
    exact h.1.clock hRst fun hDrop hAccept => absurd ⟨hAccept, hDrop⟩ hOrder

theorem Holds.head_of_valid (h : Holds l s) (hValid : (s.clock i).dValidO = true) :
    l.queue.committed.head? = some (s.clock i).dO := by
  have hReads : s.reads i = true := hValid
  have hShown : (s.clock i).dO = s.mem s.rdPtr := if_pos hReads
  rw [h.1.head_of_reads hReads, hShown]

theorem Holds.emptyComb_iff (h : Holds l s) : s.emptyComb = true ↔ l.queue.committed = [] := h.1.emptyComb_iff

/-- An accepted word that is not read in this cycle is read in the next, if it is asked for. -/
theorem Holds.delivers (h : Holds l s) (hRst : i.rstN = true) (hOrder : ¬(i.dAccept = true ∧ i.dDrop = true))
    (hSome : l.queue.committed ≠ []) {j : BufferIn α} (hReq : j.dReq = true) :
    (s.clock i).dValidO = true ∨ ((s.clock i).clock j).dValidO = true := by
  rw [or_iff_not_imp_left]
  intro hUnread
  have hKept : (ledgerNext l i s).queue.committed ≠ [] := by
    rw [ledgerNext, Ledger.queue_next, TransactionQueue.next, if_neg (by simp [request, hRst])]
    simp [request, hUnread, hSome]
  have hFilled : s.emptyComb = false := eq_false_of_ne_true (mt h.emptyComb_iff.mp hSome)
  have hStill : (s.clock i).emptyComb = false := eq_false_of_ne_true (mt (h.next hOrder).emptyComb_iff.mp hKept)
  have hSeen : (s.clock i).emptyReg = false := by simp [clock, hRst, hFilled]
  change (s.clock i).reads j = true
  simp [reads, hReq, hSeen, hStill]

/-- After a reset, in every cycle the buffer agrees with the queue, what it shows as valid is the oldest of the
accepted words, and while there is one, a reader that asks for it gets it in this cycle or in the next. -/
theorem behaves_as_queue (reset : BufferIn α) (hReset : reset.rstN = false) (inputs : List (BufferIn α))
    (hOrder : ∀ i ∈ inputs, ¬(i.dAccept = true ∧ i.dDrop = true)) (s : DroppingBuffer a α) :
    let p := run (watch clock ledgerNext) inputs (Ledger.empty, s.clock reset)
    p.2.Agrees p.1 ∧
      (∀ i, (p.2.clock i).dValidO = true → p.1.queue.committed.head? = some (p.2.clock i).dO) ∧
      ∀ i j, i.rstN = true → ¬(i.dAccept = true ∧ i.dDrop = true) → p.1.queue.committed ≠ [] → j.dReq = true →
        (p.2.clock i).dValidO = true ∨ ((p.2.clock i).clock j).dValidO = true := by
  have hStart : Holds Ledger.empty (s.clock reset) := ⟨Contains.reset reset hReset s, Ledger.balanced_empty⟩
  have hAlong : Along clock (fun i _ => ¬(i.dAccept = true ∧ i.dDrop = true)) inputs (s.clock reset) :=
    along_of_forall (fun i hi _ => hOrder i hi) _
  have hHolds : Holds _ (run (watch clock ledgerNext) inputs (Ledger.empty, s.clock reset)).2 :=
    watch_invariant (fun _ _ _ h hOk => Holds.next h hOk) inputs hStart hAlong
  refine ⟨hHolds.agrees, fun i hValid => hHolds.head_of_valid hValid, ?_⟩
  rintro i j hRst hApart hSome hReq
  exact hHolds.delivers hRst hApart hSome hReq

/-- Two words are written, the first is accepted and comes out. -/
theorem behaves_as_queue_twoWords :
    let start : BufferIn Nat := ⟨false, 0, false, false, false, false⟩
    let asks : BufferIn Nat := ⟨true, 0, false, false, false, true⟩
    let p := run (watch clock ledgerNext) [⟨true, 7, false, false, true, true⟩, ⟨true, 8, false, true, true, true⟩, asks]
      (Ledger.empty, (⟨0, 0, 0, true, fun _ => 0, 0, false⟩ : DroppingBuffer 2 Nat).clock start)
    p.2.Agrees p.1 ∧ p.1.queue.committed = [7] ∧ (p.2.clock asks).dValidO = true ∧ (p.2.clock asks).dO = 7 := by
  intro start asks p
  obtain ⟨hAgrees, hHead, -⟩ := behaves_as_queue (a := 2) start rfl
    [⟨true, 7, false, false, true, true⟩, ⟨true, 8, false, true, true, true⟩, asks] (by decide)
    ⟨0, 0, 0, true, fun _ => 0, 0, false⟩
  have hQueue : p.1.queue.committed = [7] := rfl
  have hOut : (p.2.clock asks).dValidO = true := rfl
  have hShown := hHead asks hOut
  rw [show _ = [7] from hQueue] at hShown
  exact ⟨hAgrees, hQueue, hOut, (Option.some.inj hShown).symm⟩

end DroppingBuffer

end WrRfDemo.Streamer

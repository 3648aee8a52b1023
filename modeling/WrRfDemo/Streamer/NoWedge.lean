import WrRfDemo.Streamer.HandOver

/-! # A full buffer can always be read

Words that are not yet committed can only be committed or dropped by further input, which a
full buffer stops. So some committed word must be readable whenever it is full: the words of
one subframe must leave room for one more.
-/

namespace WrRfDemo.Streamer

open Clocked

variable {a n : Nat} {cfg : RxConfig} {o : SubframeLog n} {s : RxCore a n} {i : RxCoreIn}

namespace RxCore

/-- The words written since the last accept or drop, with the one about to be written. -/
def standing (s : RxCore a n) : Nat :=
  s.buffer.uncommitted.length + if s.fsm.fifoDvalid && !s.fsm.fifoDrop then 1 else 0

/-- Words come only when asked for, no drop meets a delayed accept with words to commit, and the
subframe has at most `g_size - 2` data words. -/
def Fits (i : RxCoreIn) (p : SubframeLog n × RxCore a n) : Prop :=
  p.2.Requested i ∧ p.2.NoCollision ∧ (p.1.see i p.2).opened.length / n + 2 ≤ 2 ^ a

instance (i : RxCoreIn) (p : SubframeLog n × RxCore a n) : Decidable (Fits i p) :=
  inferInstanceAs (Decidable (_ ∧ _ ∧ _))

end RxCore

/-! ### Who writes -/

theorem write_of_pack (i : FsmIn) (f : RxFsm n) (hWrite : (f.pack i).fifoDvalid = true) :
    f.pendingWrite = true := by
  unfold RxFsm.pack at hWrite
  split_ifs at hWrite with hFull hAlmost
  exact hAlmost.2

theorem accept_of_pack (i : FsmIn) (f : RxFsm n) : (f.pack i).fifoAccept = false := by
  unfold RxFsm.pack
  split_ifs <;> rfl

/-- A word is about to be written and kept only after a word of the frame, with nothing written
in between. -/
theorem write_of_payload (i : FsmIn) (f : RxFsm n) (hFree : f.pendingWrite = true → f.fifoDvalid = false)
    (hWrite : (f.payload i).fifoDvalid = true) (hKeep : (f.payload i).fifoDrop = false) :
    i.dvalid = true ∧ f.fifoDvalid = false ∧
      ((f.payload i).fifoAccept = true → i.eof = false ∧ i.isEscape = true ∧ (closes i.data && i.crcMatch) = true) := by
  cases hOpen : i.eof with
  | true => simp [RxFsm.payload, hOpen] at hKeep
  | false =>
    cases hWord : i.dvalid with
    | false => simp [RxFsm.payload, hOpen, hWord] at hWrite
    | true =>
      cases hEscape : i.isEscape with
      | false =>
        have hNext : f.payload i = { f.pack i with fifoSync := !f.fifoDvalid && f.gotNextSubframe } := by
          simp [RxFsm.payload, hOpen, hWord, hEscape]
        rw [hNext] at hWrite ⊢
        refine ⟨rfl, hFree (write_of_pack i f hWrite), fun hAccept => ?_⟩
        rw [accept_of_pack] at hAccept
        cases hAccept
      | true =>
        cases hCloses : closes i.data with
        | false =>
          rw [(strobes_abort i f hOpen hWord hEscape hCloses).2] at hKeep
          cases hKeep
        | true =>
          obtain ⟨hAccept, -, hValid, -⟩ := strobes_close i f hOpen hWord hEscape hCloses
          rw [hValid] at hWrite
          simp only [Bool.and_eq_true, Bool.not_eq_true'] at hWrite
          exact ⟨rfl, hWrite.2, fun hIs => ⟨rfl, rfl, by rw [Bool.true_and, ← hAccept, hIs]⟩⟩

theorem Tracks.silent_outside (h : Tracks o s) (hRst : i.fsm.rstN = true) (hState : s.fsm.state ≠ .payload) :
    (s.clock cfg i).fsm.fifoDvalid = false := by
  change (s.fsm.pFsm cfg i.fsm).fifoDvalid = false
  cases hCase : s.fsm.state with
  | payload => exact absurd hCase hState
  | idle => simp [RxFsm.pFsm, hRst, hCase, RxFsm.idle]
  | eof => simp [RxFsm.pFsm, hRst, hCase]
  | header =>
    obtain ⟨-, -, hValid, -⟩ := h.calm (.inl hCase)
    simp [RxFsm.pFsm, hRst, hCase, (strobes_header cfg i.fsm s.fsm hCase).2.2.1, hValid]
  | subframeHeader =>
    obtain ⟨-, -, hValid, -⟩ := h.calm (.inr hCase)
    simp [RxFsm.pFsm, hRst, hCase, (strobes_subframeHeader i.fsm s.fsm hCase).2.2.1, hValid]

theorem Tracks.write (h : Tracks o s) (hRst : i.fsm.rstN = true)
    (hWrite : (s.clock cfg i).fsm.fifoDvalid = true) (hKeep : (s.clock cfg i).fsm.fifoDrop = false) :
    i.fsm.dvalid = true ∧ s.fsm.fifoDvalid = false ∧
      ((s.clock cfg i).fsm.fifoAccept = true →
        (o.see i s).committed = o.committed ++ completedWords n o.opened) := by
  by_cases hState : s.fsm.state = .payload
  · rw [clock_payload cfg hRst hState] at hWrite hKeep ⊢
    obtain ⟨hWord, hFree, hAccepts⟩ := write_of_payload i.fsm s.fsm (h.payload hState).free hWrite hKeep
    refine ⟨hWord, hFree, fun hAccept => ?_⟩
    obtain ⟨hOpen, hEscape, hVerdict⟩ := hAccepts hAccept
    rw [(see_payload hState).2]
    simp [SubframeLog.follow, hOpen, hWord, hEscape, hVerdict]
  · rw [h.silent_outside hRst hState] at hWrite
    cases hWrite

/-! ### How much stands -/

theorem Tracks.room (h : Tracks o s) (hAsked : s.Requested i) (hOrder : s.NoCollision) :
    (s.clock cfg i).HasRoom := by
  intro hWrite hKeep
  obtain ⟨hWord, hFree, -⟩ := h.write hAsked.1 hWrite hKeep
  obtain ⟨C, P, hContains, -⟩ := h.ring
  have hNotFull := hAsked.2 hWord
  have hFits := hContains.fits
  have hNext := hContains.clock (i := s.bufferIn i) hAsked.1
    fun hDrop hD0 => hContains.pending_of_eq (hOrder hDrop hD0)
  rw [Bool.eq_false_iff, ne_eq, hContains.full_iff] at hNotFull
  rw [Bool.eq_false_iff, ne_eq]
  change ¬(s.buffer.clock (s.bufferIn i)).full = true
  rw [hNext.full_iff]
  have hPending : (DroppingBuffer.pendingNext (s.bufferIn i) s.buffer P).length +
      (if s.fifoAcceptD0 then P else []).length ≤ P.length := by
    cases hDrop : s.fsm.fifoDrop <;> cases hD0 : s.fifoAcceptD0 <;>
      simp [DroppingBuffer.pendingNext, RxCore.bufferIn, hDrop, hD0, hFree]
  have hCommitted : (if s.buffer.reads (s.bufferIn i) then C.tail else C).length ≤ C.length := by
    split_ifs
    · simp
    · exact Nat.le_refl _
  have hD0 : (s.bufferIn i).dAccept = s.fifoAcceptD0 := rfl
  rw [List.length_append, hD0]
  omega

structure Bounded (o : SubframeLog n) (s : RxCore a n) : Prop where
  tracks : Tracks o s
  room : s.HasRoom
  subframe : o.opened.length / n + 2 ≤ 2 ^ a
  standing : s.standing + 2 ≤ 2 ^ a

theorem length_issuedWords_le (n : Nat) (halves : List (BitVec 16)) :
    (issuedWords n halves).length ≤ halves.length / n := by
  simpa [issuedWords] using issuedCount_le n halves.length

theorem uncommitted_le (cfg : RxConfig) (h : Tracks o s) (hOk : s.Orderly i) :
    (s.clock cfg i).buffer.uncommitted.length ≤ s.standing := by
  obtain ⟨C, P, hContains, -⟩ := h.ring
  obtain ⟨hRst, -, hOrder⟩ := hOk
  have hNext := hContains.clock (i := s.bufferIn i) hRst
    fun hDrop hD0 => hContains.pending_of_eq (hOrder hDrop hD0)
  change (s.buffer.clock (s.bufferIn i)).uncommitted.length ≤ _
  rw [hNext.uncommitted, RxCore.standing, hContains.uncommitted]
  cases hDrop : s.fsm.fifoDrop <;> cases hD0 : s.fifoAcceptD0 <;> cases hValid : s.fsm.fifoDvalid <;>
    cases hFull : s.buffer.full <;>
      simp [DroppingBuffer.pendingNext, RxCore.bufferIn, hDrop, hD0, hValid, hFull]

theorem Bounded.standing_step (h : Bounded o s) (hn : 2 ≤ n ∧ n ≤ 16) (hOk : s.Orderly i)
    (hSubframe : (o.see i s).opened.length / n + 2 ≤ 2 ^ a) :
    (s.clock cfg i).standing + 2 ≤ 2 ^ a := by
  have hLess := uncommitted_le cfg h.tracks hOk
  have hStanding := h.standing
  cases hWrite : (s.clock cfg i).fsm.fifoDvalid && !(s.clock cfg i).fsm.fifoDrop with
  | false =>
    rw [RxCore.standing, hWrite]
    simp
    omega
  | true =>
    rw [RxCore.standing, hWrite, if_pos rfl]
    simp only [Bool.and_eq_true, Bool.not_eq_true'] at hWrite
    obtain ⟨hValid, hKeep⟩ := hWrite
    obtain ⟨-, -, hVerdict⟩ := h.tracks.write hOk.1 hValid hKeep
    obtain ⟨C, P, hContains, hExecuted⟩ := h.tracks.executed cfg hOk
    have hTracks : Tracks (o.see i s) (s.clock cfg i) := h.tracks.step hn hOk
    obtain ⟨C', P', hContains', hStrobes⟩ := hTracks.ring
    rw [← hContains'.readable, ← hContains'.uncommitted, hContains.readable, hContains.uncommitted] at hStrobes
    rw [hContains.uncommitted]
    have hList : (s.clock cfg i).fsm.dinList = [(s.clock cfg i).fsm.fifoDin] := by
      rw [RxFsm.dinList, hValid, if_pos rfl]
    cases hAccept : (s.clock cfg i).fsm.fifoAccept with
    | false =>
      cases hD0 : (s.clock cfg i).fifoAcceptD0 with
      | true =>
        rw [(hStrobes.committing hAccept hD0 hKeep).2] at hValid
        cases hValid
      | false =>
        have hIssued := congrArg List.length (hStrobes.quiet hAccept hD0 hKeep)
        have hShort := length_issuedWords_le n (o.see i s).opened
        rw [List.length_append, hList, List.length_singleton] at hIssued
        omega
    | true =>
      have hCommitted := hStrobes.committed
      rw [hAccept, if_pos rfl, hVerdict hAccept] at hCommitted
      have hSubframe' := h.subframe
      cases hExecuted with
      | settled hBefore hWords _ _ =>
        rw [hWords] at hCommitted
        have hLength := congrArg List.length (List.append_cancel_left hCommitted)
        rw [List.length_append, hList, List.length_singleton, completedWords, List.length_map,
          List.length_range] at hLength
        omega
      | moving hBefore _ _ _ =>
        rw [(hStrobes.accepting hAccept).2 hBefore] at hValid
        cases hValid

theorem Bounded.step (h : Bounded o s) (hn : 2 ≤ n ∧ n ≤ 16) (hOk : RxCore.Fits i (o, s)) :
    Bounded (o.see i s) (s.clock cfg i) := by
  obtain ⟨hAsked, hOrder, hSubframe⟩ := hOk
  have hOrderly : s.Orderly i := ⟨hAsked.1, h.room, hOrder⟩
  exact ⟨h.tracks.step hn hOrderly, h.tracks.room hAsked hOrder, hSubframe,
    h.standing_step hn hOrderly hSubframe⟩

theorem bounded_afterReset (hn : 2 ≤ n) (ha : 0 < a) (h : s.AfterReset) : Bounded (SubframeLog.empty n) s := by
  have hTwo : 2 ≤ 2 ^ a := Nat.one_lt_two_pow (Nat.ne_of_gt ha)
  obtain ⟨hWr, -, hBoundary⟩ := h.buffer
  refine ⟨tracks_afterReset hn h, ?_, by simpa [SubframeLog.empty] using hTwo, ?_⟩
  · intro hValid
    rw [h.fifoDvalid] at hValid
    cases hValid
  · simpa [RxCore.standing, h.fifoDvalid, DroppingBuffer.uncommitted, hWr, hBoundary, wordsFrom] using hTwo

theorem Bounded.readable (h : Bounded o s) (hFull : s.buffer.full = true) :
    s.buffer.boundary ≠ s.buffer.rdPtr := by
  obtain ⟨C, P, hContains, -⟩ := h.tracks.ring
  have hCount := hContains.full_iff.mp hFull
  have hStanding := h.standing
  rw [RxCore.standing, hContains.uncommitted] at hStanding
  intro hSame
  have hNone := hContains.emptyComb_iff.mp (by simp [DroppingBuffer.emptyComb, hSame])
  rw [hNone, List.length_nil] at hCount
  omega

/-- While every subframe leaves room for one more word and no drop meets a delayed accept with
words to commit, a full buffer always holds a word that can be read. -/
theorem never_wedged (hn : 2 ≤ n ∧ n ≤ 16) (ha : 0 < a) (s : RxCore a n) (hReset : s.AfterReset)
    (inputs : List RxCoreIn)
    (hAlong : Along (watch (RxCore.clock cfg) SubframeLog.see) RxCore.Fits inputs (SubframeLog.empty n, s)) :
    (run (RxCore.clock cfg) inputs s).buffer.full = true →
      (run (RxCore.clock cfg) inputs s).buffer.boundary ≠ (run (RxCore.clock cfg) inputs s).buffer.rdPtr := by
  have hStep : ∀ i (p : SubframeLog n × RxCore a n), Bounded p.1 p.2 → RxCore.Fits i p →
      Bounded (watch (RxCore.clock cfg) SubframeLog.see i p).1 (watch (RxCore.clock cfg) SubframeLog.see i p).2 :=
    fun _ _ h hOk => h.step hn hOk
  have hBounded := run_invariant hStep inputs (s := (SubframeLog.empty n, s))
    (bounded_afterReset hn.1 ha hReset) hAlong
  rw [run_watch_snd] at hBounded
  exact hBounded.readable

/-! ### Wedged -/

/-- A subframe of six data words, then its CRC, in a buffer of eight. -/
def sixWords : List FsmIn := (List.replicate 24 7 ++ [0x1234]).map plain

def fittingFrame : List RxCoreIn := unread (openedFrame ++ sixWords ++ [escaped 0x8001] ++ oneWord 2)

theorem never_wedged_sixWords :
    ((run (RxCore.clock rxConfig) fittingFrame blankCore).buffer.full = true →
      (run (RxCore.clock rxConfig) fittingFrame blankCore).buffer.boundary ≠
        (run (RxCore.clock rxConfig) fittingFrame blankCore).buffer.rdPtr) ∧
    (coreRun fittingFrame).2.buffer.readable.length = 6 :=
  ⟨never_wedged (by decide) (by decide) blankCore ⟨rfl, rfl, rfl, rfl, rfl, rfl, rfl, rfl⟩ fittingFrame
    (by decide +kernel), by decide +kernel⟩

/-- The seventh data word of a subframe fills the buffer for good; so does the word that a drop
leaves behind the boundary once it has been read. -/
theorem wedged :
    let tooLong := unread (openedFrame ++ (List.replicate 32 7).map plain)
    let lost := unread (brokenOff ++ [mark false false]) ++ List.replicate 3 ⟨mark false false, true⟩
    (∀ inputs ∈ [tooLong, lost], Along (RxCore.clock rxConfig) RxCore.Requested inputs blankCore ∧
      (coreRun inputs).2.buffer.full = true ∧
      (coreRun inputs).2.buffer.boundary = (coreRun inputs).2.buffer.rdPtr) ∧
    ¬ ∀ inputs : List RxCoreIn, Along (RxCore.clock rxConfig) RxCore.Requested inputs blankCore →
      (coreRun inputs).2.buffer.full = true →
      (coreRun inputs).2.buffer.boundary ≠ (coreRun inputs).2.buffer.rdPtr := by
  intro tooLong lost
  have hWedged : ∀ inputs ∈ [tooLong, lost],
      Along (RxCore.clock rxConfig) RxCore.Requested inputs blankCore ∧
      (coreRun inputs).2.buffer.full = true ∧
      (coreRun inputs).2.buffer.boundary = (coreRun inputs).2.buffer.rdPtr := by
    decide +kernel
  refine ⟨hWedged, fun h => ?_⟩
  obtain ⟨hAlong, hFull, hSame⟩ := hWedged tooLong List.mem_cons_self
  exact h tooLong hAlong hFull hSame

end WrRfDemo.Streamer

import WrRfDemo.Streamer.WholeBlocks

/-! # The receiver hands over whole blocks

The state machine, the delayed accept and the buffer together: whatever arrives, the words
that become readable are the completed words of the accepted subframes, in order.
-/

namespace WrRfDemo.Streamer

open Clocked

variable {a n : Nat} {cfg : RxConfig}

namespace RxCore

/-- Accepted words that the commit boundary has not reached yet. -/
def onTheWay (s : RxCore a n) : List (FifoWord n) :=
  if s.fsm.fifoAccept then s.buffer.uncommitted ++ s.fsm.dinList
  else if s.fifoAcceptD0 then s.buffer.uncommitted
  else []

/-- After reset, with the strobes low as they are at power-up. -/
structure AfterReset (s : RxCore a n) : Prop where
  state : s.fsm.state = .idle
  fifoAccept : s.fsm.fifoAccept = false
  fifoDrop : s.fsm.fifoDrop = false
  fifoDvalid : s.fsm.fifoDvalid = false
  fifoAcceptD0 : s.fifoAcceptD0 = false
  buffer : s.buffer.wrPtr = 0 ∧ s.buffer.rdPtr = 0 ∧ s.buffer.boundary = 0

/-- No drop meets a delayed accept that has words to commit. -/
def NoCollision (s : RxCore a n) : Prop :=
  s.fsm.fifoDrop = true → s.fifoAcceptD0 = true → s.buffer.wrPtr = s.buffer.boundary

/-- No word is written while the buffer is full. -/
def HasRoom (s : RxCore a n) : Prop :=
  s.fsm.fifoDvalid = true → s.fsm.fifoDrop = false → s.buffer.full = false

def Orderly (i : RxCoreIn) (s : RxCore a n) : Prop := i.fsm.rstN = true ∧ s.HasRoom ∧ s.NoCollision

/-- Out of reset, words come only while the buffer asks for them. -/
def Requested (i : RxCoreIn) (s : RxCore a n) : Prop :=
  i.fsm.rstN = true ∧ (i.fsm.dvalid = true → s.buffer.full = false)

instance (s : RxCore a n) : Decidable s.NoCollision := inferInstanceAs (Decidable (_ → _ → _))

instance (s : RxCore a n) : Decidable s.HasRoom := inferInstanceAs (Decidable (_ → _ → _))

instance (i : RxCoreIn) (s : RxCore a n) : Decidable (Orderly i s) := inferInstanceAs (Decidable (_ ∧ _ ∧ _))

instance (i : RxCoreIn) (s : RxCore a n) : Decidable (Requested i s) :=
  inferInstanceAs (Decidable (_ ∧ (_ → _)))

end RxCore

/-- The words accepted are those delivered, those readable and those on the way to the commit
boundary, which is not ahead of the write pointer. -/
structure SubframeLog.HandedOver (o : SubframeLog n) (s : RxCore a n) : Prop where
  words : o.committed = o.delivered ++ s.buffer.readable ++ s.onTheWay
  boundaryBehind : s.buffer.BoundaryBehind

/-! ### One cycle -/

structure Tracks (o : SubframeLog n) (s : RxCore a n) : Prop where
  ring : ∃ C P, s.buffer.Contains C P ∧ Strobes o s.fsm s.fifoAcceptD0 (o.delivered ++ C) P
  payload : s.fsm.state = .payload → s.fsm.Assembles o.opened
  outside : s.fsm.state ≠ .payload → o.opened = []
  idle : s.fsm.state = .idle → s.fsm.fifoAccept = false
  calm : s.fsm.state = .header ∨ s.fsm.state = .subframeHeader → s.fsm.fifoAccept = false ∧
    s.fsm.fifoDrop = false ∧ s.fsm.fifoDvalid = false ∧ s.fifoAcceptD0 = false ∧
    s.fsm.pendingWrite = false

variable {o : SubframeLog n} {s : RxCore a n} {i : RxCoreIn}

theorem Tracks.executed (cfg : RxConfig) (h : Tracks o s) (hOk : s.Orderly i) :
    ∃ C P, (s.clock cfg i).buffer.Contains C P ∧ Executed o s.fsm ((o.see i s).delivered ++ C) P := by
  obtain ⟨C, P, hContains, hStrobes⟩ := h.ring
  obtain ⟨hRst, hRoom, hCollide⟩ := hOk
  have hOrder : (s.bufferIn i).dDrop = true → (s.bufferIn i).dAccept = true → P = [] :=
    fun hDrop hD0 => hContains.pending_of_eq (hCollide hDrop hD0)
  refine ⟨_, _, hContains.clock hRst hOrder, ?_⟩
  have hDelivered : (o.see i s).delivered ++ ((if s.buffer.reads (s.bufferIn i) then C.tail else C) ++
      if s.fifoAcceptD0 then P else []) = o.delivered ++ C ++ if s.fifoAcceptD0 then P else [] := by
    cases hReads : s.buffer.reads (s.bufferIn i) with
    | false => simp [SubframeLog.see, hReads]
    | true =>
      have hHead := hContains.head_of_reads hReads
      cases C with
      | nil => cases hHead
      | cons v rest =>
        cases hHead
        simp [SubframeLog.see, hReads]
  have hPending : DroppingBuffer.pendingNext (s.bufferIn i) s.buffer P =
      if s.fsm.fifoDrop then [] else (if s.fifoAcceptD0 then [] else P) ++ s.fsm.dinList := by
    cases hDrop : s.fsm.fifoDrop with
    | true => simp [DroppingBuffer.pendingNext, RxCore.bufferIn, hDrop]
    | false =>
      cases hValid : s.fsm.fifoDvalid with
      | false => simp [DroppingBuffer.pendingNext, RxCore.bufferIn, RxFsm.dinList, hDrop, hValid]
      | true =>
        have hNotFull := hRoom hValid hDrop
        simp [DroppingBuffer.pendingNext, RxCore.bufferIn, RxFsm.dinList, hDrop, hValid, hNotFull]
  change Executed o s.fsm ((o.see i s).delivered ++ ((if s.buffer.reads (s.bufferIn i) then C.tail else C) ++
      if s.fifoAcceptD0 then P else [])) _
  rw [hDelivered, hPending]
  exact hStrobes.executed hOrder

theorem see_outside (hState : s.fsm.state ≠ .payload) :
    (o.see i s).opened = o.opened ∧ (o.see i s).committed = o.committed := by
  simp [SubframeLog.see, hState]

theorem see_payload (hState : s.fsm.state = .payload) :
    (o.see i s).opened = (o.follow i.fsm).opened ∧ (o.see i s).committed = (o.follow i.fsm).committed := by
  simp [SubframeLog.see, hState]

theorem strobes_header (cfg : RxConfig) (i : FsmIn) (f : RxFsm n) (hState : f.state = .header) :
    (f.header cfg i).fifoAccept = f.fifoAccept ∧ (f.header cfg i).fifoDrop = f.fifoDrop ∧
      (f.header cfg i).fifoDvalid = f.fifoDvalid ∧ (f.header cfg i).pendingWrite = f.pendingWrite ∧
      (f.header cfg i).state ≠ .payload := by
  unfold RxFsm.header RxFsm.headerWord
  split_ifs <;> simp [hState]

theorem strobes_subframeHeader (i : FsmIn) (f : RxFsm n) (hState : f.state = .subframeHeader) :
    (f.subframeHeader i).fifoAccept = false ∧ (f.subframeHeader i).fifoDrop = false ∧
      (f.subframeHeader i).fifoDvalid = f.fifoDvalid ∧ (f.subframeHeader i).pendingWrite = f.pendingWrite ∧
      (f.subframeHeader i).serCount = 0 ∧
      ((f.subframeHeader i).state = .payload → (f.subframeHeader i).gotNextSubframe = true) := by
  unfold RxFsm.subframeHeader RxFsm.checkSeqNo RxFsm.measureLatency
  dsimp only
  split_ifs <;> simp [hState]

theorem Tracks.step_outside (h : Tracks o s) (hn : 2 ≤ n ∧ n ≤ 16) (hOk : s.Orderly i)
    (hState : s.fsm.state ≠ .payload) : Tracks (o.see i s) (s.clock cfg i) := by
  obtain ⟨C, P, hContains, hExecuted⟩ := h.executed cfg hOk
  obtain ⟨hOpened, hCommitted⟩ := see_outside (o := o) (i := i) hState
  have hEmpty := h.outside hState
  have hRst := hOk.1
  have hFsm : (s.clock cfg i).fsm = s.fsm.pFsm cfg i.fsm := rfl
  have hClears : (s.clock cfg i).fsm.fifoAccept = false → (s.clock cfg i).fsm.fifoDrop = false →
      (s.clock cfg i).fsm.fifoDvalid = false →
      ∃ C P, (s.clock cfg i).buffer.Contains C P ∧
        Strobes (o.see i s) (s.clock cfg i).fsm (s.clock cfg i).fifoAcceptD0 ((o.see i s).delivered ++ C) P :=
    fun hAccept hDrop hValid => ⟨C, P, hContains,
      hExecuted.clears (by omega) hAccept hDrop hValid hCommitted ⟨hEmpty, hOpened.trans hEmpty⟩⟩
  cases hCase : s.fsm.state with
  | payload => exact absurd hCase hState
  | idle =>
    have hD0 : (s.clock cfg i).fifoAcceptD0 = false := h.idle hCase
    have hNext : (s.clock cfg i).fsm = s.fsm.idle i.fsm := by simp [hFsm, RxFsm.pFsm, hRst, hCase]
    refine ⟨hClears ?_ ?_ ?_, ?_, fun _ => hOpened.trans hEmpty, ?_, ?_⟩ <;> rw [hNext] <;>
      cases hSof : i.fsm.sof <;> simp [RxFsm.idle, hSof, hD0]
  | eof =>
    have hNext : (s.clock cfg i).fsm = { s.fsm with
        fifoDvalid := false, fifoDrop := false, fifoAccept := false, state := .idle } := by
      simp [hFsm, RxFsm.pFsm, hRst, hCase]
    refine ⟨hClears ?_ ?_ ?_, ?_, fun _ => hOpened.trans hEmpty, ?_, ?_⟩ <;> rw [hNext] <;> simp
  | header =>
    obtain ⟨hAccept, hDrop, hValid, -, hPending⟩ := h.calm (.inl hCase)
    have hNext : (s.clock cfg i).fsm = s.fsm.header cfg i.fsm := by simp [hFsm, RxFsm.pFsm, hRst, hCase]
    obtain ⟨hAccept', hDrop', hValid', hPending', hNot⟩ := strobes_header cfg i.fsm s.fsm hCase
    have hD0 : (s.clock cfg i).fifoAcceptD0 = false := hAccept
    rw [hAccept] at hAccept'
    rw [hDrop] at hDrop'
    rw [hValid] at hValid'
    rw [hPending] at hPending'
    refine ⟨hClears ?_ ?_ ?_, ?_, fun _ => hOpened.trans hEmpty, ?_, ?_⟩ <;> rw [hNext]
    · exact hAccept'
    · exact hDrop'
    · exact hValid'
    · exact fun hIn => absurd hIn hNot
    · exact fun _ => hAccept'
    · exact fun _ => ⟨hAccept', hDrop', hValid', hD0, hPending'⟩
  | subframeHeader =>
    obtain ⟨hAccept, -, hValid, -, hPending⟩ := h.calm (.inr hCase)
    have hNext : (s.clock cfg i).fsm = s.fsm.subframeHeader i.fsm := by
      simp [hFsm, RxFsm.pFsm, hRst, hCase]
    obtain ⟨hAccept', hDrop', hValid', hPending', hSer, hGot⟩ := strobes_subframeHeader i.fsm s.fsm hCase
    have hD0 : (s.clock cfg i).fifoAcceptD0 = false := hAccept
    rw [hValid] at hValid'
    rw [hPending] at hPending'
    refine ⟨hClears ?_ ?_ ?_, ?_, fun _ => hOpened.trans hEmpty, ?_, ?_⟩ <;> rw [hNext]
    · exact hAccept'
    · exact hDrop'
    · exact hValid'
    · intro hIn
      rw [hOpened, hEmpty]
      exact RxFsm.assembles_nil hn.1 hSer hPending' (hGot hIn)
    · exact fun _ => hAccept'
    · exact fun _ => ⟨hAccept', hDrop', hValid', hD0, hPending'⟩

/-! ### One cycle of a subframe -/

/-- The closing escape word: the verdict goes to the strobes, and a waiting word is written. -/
theorem strobes_close (i : FsmIn) (f : RxFsm n) (hOpen : i.eof = false) (hWord : i.dvalid = true)
    (hEscape : i.isEscape = true) (hCloses : closes i.data = true) :
    (f.payload i).fifoAccept = i.crcMatch ∧ (f.payload i).fifoDrop = !i.crcMatch ∧
      (f.payload i).fifoDvalid = (f.pendingWrite && !f.fifoDvalid) ∧
      (f.payload i).fifoDin = ⟨f.fifoData, !f.fifoDvalid && f.gotNextSubframe, true⟩ := by
  unfold closes at hCloses
  unfold RxFsm.payload RxFsm.close RxFsm.checkSeqNo RxFsm.fifoDin
  simp only [hOpen, hWord, hEscape, Bool.false_eq_true, if_false, if_true]
  cases hHeader : i.data.msb with
  | true =>
    rw [if_pos rfl]
    split_ifs <;> simp
  | false =>
    have hEnd : i.data = 0x0bad := by simpa [hHeader] using hCloses
    simp [hEnd]

theorem strobes_abort (i : FsmIn) (f : RxFsm n) (hOpen : i.eof = false) (hWord : i.dvalid = true)
    (hEscape : i.isEscape = true) (hBad : closes i.data = false) :
    (f.payload i).fifoAccept = false ∧ (f.payload i).fifoDrop = true := by
  obtain ⟨hMsb, hEnd⟩ := Bool.or_eq_false_iff.mp hBad
  unfold RxFsm.payload RxFsm.close
  simp only [hOpen, hWord, hEscape, hMsb, Bool.false_eq_true, if_false, if_true]
  rw [if_neg (beq_eq_false_iff_ne.mp hEnd)]
  exact ⟨rfl, rfl⟩

theorem assembles_close (hn : 2 ≤ n) (i : FsmIn) (f : RxFsm n) (hState : f.state = .payload)
    (hOpen : i.eof = false) (hWord : i.dvalid = true) (hEscape : i.isEscape = true) :
    ((f.payload i).state = .payload → (f.payload i).Assembles []) ∧ (f.payload i).state ≠ .idle ∧
      (f.payload i).state ≠ .header ∧ (f.payload i).state ≠ .subframeHeader := by
  unfold RxFsm.payload RxFsm.close RxFsm.checkSeqNo
  simp only [hOpen, hWord, hEscape, Bool.false_eq_true, if_false, if_true]
  cases hHeader : i.data.msb with
  | true =>
    rw [if_pos rfl]
    split_ifs <;> refine ⟨fun _ => RxFsm.assembles_nil hn rfl rfl rfl, ?_, ?_, ?_⟩ <;> simp [hState]
  | false =>
    simp only [Bool.false_eq_true, if_false]
    split_ifs <;> simp

theorem payload_gap (i : FsmIn) (f : RxFsm n) (hEof : i.eof = false) (hWord : i.dvalid = false) :
    f.payload i = { f with fifoDvalid := false, fifoSync := !f.fifoDvalid && f.gotNextSubframe } := by
  simp [RxFsm.payload, hEof, hWord]

theorem strobes_pack (i : FsmIn) (f : RxFsm n) (hEof : i.eof = false) (hWord : i.dvalid = true)
    (hEscape : i.isEscape = false) :
    (f.payload i).fifoAccept = false ∧ (f.payload i).fifoDrop = false ∧ (f.payload i).state = f.state := by
  unfold RxFsm.payload RxFsm.pack
  simp only [hEof, hWord, hEscape, Bool.false_eq_true, if_false, if_true]
  split_ifs <;> exact ⟨rfl, rfl, rfl⟩

namespace RxFsm

variable {halves : List (BitVec 16)} {f : RxFsm n} {j : FsmIn}

theorem Assembles.gap (h : f.Assembles halves) (hEof : j.eof = false) (hWord : j.dvalid = false) :
    (f.payload j).Assembles halves := by
  rw [payload_gap j f hEof hWord]
  exact ⟨h.serCount, h.pendingWrite, h.gotNext, h.packData, h.fifoData, fun _ => rfl⟩

theorem Assembles.dinList_pack (h : f.Assembles halves) (hn : 2 ≤ n ∧ n ≤ 16) (hEof : j.eof = false)
    (hWord : j.dvalid = true) (hEscape : j.isEscape = false) :
    (f.payload j).dinList = if writesNext n halves.length then
      [⟨wordAt n halves (halves.length / n - 1), halves.length / n - 1 == 0, false⟩] else [] := by
  obtain ⟨-, hValid, hDin⟩ := h.pack hn hEof hWord hEscape
  rw [dinList, hValid]
  cases hWrites : writesNext n halves.length with
  | false => rfl
  | true => rw [if_pos rfl, if_pos rfl, hDin hWrites]

theorem Assembles.dinList_close (h : f.Assembles halves) (hn : 2 ≤ n) (hEof : j.eof = false)
    (hWord : j.dvalid = true) (hEscape : j.isEscape = true) (hCloses : closes j.data = true) :
    (f.payload j).dinList = if waits n halves.length then
      [⟨wordAt n halves (halves.length / n - 1), halves.length / n - 1 == 0, true⟩] else [] := by
  obtain ⟨-, -, hValid, hDin⟩ := strobes_close j f hEof hWord hEscape hCloses
  rw [dinList, hValid, hDin, h.pendingWrite]
  cases hWaits : waits n halves.length with
  | false => rfl
  | true =>
    have hReach : n ≤ halves.length := by
      simp only [waits, decide_eq_true_eq] at hWaits
      exact hWaits.1
    have hFree := h.free (h.pendingWrite.trans hWaits)
    rw [hFree, h.fifoData hReach, ← h.mark hn hWaits, hFree]
    rfl

end RxFsm

theorem Tracks.of_payload {C P : List (FifoWord n)} (hContains : (s.clock cfg i).buffer.Contains C P)
    (hStrobes : Strobes (o.see i s) (s.clock cfg i).fsm s.fsm.fifoAccept ((o.see i s).delivered ++ C) P)
    (hPayload : (s.clock cfg i).fsm.state = .payload → (s.clock cfg i).fsm.Assembles (o.see i s).opened)
    (hOutside : (s.clock cfg i).fsm.state ≠ .payload → (o.see i s).opened = [])
    (hIdle : (s.clock cfg i).fsm.state = .idle → (s.clock cfg i).fsm.fifoAccept = false)
    (hNot : (s.clock cfg i).fsm.state ≠ .header ∧ (s.clock cfg i).fsm.state ≠ .subframeHeader) :
    Tracks (o.see i s) (s.clock cfg i) :=
  ⟨⟨C, P, hContains, hStrobes⟩, hPayload, hOutside, hIdle,
    fun h => h.elim (fun hIs => absurd hIs hNot.1) fun hIs => absurd hIs hNot.2⟩

theorem clock_payload (cfg : RxConfig) (hRst : i.fsm.rstN = true) (hState : s.fsm.state = .payload) :
    (s.clock cfg i).fsm = s.fsm.payload i.fsm := by
  change s.fsm.pFsm cfg i.fsm = _
  simp [RxFsm.pFsm, hRst, hState]

theorem Tracks.step_eof (h : Tracks o s) (hn : 0 < n) (hOk : s.Orderly i) (hState : s.fsm.state = .payload)
    (hEof : i.fsm.eof = true) : Tracks (o.see i s) (s.clock cfg i) := by
  obtain ⟨C, P, hContains, hExecuted⟩ := h.executed cfg hOk
  obtain ⟨hOpened, hCommitted⟩ := see_payload (o := o) (i := i) hState
  have hNext : (s.clock cfg i).fsm = { s.fsm with
      state := .idle, fifoDrop := true, fifoAccept := false, gotNextSubframe := false,
      fifoSync := !s.fsm.fifoDvalid && s.fsm.gotNextSubframe } := by
    rw [clock_payload cfg hOk.1 hState]
    simp [RxFsm.payload, hEof]
  simp only [SubframeLog.follow, hEof, if_true] at hOpened hCommitted
  refine Tracks.of_payload hContains
    (hExecuted.aborts hn ?_ ?_ hCommitted hOpened) ?_ (fun _ => hOpened) ?_ ⟨?_, ?_⟩ <;>
    rw [hNext] <;> simp

theorem Tracks.step_gap (h : Tracks o s) (hOk : s.Orderly i) (hState : s.fsm.state = .payload)
    (hEof : i.fsm.eof = false) (hWord : i.fsm.dvalid = false) : Tracks (o.see i s) (s.clock cfg i) := by
  obtain ⟨C, P, hContains, hExecuted⟩ := h.executed cfg hOk
  obtain ⟨hOpened, hCommitted⟩ := see_payload (o := o) (i := i) hState
  have hNext := (clock_payload cfg hOk.1 hState).trans (payload_gap i.fsm s.fsm hEof hWord)
  have hAssembles := (h.payload hState).gap hEof hWord
  rw [payload_gap i.fsm s.fsm hEof hWord] at hAssembles
  simp only [SubframeLog.follow, hEof, hWord, Bool.false_eq_true, if_false] at hOpened hCommitted
  refine Tracks.of_payload hContains
    (hExecuted.holds ?_ ?_ ?_ hCommitted hOpened) ?_ ?_ ?_ ⟨?_, ?_⟩ <;> rw [hNext]
  · intro _
    rwa [hOpened]
  · exact fun hNot => absurd hState hNot
  · exact fun hIs => absurd (hState.symm.trans hIs) (by decide)
  · simp [hState]
  · simp [hState]

theorem Tracks.step_half (h : Tracks o s) (hn : 2 ≤ n ∧ n ≤ 16) (hOk : s.Orderly i) (hState : s.fsm.state = .payload)
    (hEof : i.fsm.eof = false) (hWord : i.fsm.dvalid = true) (hEscape : i.fsm.isEscape = false) :
    Tracks (o.see i s) (s.clock cfg i) := by
  obtain ⟨C, P, hContains, hExecuted⟩ := h.executed cfg hOk
  obtain ⟨hOpened, hCommitted⟩ := see_payload (o := o) (i := i) hState
  have hFsm := clock_payload cfg hOk.1 hState
  simp only [SubframeLog.follow, hEof, hWord, hEscape, Bool.false_eq_true, if_false, if_true] at hOpened hCommitted
  obtain ⟨hNext, -, -⟩ := (h.payload hState).pack hn hEof hWord hEscape
  obtain ⟨hAccept, hDrop, hSame⟩ := strobes_pack i.fsm s.fsm hEof hWord hEscape
  rw [hState] at hSame
  have hList := (h.payload hState).dinList_pack hn hEof hWord hEscape
  rw [← hFsm] at hList
  refine Tracks.of_payload hContains
    (hExecuted.packs hn.1 ?_ ?_ hList hCommitted hOpened) ?_ ?_ ?_ ⟨?_, ?_⟩ <;> rw [hFsm]
  · exact hAccept
  · exact hDrop
  · intro _
    rwa [hOpened]
  · exact fun hNot => absurd hSame hNot
  · exact fun hIs => absurd (hSame.symm.trans hIs) (by decide)
  · simp [hSame]
  · simp [hSame]

/-- An escaped word closes the subframe behind it, or else drops it. -/
theorem Tracks.step_escape (h : Tracks o s) (hn : 2 ≤ n ∧ n ≤ 16) (hOk : s.Orderly i) (hState : s.fsm.state = .payload)
    (hEof : i.fsm.eof = false) (hWord : i.fsm.dvalid = true) (hEscape : i.fsm.isEscape = true) :
    Tracks (o.see i s) (s.clock cfg i) := by
  obtain ⟨C, P, hContains, hExecuted⟩ := h.executed cfg hOk
  obtain ⟨hOpened, hCommitted⟩ := see_payload (o := o) (i := i) hState
  have hFsm := clock_payload cfg hOk.1 hState
  simp only [SubframeLog.follow, hEof, hWord, hEscape, Bool.false_eq_true, if_false, if_true] at hOpened hCommitted
  obtain ⟨hNext, hNotIdle, hNotHeader, hNotSub⟩ := assembles_close hn.1 i.fsm s.fsm hState hEof hWord hEscape
  cases hCloses : closes i.fsm.data with
  | true =>
    obtain ⟨hAccept, hDrop, -, -⟩ := strobes_close i.fsm s.fsm hEof hWord hEscape hCloses
    simp only [hCloses, Bool.true_and] at hCommitted
    have hList := (h.payload hState).dinList_close hn.1 hEof hWord hEscape hCloses
    rw [← hFsm] at hList
    refine Tracks.of_payload hContains
      (hExecuted.closes (by omega) ?_ ?_ hList hCommitted hOpened) ?_ (fun _ => hOpened) ?_
        ⟨?_, ?_⟩ <;> rw [hFsm]
    · exact hAccept
    · exact hDrop
    · rwa [hOpened]
    · exact fun hIs => absurd hIs hNotIdle
    · exact hNotHeader
    · exact hNotSub
  | false =>
    simp only [hCloses, Bool.false_and, Bool.false_eq_true, if_false, List.append_nil] at hCommitted
    have hStrobes := strobes_abort i.fsm s.fsm hEof hWord hEscape hCloses
    refine Tracks.of_payload hContains
      (hExecuted.aborts (by omega) ?_ ?_ hCommitted hOpened) ?_ (fun _ => hOpened) ?_
        ⟨?_, ?_⟩ <;> rw [hFsm]
    · exact hStrobes.1
    · exact hStrobes.2
    · rwa [hOpened]
    · exact fun hIs => absurd hIs hNotIdle
    · exact hNotHeader
    · exact hNotSub

theorem Tracks.step_payload (h : Tracks o s) (hn : 2 ≤ n ∧ n ≤ 16) (hOk : s.Orderly i)
    (hState : s.fsm.state = .payload) : Tracks (o.see i s) (s.clock cfg i) := by
  cases hEof : i.fsm.eof with
  | true => exact h.step_eof (by omega) hOk hState hEof
  | false =>
    cases hWord : i.fsm.dvalid with
    | false => exact h.step_gap hOk hState hEof hWord
    | true =>
      cases hEscape : i.fsm.isEscape with
      | false => exact h.step_half hn hOk hState hEof hWord hEscape
      | true => exact h.step_escape hn hOk hState hEof hWord hEscape

theorem Tracks.step (h : Tracks o s) (hn : 2 ≤ n ∧ n ≤ 16) (hOk : s.Orderly i) :
    Tracks (o.see i s) (s.clock cfg i) := by
  by_cases hState : s.fsm.state = .payload
  · exact h.step_payload hn hOk hState
  · exact h.step_outside hn hOk hState

/-! ### Whole runs -/

theorem tracks_afterReset (hn : 2 ≤ n) (h : s.AfterReset) : Tracks (SubframeLog.empty n) s := by
  obtain ⟨hWr, hRd, hBoundary⟩ := h.buffer
  have hContains : s.buffer.Contains [] [] := by
    refine ⟨Nat.two_pow_pos a, ?_, ?_, trivial⟩ <;> simp [hWr, hRd, hBoundary]
  have hNil := issuedWords_nil (show 0 < n by omega)
  refine ⟨⟨[], [], hContains, ?_⟩, ?_, fun _ => rfl, fun _ => h.fifoAccept, ?_⟩
  · constructor <;> simp [SubframeLog.empty, RxFsm.dinList, h.fifoAccept, h.fifoDrop, h.fifoDvalid,
      h.fifoAcceptD0, hNil]
  · simp [h.state]
  · simp [h.state]

theorem Tracks.handedOver (h : Tracks o s) : o.HandedOver s := by
  obtain ⟨C, P, hContains, hStrobes⟩ := h.ring
  refine ⟨?_, hContains.boundaryBehind⟩
  rw [hStrobes.committed, hContains.readable, RxCore.onTheWay, hContains.uncommitted]

/-- While no drop meets a delayed accept with words to commit, and none are written to a full
buffer, the words that become readable are the completed words of the accepted subframes. -/
theorem blocks_handed_over (hn : 2 ≤ n ∧ n ≤ 16) (s : RxCore a n) (hReset : s.AfterReset)
    (inputs : List RxCoreIn) (hAlong : Along (RxCore.clock cfg) RxCore.Orderly inputs s) :
    (run (watch (RxCore.clock cfg) SubframeLog.see) inputs (SubframeLog.empty n, s)).1.HandedOver
      (run (RxCore.clock cfg) inputs s) := by
  have hStep : ∀ (o : SubframeLog n) i (s : RxCore a n), Tracks o s → s.Orderly i →
      Tracks (o.see i s) (s.clock cfg i) := fun _ _ _ h hOk => h.step hn hOk
  have hTracks := watch_invariant hStep inputs (tracks_afterReset hn.1 hReset) hAlong
  rw [run_watch_snd] at hTracks
  exact hTracks.handedOver

/-! ### A frame that breaks off -/

def rxConfig : RxConfig := ⟨0, 0, 0xdbff, true, false⟩

def blankFsm : RxFsm 4 :=
  ⟨.idle, 0, 0, 0, false, false, 0, 0, false, false, false, false, false, false, false, false, 0, false, 0, false⟩

def blankCore : RxCore 3 4 := ⟨blankFsm, false, ⟨0, 0, 0, true, fun _ => ⟨0, false, false⟩, ⟨0, false, false⟩, false⟩⟩

def mark (sof eof : Bool) : FsmIn := ⟨true, sof, eof, false, 0, false, true, 0⟩

def plain (data : BitVec 16) : FsmIn := ⟨true, false, false, true, data, false, true, 0⟩

def escaped (data : BitVec 16) : FsmIn := ⟨true, false, false, true, data, true, true, 0⟩

def frameHead : List FsmIn := mark true false :: [0, 0, 0, 0, 0, 0, 0xdbff, 0, 0].map plain

def openedFrame : List FsmIn := frameHead ++ [escaped 0x8000]

def oneWord (value : BitVec 16) : List FsmIn := [value, 0, 0, 0, 0x1234].map plain

def unread (cycles : List FsmIn) : List RxCoreIn := cycles.map (⟨·, false⟩)

def coreRun (inputs : List RxCoreIn) : SubframeLog 4 × RxCore 3 4 :=
  run (watch (RxCore.clock rxConfig) SubframeLog.see) inputs (SubframeLog.empty 4, blankCore)

def twoSubframes : List RxCoreIn :=
  unread (openedFrame ++ oneWord 1 ++ [escaped 0x8001] ++ oneWord 2 ++ [escaped 0x0bad] ++
    List.replicate 3 (mark false false))

theorem blocks_handed_over_twoSubframes :
    (coreRun twoSubframes).1.HandedOver (run (RxCore.clock rxConfig) twoSubframes blankCore) ∧
    (coreRun twoSubframes).2.buffer.readable = [⟨1, true, true⟩, ⟨2, true, true⟩] :=
  ⟨blocks_handed_over (by decide) blankCore ⟨rfl, rfl, rfl, rfl, rfl, rfl, rfl, rfl⟩ twoSubframes
    (by decide +kernel), by decide +kernel⟩

/-- The frame breaks off right after an accepting header. -/
def brokenOff : List FsmIn := openedFrame ++ oneWord 1 ++ [escaped 0x8001, mark false true]

def overwriting : List RxCoreIn :=
  unread (brokenOff ++ [mark false false] ++ openedFrame ++ oneWord 2 ++ oneWord 3)

/-- The drop takes the write pointer behind the boundary that the delayed accept moves up, and the
next frame, whose own words are never accepted, overwrites the accepted word. -/
theorem block_overwritten :
    (coreRun overwriting).1.committed = [⟨1, true, true⟩] ∧ (coreRun overwriting).1.delivered = [] ∧
    (coreRun overwriting).2.buffer.readable = [⟨2, true, false⟩] ∧
    ¬ ∀ inputs : List RxCoreIn, Along (RxCore.clock rxConfig) RxCore.Requested inputs blankCore →
      (coreRun inputs).1.HandedOver (run (RxCore.clock rxConfig) inputs blankCore) := by
  have hCommitted : (coreRun overwriting).1.committed = [⟨1, true, true⟩] := by decide +kernel
  have hDelivered : (coreRun overwriting).1.delivered = [] := by decide +kernel
  have hReadable : (coreRun overwriting).2.buffer.readable = [⟨2, true, false⟩] := by decide +kernel
  refine ⟨hCommitted, hDelivered, hReadable, fun h => ?_⟩
  have hBehind := (h (unread (brokenOff ++ [mark false false])) (by decide +kernel)).boundaryBehind
  revert hBehind
  unfold DroppingBuffer.BoundaryBehind
  decide +kernel

end WrRfDemo.Streamer

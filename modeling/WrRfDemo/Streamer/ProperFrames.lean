import WrRfDemo.Streamer.Crc
import WrRfDemo.Streamer.NoWedge
import WrRfDemo.Streamer.Reading

/-! # Receiving proper frames

Frames that start when the last one is over, that end behind the word which closes them and
whose first escaped word is a header: from them the receiver hands over what the reader reads,
whatever their spacing, and no drop ever meets a delayed accept with words to commit.
-/

namespace WrRfDemo.Streamer

open Clocked

variable {κ : Type*} {a n : Nat} {cfg : RxConfig} {crc : CrcUnit κ}

namespace Reader

def Proper (e : FabEvent) (r : Reader κ n) : Prop :=
  (e.sof = true → r.phase = .idle ∧ e.word = none) ∧ (e.eof = true → r.phase = .tail ∧ e.word = none) ∧ r.Headed e

def ProperAll (cfg : RxConfig) (crc : CrcUnit κ) : Reader κ n → List FabEvent → Prop
  | _, [] => True
  | r, e :: rest => r.Proper e ∧ ProperAll cfg crc (r.step cfg crc e) rest

theorem proper_none (r : Reader κ n) : r.Proper .none := by
  refine ⟨?_, ?_, fun _ w hDecode => ?_⟩
  · simp [FabEvent.none]
  · simp [FabEvent.none]
  · simp [FabEvent.none, decode] at hDecode

theorem committed_step (r : Reader κ n) (e : FabEvent) : r.committed <+: (r.step cfg crc e).committed := by
  unfold step
  cases r.phase with
  | idle | tail => exact List.prefix_refl _
  | header count =>
    dsimp only
    split_ifs
    · exact List.prefix_refl _
    · cases e.word <;> exact List.prefix_refl _
  | subframeHeader =>
    dsimp only
    split_ifs
    · exact List.prefix_refl _
    · split <;> exact List.prefix_refl _
  | payload =>
    dsimp only
    split_ifs
    · exact List.prefix_refl _
    · split
      · exact List.prefix_refl _
      · exact List.prefix_refl _
      · exact List.prefix_append _ _

theorem committed_read (r : Reader κ n) (events : List FabEvent) :
    r.committed <+: (r.read cfg crc events).committed := by
  induction events generalizing r with
  | nil => exact List.prefix_refl _
  | cons e rest ih => exact (committed_step r e).trans (ih _)

end Reader

/-! ### The receiver -/

structure Serves (r : Reader κ n) (o : Reception n) (s : Receiver κ a n) : Prop where
  reads : Reads false r o s
  tracks : Tracks o.log s.core
  order : s.core.NoCollision
  room : s.core.HasRoom
  fresh : s.core.fsm.fifoAccept = true → s.core.fifoAcceptD0 = false → s.detector = .idle
  calm : r.phase = .idle → s.core.fsm.detectEscapes = false ∨ s.detector = .idle

variable {r : Reader κ n} {o : Reception n} {s : Receiver κ a n} {i : FabIn}

/-- Out of reset, words come only on request, and the bus is low where it would restart the CRC. -/
def Receiver.Served (i : FabIn) (s : Receiver κ a n) : Prop :=
  i.rstN = true ∧ (i.dvalid = true → s.core.buffer.full = false) ∧ s.NoIdleRestart i

instance (i : FabIn) (s : Receiver κ a n) : Decidable (s.Served i) :=
  inferInstanceAs (Decidable (_ ∧ (_ → _) ∧ _))

theorem Serves.clean (h : Serves r o s) (hServed : s.Served i) (hProper : r.Proper i.event) : s.Clean i := by
  obtain ⟨hRst, -, hBus⟩ := hServed
  refine ⟨hRst, hBus, fun hSof => ?_⟩
  obtain ⟨hPhase, hWord⟩ := hProper.1 hSof
  have hStands := h.reads.stands
  simp only [Stands, hPhase] at hStands
  have hQuiet : i.dvalid = false := by
    cases hValid : i.dvalid with
    | false => rfl
    | true => simp [FabIn.event, FabIn.word, hValid] at hWord
  refine ⟨by simp [hStands], fun _ => ?_⟩
  rcases h.calm hPhase with hOff | hIdle
  · simp [EscapeDetector.pFsm, Receiver.detectorIn, hOff]
  · simp [EscapeDetector.pFsm, Receiver.detectorIn, hIdle, hQuiet]

theorem Serves.phase_payload (h : Serves r o s) (hState : s.core.fsm.state = .payload) : r.phase = .payload := by
  have hStands := h.reads.stands
  cases hPhase : r.phase with
  | payload => rfl
  | idle | tail | header | subframeHeader => simp [Stands, hPhase, hState] at hStands

/-- An accept leaves a drop in the next cycle nothing to throw away. -/
theorem Serves.order_step (h : Serves r o s) (hServed : s.Served i) (hProper : r.Proper i.event) :
    (s.clock cfg crc i).core.NoCollision := by
  intro hDrop hD0
  have hAccept : s.core.fsm.fifoAccept = true := hD0
  have hRst : (s.fsmIn crc i).rstN = true := hServed.1
  obtain ⟨C, P, hContains, hStrobes⟩ := h.tracks.ring
  have hNoDrop := hStrobes.exclusive hAccept
  have hNext := hContains.clock (i := s.core.bufferIn (s.coreIn crc i)) hRst
    fun hDrop hD0 => hContains.pending_of_eq (h.order hDrop hD0)
  rw [fsm_clock] at hDrop
  cases hState : s.core.fsm.state with
  | idle => simp [RxFsm.pFsm, RxFsm.idle, hRst, hState] at hDrop
  | eof => simp [RxFsm.pFsm, hRst, hState] at hDrop
  | header =>
    rw [(h.tracks.calm (.inl hState)).1] at hAccept
    cases hAccept
  | subframeHeader =>
    rw [(h.tracks.calm (.inr hState)).1] at hAccept
    cases hAccept
  | payload =>
    have hOpen : (s.fsmIn crc i).eof = false := by
      cases hEof : i.eof || i.error with
      | false => exact hEof
      | true =>
        have hTail := (hProper.2.1 hEof).1
        rw [h.phase_payload hState] at hTail
        cases hTail
    have hWordEscape : (s.fsmIn crc i).dvalid = true ∧ (s.fsmIn crc i).isEscape = true := by
      cases hWord : (s.fsmIn crc i).dvalid with
      | false => simp [RxFsm.pFsm, RxFsm.payload, hRst, hState, hOpen, hWord, hNoDrop] at hDrop
      | true =>
        cases hEscape : (s.fsmIn crc i).isEscape with
        | true => exact ⟨rfl, rfl⟩
        | false =>
          simp only [RxFsm.pFsm, RxFsm.payload, RxFsm.pack, hRst, hState, hOpen, hWord, hEscape, Bool.not_true,
            Bool.false_eq_true, if_false, if_true] at hDrop
          split_ifs at hDrop
    have hCommitting : s.core.fifoAcceptD0 = true := by
      cases hOld : s.core.fifoAcceptD0 with
      | true => rfl
      | false =>
        have hEscape := hWordEscape.2
        simp [Receiver.fsmIn, Receiver.isEscape, EscapeDetector.dEscapeO, h.fresh hAccept hOld] at hEscape
    have hNone : DroppingBuffer.pendingNext (s.core.bufferIn (s.coreIn crc i)) s.core.buffer P = [] := by
      simp [DroppingBuffer.pendingNext, RxCore.bufferIn, hNoDrop, hCommitting,
        (hStrobes.accepting hAccept).2 hCommitting]
    rw [hNone] at hNext
    have hSame := hNext.wrPtr_eq
    simp only [List.length_nil, BitVec.add_zero] at hSame
    exact hSame

/-- A new accept comes from an escaped word, after which no escape is pending. -/
theorem fresh_step (hServed : s.Served i)
    (hAccept : (s.clock cfg crc i).core.fsm.fifoAccept = true)
    (hD0 : (s.clock cfg crc i).core.fifoAcceptD0 = false) : (s.clock cfg crc i).detector = .idle := by
  have hBefore : s.core.fsm.fifoAccept = false := hD0
  have hRst : (s.fsmIn crc i).rstN = true := hServed.1
  rw [fsm_clock] at hAccept
  cases hState : s.core.fsm.state with
  | idle => simp [RxFsm.pFsm, RxFsm.idle, hRst, hState] at hAccept
  | eof => simp [RxFsm.pFsm, hRst, hState] at hAccept
  | header =>
    simp only [RxFsm.pFsm, hRst, hState, Bool.not_true, Bool.false_eq_true, if_false,
      (strobes_header cfg (s.fsmIn crc i) s.core.fsm hState).1, hBefore] at hAccept
  | subframeHeader =>
    simp only [RxFsm.pFsm, hRst, hState, Bool.not_true, Bool.false_eq_true, if_false,
      (strobes_subframeHeader (s.fsmIn crc i) s.core.fsm hState).1] at hAccept
  | payload =>
    have hEscaped : (s.fsmIn crc i).dvalid = true ∧ (s.fsmIn crc i).isEscape = true := by
      cases hOpen : (s.fsmIn crc i).eof with
      | true => simp [RxFsm.pFsm, RxFsm.payload, hRst, hState, hOpen] at hAccept
      | false =>
        cases hWord : (s.fsmIn crc i).dvalid with
        | false => simp [RxFsm.pFsm, RxFsm.payload, hRst, hState, hOpen, hWord, hBefore] at hAccept
        | true =>
          cases hEscape : (s.fsmIn crc i).isEscape with
          | true => exact ⟨rfl, rfl⟩
          | false =>
            simp only [RxFsm.pFsm, RxFsm.payload, hRst, hState, hOpen, hWord, hEscape, Bool.not_true,
              Bool.false_eq_true, if_false, if_true, accept_of_pack] at hAccept
    have hWord : i.dvalid = true := by
      have := hEscaped.1
      simp only [Receiver.fsmIn, EscapeDetector.dValidO, Receiver.detectorIn, Bool.and_eq_true] at this
      exact this.1
    have hPending : s.detector = .checkEscape := by
      have := hEscaped.2
      simp only [Receiver.fsmIn, Receiver.isEscape, EscapeDetector.dEscapeO, Bool.and_eq_true, beq_iff_eq] at this
      exact this.1
    simp [Receiver.clock, EscapeDetector.pFsm, Receiver.detectorIn, hPending, hWord]

theorem Serves.calm_step (h : Serves r o s) (hServed : s.Served i) (hProper : r.Proper i.event)
    (hPhase : (r.step cfg crc i.event).phase = .idle) :
    (s.clock cfg crc i).core.fsm.detectEscapes = false ∨ (s.clock cfg crc i).detector = .idle := by
  have hStands := h.reads.stands
  have hRst : (s.fsmIn crc i).rstN = true := hServed.1
  have hOff : s.core.fsm.state = .idle → (s.clock cfg crc i).core.fsm.detectEscapes = false := fun hState => by
    simp [fsm_clock, RxFsm.pFsm, RxFsm.idle, hRst, hState]
  cases hCase : r.phase with
  | idle =>
    simp only [Stands, hCase] at hStands
    exact .inl (hOff hStands)
  | tail =>
    simp only [Stands, hCase] at hStands
    rcases hStands with hState | ⟨-, hDetector⟩
    · exact .inl (hOff hState)
    · have hSof : i.event.sof = false := by
        cases hSof : i.event.sof with
        | false => rfl
        | true =>
          have := (hProper.1 hSof).1
          rw [hCase] at this
          cases this
      have hEof : i.event.eof = true := by
        cases hEof : i.event.eof with
        | true => rfl
        | false => simp [Reader.step, hCase, hSof, hEof] at hPhase
      have hWord := (hProper.2.1 hEof).2
      have hQuiet : i.dvalid = false := by
        cases hValid : i.dvalid with
        | false => rfl
        | true => simp [FabIn.event, FabIn.word, hValid] at hWord
      exact .inr (by simp [Receiver.clock, EscapeDetector.pFsm, Receiver.detectorIn, hDetector, hQuiet])
  | header count =>
    simp only [Stands, hCase] at hStands
    obtain ⟨-, -, -, hDetect, -⟩ := hStands
    exact .inr (by simp [Receiver.clock, EscapeDetector.pFsm, Receiver.detectorIn, hDetect])
  | subframeHeader =>
    have hEof : i.event.eof = false := by
      cases hEof : i.event.eof with
      | false => rfl
      | true =>
        have := (hProper.2.1 hEof).1
        rw [hCase] at this
        cases this
    simp only [Reader.step, hCase, hEof, Bool.false_eq_true, if_false] at hPhase
    split at hPhase <;> simp [Reader.receive, hCase] at hPhase
  | payload =>
    have hEof : i.event.eof = false := by
      cases hEof : i.event.eof with
      | false => rfl
      | true =>
        have := (hProper.2.1 hEof).1
        rw [hCase] at this
        cases this
    simp only [Reader.step, hCase, hEof, Bool.false_eq_true, if_false] at hPhase
    split at hPhase
    · simp [Reader.receive, hCase] at hPhase
    · simp [Reader.receive, hCase] at hPhase
    · dsimp only at hPhase
      split_ifs at hPhase

theorem Serves.step (h : Serves r o s) (hn : 2 ≤ n ∧ n ≤ 16) (hRestarts : Restarts crc) (hServed : s.Served i)
    (hProper : r.Proper i.event) : Serves (r.step cfg crc i.event) (o.see crc i s) (s.clock cfg crc i) := by
  have hOrderly : s.core.Orderly (s.coreIn crc i) := ⟨hServed.1, h.room, h.order⟩
  have hAsked : s.core.Requested (s.coreIn crc i) := by
    refine ⟨hServed.1, fun hWord => hServed.2.1 ?_⟩
    simp only [Receiver.coreIn, Receiver.fsmIn, EscapeDetector.dValidO, Receiver.detectorIn, Bool.and_eq_true] at hWord
    exact hWord.1
  exact ⟨h.reads.step (h.clean hServed hProper) (.inr ⟨rfl, hRestarts, hProper.2.2⟩),
    h.tracks.step hn hOrderly, h.order_step hServed hProper, h.tracks.room hAsked h.order,
    fresh_step hServed, h.calm_step hServed hProper⟩

theorem serves_init (hn : 2 ≤ n) (hReset : s.core.AfterReset) (hDetector : s.detector = .idle) :
    Serves (Reader.init s.crc) (Reception.empty n) s := by
  refine ⟨reads_init false hReset, tracks_afterReset hn hReset, ?_, ?_, fun _ _ => hDetector, fun _ => .inr hDetector⟩
  · intro hDrop
    rw [hReset.fifoDrop] at hDrop
    cases hDrop
  · intro hValid
    rw [hReset.fifoDvalid] at hValid
    cases hValid

theorem Serves.delivered_isPrefix (h : Serves r o s) : o.log.delivered <+: r.committed := by
  rw [← h.reads.committed, h.tracks.handedOver.words, List.append_assoc]
  exact List.prefix_append _ _

end WrRfDemo.Streamer

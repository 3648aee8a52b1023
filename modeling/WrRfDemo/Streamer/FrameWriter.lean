import WrRfDemo.Streamer.FrameEnd
import WrRfDemo.Streamer.Symbols

/-! # What the transmitter puts on the fabric

A word that the state machine presents goes out as one or two words. While the fabric keeps
asking when two are needed, they go out in the cycle in which the word is presented and in the
next, and nothing is lost or repeated.
-/

namespace WrRfDemo.Streamer

open Clocked

variable {κ : Type*} {n : Nat} {cfg : RxConfig} {crc : CrcUnit κ}

namespace Transmitter

/-- The outputs to the fabric source. -/
def event (i : TxIn n) (s : Transmitter n) : FabEvent where
  sof := s.sof
  eof := s.eof
  word := if s.inserter.dValidO (s.inserterIn i) then some (s.inserter.dO (s.inserterIn i)) else none

/-- The words that the presented word goes out as. -/
def presented (s : Transmitter n) : List (BitVec 16) :=
  if s.dvalid then
    if s.fsmEscape then [escapeCode, s.data]
    else if s.fsmEscapeEnable && s.data == escapeCode then [escapeCode, 0]
    else [s.data]
  else []

def pending (s : Transmitter n) : List (BitVec 16) :=
  if s.inserter.state = .insertEscape then [s.inserter.dPrev] else s.presented

def mark (s : Transmitter n) : List FabEvent := if s.sof || s.eof then [⟨s.sof, s.eof, none⟩] else []

def emits (i : TxIn n) (s : Transmitter n) : List FabEvent := if s.event i = .none then [] else [s.event i]

/-- The fabric asks when a presented word takes two cycles, and the CRC state never presents a word
twice. -/
def Unstalled (i : TxIn n) (s : Transmitter n) : Prop :=
  i.rstN = true ∧ (s.fsmEscapeEnable = true → s.twoWords = true → i.dReq = true) ∧
    (s.state = .crcWord → s.dvalid = true → s.dreq i = true)

instance (i : TxIn n) (s : Transmitter n) : Decidable (s.Unstalled i) :=
  inferInstanceAs (Decidable (_ ∧ (_ → _ → _) ∧ (_ → _ → _)))

structure Controlled (s : Transmitter n) : Prop where
  formed : s.Formed
  eof : s.state ≠ .idle → s.eof = false
  low : s.state = .idle ∨ s.state = .sof → s.dvalid = false
  second : s.inserter.state = .insertEscape → s.dvalid = false ∧ s.inserter.dReqPrev = true ∧
    s.state ≠ .idle ∧ s.state ≠ .sof
  header : s.state = .sof ∨ s.state = .ethHeader → s.fsmEscapeEnable = false ∧ s.fsmEscape = false ∧ s.crcEn = false
  subframe : s.state = .subframeHeader → s.fsmEscape = false ∧ (s.crcEn = true → s.dvalid = false)
  enabled : s.state = .payload ∨ s.state = .crcWord ∨ s.state = .padding ∨ s.state = .eof →
    s.fsmEscapeEnable = true
  closed : s.state = .padding ∨ s.state = .eof → s.crcEn = false

variable {txc : TxConfig} {s : Transmitter n} {i : TxIn n}

theorem Controlled.enabled_of_escape (h : s.Controlled) (hValid : s.dvalid = true) (hEscape : s.fsmEscape = true) :
    s.fsmEscapeEnable = true := by
  cases hState : s.state with
  | idle =>
    rw [h.low (.inl hState)] at hValid
    cases hValid
  | sof =>
    rw [h.low (.inr hState)] at hValid
    cases hValid
  | ethHeader =>
    rw [(h.header (.inr hState)).2.1] at hEscape
    cases hEscape
  | subframeHeader =>
    rw [(h.subframe hState).1] at hEscape
    cases hEscape
  | payload | crcWord | padding | eof => exact h.enabled (by simp [hState])

theorem dreq_of_twoWords (hTwo : s.twoWords = true) : s.dreq i = false := by
  simp only [twoWords, Bool.and_eq_true, Bool.or_eq_true, beq_iff_eq] at hTwo
  rcases hTwo with ⟨hValid, hEscape | hCode⟩
  · simp [dreq, InserterIn.dReqO, InserterIn.twoWords, inserterIn, hValid, hEscape]
  · simp [dreq, InserterIn.dReqO, InserterIn.twoWords, inserterIn, hValid, hCode]

theorem clock_of_waiting (txc : TxConfig) (hRst : i.rstN = true) (hDreq : s.dreq i = false)
    (hState : s.state ≠ .idle ∧ s.state ≠ .sof ∧ s.state ≠ .crcWord) :
    (s.clock txc i).state = s.state ∧ (s.clock txc i).dvalid = false := by
  obtain ⟨hIdle, hSof, hCrc⟩ := hState
  cases hCase : s.state with
  | idle => exact absurd hCase hIdle
  | sof => exact absurd hCase hSof
  | crcWord => exact absurd hCase hCrc
  | ethHeader | subframeHeader | payload | padding | eof =>
    simp [clock, pFsm, hRst, hCase, hDreq, Transmitter.ethHeader, Transmitter.subframeHeader,
      Transmitter.payload, Transmitter.padding]

theorem Controlled.twoWords_state (h : s.Controlled) (hOk : s.Unstalled i) (hTwo : s.twoWords = true) :
    s.state ≠ .idle ∧ s.state ≠ .sof ∧ s.state ≠ .crcWord := by
  have hValid : s.dvalid = true := by
    simp only [twoWords, Bool.and_eq_true] at hTwo
    exact hTwo.1
  refine ⟨fun hState => ?_, fun hState => ?_, fun hState => ?_⟩
  · rw [h.low (.inl hState)] at hValid
    cases hValid
  · rw [h.low (.inr hState)] at hValid
    cases hValid
  · have := hOk.2.2 hState hValid
    rw [dreq_of_twoWords hTwo] at this
    cases this

theorem event_word (h : s.Controlled) : (s.event i).word = s.pending.head? := by
  cases hState : s.inserter.state with
  | insertEscape =>
    simp [event, pending, EscapeInserter.dValidO, EscapeInserter.dO, hState, (h.second hState).2.1]
  | idle =>
    cases hValid : s.dvalid <;> cases hEscape : s.fsmEscape <;> cases hEnable : s.fsmEscapeEnable <;>
      by_cases hCode : s.data = escapeCode <;>
        simp [event, pending, presented, EscapeInserter.dValidO, EscapeInserter.dO, inserterIn, hState, hValid,
          hEscape, hEnable, hCode]

/-- One word goes out, and what is presented next goes out after the rest. -/
theorem pending_clock (txc : TxConfig) (h : s.Controlled) (hOk : s.Unstalled i) :
    (s.clock txc i).pending = s.pending.tail ++ (s.clock txc i).presented ∧
      ((s.clock txc i).inserter.state = .insertEscape → (s.clock txc i).dvalid = false ∧
        (s.clock txc i).inserter.dReqPrev = true ∧ (s.clock txc i).state ≠ .idle ∧ (s.clock txc i).state ≠ .sof) := by
  have hRst := hOk.1
  have hInserter : (s.clock txc i).inserter = s.inserter.pFsm (s.inserterIn i) := rfl
  cases hState : s.inserter.state with
  | insertEscape =>
    have hReq := (h.second hState).2.1
    have hDone : (s.clock txc i).inserter.state = .idle := by
      rw [hInserter]
      cases hEnable : s.fsmEscapeEnable <;>
        simp [EscapeInserter.pFsm, inserterIn, hRst, hEnable, hState, hReq]
    simp [pending, hState, hDone]
  | idle =>
    cases hTwo : s.fsmEscapeEnable && s.twoWords with
    | false =>
      have hStay : (s.clock txc i).inserter.state = .idle := by
        rw [hInserter]
        cases hEnable : s.fsmEscapeEnable with
        | false => simp [EscapeInserter.pFsm, inserterIn, hRst, hEnable]
        | true =>
          rw [hEnable, Bool.true_and] at hTwo
          cases hValid : s.dvalid with
          | false => simp [EscapeInserter.pFsm, inserterIn, hRst, hEnable, hState, hValid]
          | true =>
            simp only [twoWords, hValid, Bool.true_and, Bool.or_eq_false_iff, beq_eq_false_iff_ne] at hTwo
            simp [EscapeInserter.pFsm, inserterIn, hRst, hEnable, hState, hValid, hTwo.1, hTwo.2]
      have hOne : s.presented.tail = [] := by
        unfold presented
        cases hValid : s.dvalid with
        | false => rfl
        | true =>
          cases hEscape : s.fsmEscape with
          | true => simp [h.enabled_of_escape hValid hEscape, twoWords, hValid, hEscape] at hTwo
          | false =>
            have hPlain : (s.fsmEscapeEnable && s.data == escapeCode) = false := by
              simpa [twoWords, hValid, hEscape] using hTwo
            simp [hPlain]
      refine ⟨?_, fun hIn => ?_⟩
      · simp [pending, hState, hStay, hOne]
      · rw [hStay] at hIn
        cases hIn
    | true =>
      obtain ⟨hEnable, hTwo⟩ := Bool.and_eq_true_iff.mp hTwo
      have hWhere := h.twoWords_state hOk hTwo
      obtain ⟨hSame, hWithdrawn⟩ := clock_of_waiting txc hRst (dreq_of_twoWords hTwo) hWhere
      have hReq := hOk.2.1 hEnable hTwo
      have hTwo' := hTwo
      simp only [twoWords, Bool.and_eq_true, Bool.or_eq_true, beq_iff_eq] at hTwo'
      obtain ⟨hValid, hKind⟩ := hTwo'
      have hNext : (s.clock txc i).inserter.state = .insertEscape ∧ (s.clock txc i).inserter.dReqPrev = true ∧
          [(s.clock txc i).inserter.dPrev] = s.presented.tail := by
        rw [hInserter]
        cases hEscape : s.fsmEscape with
        | true => simp [EscapeInserter.pFsm, inserterIn, presented, hRst, hEnable, hState, hValid, hEscape, hReq]
        | false =>
          have hCode : s.data = escapeCode := hKind.resolve_left (by simp [hEscape])
          simp [EscapeInserter.pFsm, inserterIn, presented, hRst, hEnable, hState, hValid, hEscape, hReq, hCode]
      refine ⟨?_, fun _ => ⟨hWithdrawn, hNext.2.1, by rw [hSame]; exact hWhere.1, by rw [hSame]; exact hWhere.2.1⟩⟩
      simp only [pending, hState, hNext.1, if_true, hNext.2.2]
      simp [presented, hWithdrawn]

theorem Controlled.pending_of_mark (h : s.Controlled) (hMark : (s.sof || s.eof) = true) : s.pending = [] := by
  have hLow : s.state = .idle ∨ s.state = .sof := by
    by_contra hNot
    rw [not_or] at hNot
    rw [h.formed.sof hNot.2, h.eof hNot.1] at hMark
    cases hMark
  have hStay : s.inserter.state ≠ .insertEscape := fun hIn =>
    hLow.elim (h.second hIn).2.2.1 (h.second hIn).2.2.2
  rw [pending, if_neg hStay, presented, h.low hLow, if_neg (by decide)]

/-- Behind the words on their way out come the mark of this cycle and what is presented next. -/
theorem Controlled.emits_append (h : s.Controlled) (hOk : s.Unstalled i) :
    s.emits i ++ (s.clock txc i).pending.map wordEvent =
      s.pending.map wordEvent ++ (s.mark ++ (s.clock txc i).presented.map wordEvent) := by
  have hEvent : s.event i = ⟨s.sof, s.eof, s.pending.head?⟩ := by
    rw [← event_word h]
    rfl
  rw [(pending_clock txc h hOk).1, List.map_append, emits, hEvent, mark]
  cases hMark : s.sof || s.eof with
  | true =>
    rw [h.pending_of_mark hMark]
    have hSome : (⟨s.sof, s.eof, none⟩ : FabEvent) ≠ .none := by
      intro hNone
      injection hNone with hSof hEof
      simp [hSof, hEof] at hMark
    simp [hSome]
  | false =>
    obtain ⟨hSof, hEof⟩ := Bool.or_eq_false_iff.mp hMark
    cases hPending : s.pending with
    | nil => simp [hSof, hEof, FabEvent.none]
    | cons w rest => simp [hSof, hEof, FabEvent.none, wordEvent]

/-- The control registers that go with the state, one state at a time. -/
def ControlsFit (s : Transmitter n) : Prop :=
  match s.state with
  | .idle => s.dvalid = false
  | .sof => s.eof = false ∧ s.dvalid = false ∧ s.fsmEscapeEnable = false ∧ s.fsmEscape = false ∧ s.crcEn = false
  | .ethHeader => s.eof = false ∧ s.fsmEscapeEnable = false ∧ s.fsmEscape = false ∧ s.crcEn = false
  | .subframeHeader => s.eof = false ∧ s.fsmEscape = false ∧ (s.crcEn = true → s.dvalid = false)
  | .payload | .crcWord => s.eof = false ∧ s.fsmEscapeEnable = true
  | .padding | .eof => s.eof = false ∧ s.fsmEscapeEnable = true ∧ s.crcEn = false

theorem Controlled.of_fit (hFormed : s.Formed) (hFit : s.ControlsFit)
    (hSecond : s.inserter.state = .insertEscape → s.dvalid = false ∧ s.inserter.dReqPrev = true ∧ s.state ≠ .idle ∧
      s.state ≠ .sof) : s.Controlled := by
  unfold ControlsFit at hFit
  cases hState : s.state with
  | subframeHeader =>
    rw [hState] at hFit
    obtain ⟨hEof, hSubframe⟩ := hFit
    refine ⟨hFormed, fun _ => hEof, ?_, hSecond, ?_, fun _ => hSubframe, ?_, ?_⟩ <;> simp [hState]
  | idle | sof | ethHeader | payload | crcWord | padding | eof =>
    rw [hState] at hFit
    refine ⟨hFormed, ?_, ?_, hSecond, ?_, ?_, ?_, ?_⟩ <;> simp [hState, hFit]

theorem Controlled.step (h : s.Controlled) (hn : 0 < n ∧ n ≤ 256) (hOk : s.Unstalled i) : (s.clock txc i).Controlled := by
  refine .of_fit (h.formed.step hn i) ?_ (pending_clock txc h hOk).2
  have hRst := hOk.1
  have hEof : s.state ≠ .idle → s.eof = false := h.eof
  cases hState : s.state with
  | idle =>
    have hLow := h.low (.inl hState)
    simp only [ControlsFit, clock, pFsm, hRst, hState, Transmitter.idle, Bool.not_true, Bool.false_eq_true, if_false]
    split_ifs <;> simp [hLow]
  | sof =>
    obtain ⟨hEnable, hEscape, hCrc⟩ := h.header (.inl hState)
    simp [ControlsFit, clock, pFsm, hRst, hState, hEof, hEnable, hEscape, hCrc]
  | ethHeader =>
    obtain ⟨hEnable, hEscape, hCrc⟩ := h.header (.inr hState)
    simp only [ControlsFit, clock, pFsm, hRst, hState, Transmitter.ethHeader, Bool.not_true, Bool.false_eq_true, if_false]
    split_ifs <;> simp [hState, hEof, hEnable, hEscape, hCrc]
  | subframeHeader =>
    have hEscape := (h.subframe hState).1
    cases hDreq : s.dreq i <;>
      simp [ControlsFit, clock, pFsm, hRst, hState, Transmitter.subframeHeader, hDreq, hEof, hEscape]
  | payload =>
    have hEnable := h.enabled (.inl hState)
    simp only [ControlsFit, clock, pFsm, hRst, hState, Transmitter.payload, Bool.not_true, Bool.false_eq_true, if_false]
    split_ifs <;> simp [hState, hEof, hEnable]
  | crcWord =>
    have hEnable := h.enabled (.inr (.inl hState))
    have hEscape := h.formed.crcWord hState
    simp only [ControlsFit, clock, pFsm, hRst, hState, Transmitter.crcWord, Bool.not_true, Bool.false_eq_true, if_false]
    split_ifs <;> simp [hState, hEof, hEnable, hEscape]
  | padding =>
    have hEnable := h.enabled (.inr (.inr (.inl hState)))
    have hCrc := h.closed (.inl hState)
    simp only [ControlsFit, clock, pFsm, hRst, hState, Transmitter.padding, Bool.not_true, Bool.false_eq_true, if_false]
    split_ifs <;> simp [hState, hEof, hEnable, hCrc]
  | eof =>
    have hEnable := h.enabled (.inr (.inr (.inr hState)))
    have hCrc := h.closed (.inr hState)
    cases hDreq : s.dreq i <;> simp [ControlsFit, clock, pFsm, hRst, hState, hDreq, hEof, hEnable, hCrc]

end Transmitter

end WrRfDemo.Streamer

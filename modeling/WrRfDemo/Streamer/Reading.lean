import WrRfDemo.Streamer.FrameReader
import WrRfDemo.Streamer.HandOver

/-! # The receiver reads frames

Cycle by cycle the receiver follows the frame reader: an idle cycle changes nothing that matters,
unless the bus makes the CRC unit restart, and a word is read as it would be without the idle
cycles before it.
-/

namespace WrRfDemo.Streamer

open Clocked

variable {κ : Type*} {a n : Nat} {cfg : RxConfig} {crc : CrcUnit κ}

/-- What comes out of the receiver, and what its CRC unit is shown. -/
structure Reception (n : Nat) where
  log : SubframeLog n
  crcEvents : List CrcEvent

namespace Reception

def empty (n : Nat) : Reception n := ⟨SubframeLog.empty n, []⟩

def see (crc : CrcUnit κ) (o : Reception n) (i : FabIn) (s : Receiver κ a n) : Reception n :=
  ⟨o.log.see (s.coreIn crc i) s.core, o.crcEvents ++ s.crcEvents crc i⟩

end Reception

namespace Receiver

/-- Between an escape code and the word it announces, no idle cycle has the top bit of the bus set. -/
def NoIdleRestart (i : FabIn) (s : Receiver κ a n) : Prop :=
  i.dvalid = false → s.detector = .checkEscape → i.data.msb = false

/-- A frame starts only once the last one is over, with no escape pending. -/
def Ready (i : FabIn) (s : Receiver κ a n) : Prop :=
  i.sof = true → s.core.fsm.state ≠ .eof ∧
    (s.core.fsm.state = .idle → s.detector.pFsm escapeCode (s.detectorIn i) = .idle)

/-- No word comes while the receiver winds up a frame. -/
def Quiet (i : FabIn) (s : Receiver κ a n) : Prop :=
  s.core.fsm.state = .eof ∨ s.core.fsm.state = .idle →
    s.core.fsm.crcEn = true ∨ s.detector = .checkEscape → i.dvalid = false

def Clean (i : FabIn) (s : Receiver κ a n) : Prop := i.rstN = true ∧ s.NoIdleRestart i ∧ s.Ready i

instance (i : FabIn) (s : Receiver κ a n) : Decidable (s.NoIdleRestart i) :=
  inferInstanceAs (Decidable (_ → _ → _))

instance (i : FabIn) (s : Receiver κ a n) : Decidable (s.Ready i) :=
  inferInstanceAs (Decidable (_ → _ ∧ (_ → _)))

instance (i : FabIn) (s : Receiver κ a n) : Decidable (s.Quiet i) :=
  inferInstanceAs (Decidable (_ → _ → _))

instance (i : FabIn) (s : Receiver κ a n) : Decidable (s.Clean i) :=
  inferInstanceAs (Decidable (_ ∧ _ ∧ _))

end Receiver

/-! ### What a cycle shows -/

def detectorOf (checking : Bool) : EscapeDetector := if checking then .checkEscape else .idle

variable {s : Receiver κ a n} {i : FabIn} {checking : Bool}

/-- The detector's outputs while it detects. -/
structure Shown (crc : CrcUnit κ) (checking : Bool) (i : FabIn) (s : Receiver κ a n) : Prop where
  dvalid : (s.fsmIn crc i).dvalid = (decode checking i.word).isSome
  word : ∀ w esc, decode checking i.word = some (w, esc) →
    (s.fsmIn crc i).data = w ∧ (s.fsmIn crc i).isEscape = esc
  crcEvents : s.core.fsm.crcEn = true → s.crcEvents crc i = crcEventsOf (decode checking i.word)
  detector : s.detector.pFsm escapeCode (s.detectorIn i) = detectorOf (checkingNext checking i.word)

theorem shown (crc : CrcUnit κ) (hClean : s.Clean i) (hDetect : s.core.fsm.detectEscapes = true)
    (hDetector : s.detector = detectorOf checking) : Shown crc checking i s := by
  obtain ⟨hRst, hNoRestart, -⟩ := hClean
  cases hWord : i.dvalid with
  | false =>
    have hNone : i.word = none := by simp [FabIn.word, hWord]
    have hLow : s.detector = .checkEscape → i.data.msb = false := hNoRestart hWord
    have hNoEvent : s.crcRestart crc i = false := by
      cases checking with
      | false => simp [Receiver.crcRestart, Receiver.isEscape, EscapeDetector.dEscapeO, hDetector, detectorOf]
      | true =>
        have hBit := hLow hDetector
        by_cases hZero : i.data = 0#16 <;>
          simp [Receiver.crcRestart, Receiver.isEscape, Receiver.fsmIn, Receiver.detectorIn,
            EscapeDetector.dEscapeO, EscapeDetector.dO, hDetector, detectorOf, hZero, hBit]
    have hLost : (s.fsmIn crc i).dvalid = false := by
      simp [Receiver.fsmIn, Receiver.detectorIn, EscapeDetector.dValidO, hWord]
    constructor
    · simp [hLost, hNone, decode]
    · simp [hNone, decode]
    · intro _
      simp [Receiver.crcEvents, Receiver.crcEnMasked, hNoEvent, hLost, hNone, decode, crcEventsOf]
    · cases checking <;> simp [EscapeDetector.pFsm, Receiver.detectorIn, hRst, hDetect, hWord, hDetector,
        hNone, checkingNext, detectorOf]
  | true =>
    have hSome : i.word = some i.data := by simp [FabIn.word, hWord]
    cases checking with
    | false =>
      by_cases hCode : i.data = escapeCode
      · constructor <;> simp [Receiver.crcEvents, Receiver.crcEnMasked, Receiver.crcRestart, Receiver.isEscape,
          Receiver.fsmIn, Receiver.detectorIn, EscapeDetector.dValidO, EscapeDetector.isEscapeCode,
          EscapeDetector.dEscapeO, EscapeDetector.pFsm, hDetector, detectorOf, hSome, hWord, decode,
          checkingNext, crcEventsOf, hCode, hDetect, hRst]
      · constructor <;> simp +contextual [Receiver.crcEvents, Receiver.crcEnMasked, Receiver.crcRestart,
          Receiver.isEscape, Receiver.fsmIn, Receiver.detectorIn, EscapeDetector.dValidO, EscapeDetector.dO,
          EscapeDetector.isEscapeCode, EscapeDetector.dEscapeO, EscapeDetector.pFsm, hDetector, detectorOf,
          hSome, hWord, decode, checkingNext, crcEventsOf, hCode, hDetect, hRst]
    | true =>
      by_cases hZero : i.data = 0#16 <;>
        constructor <;> simp +contextual [Receiver.crcEvents, Receiver.crcEnMasked, Receiver.crcRestart,
          Receiver.isEscape, Receiver.fsmIn, Receiver.detectorIn, EscapeDetector.dValidO, EscapeDetector.dO,
          EscapeDetector.isEscapeCode, EscapeDetector.dEscapeO, EscapeDetector.pFsm, hDetector, detectorOf,
          hSome, hWord, decode, checkingNext, crcEventsOf, hZero, hDetect, hRst]

/-! ### Receiver and reader side by side -/

def Stands (r : Reader κ n) (s : Receiver κ a n) : Prop :=
  match r.phase with
  | .idle => s.core.fsm.state = .idle
  | .tail => s.core.fsm.state = .idle ∨ s.core.fsm.state = .eof ∧ s.detector = .idle
  | .header count => s.core.fsm.state = .header ∧ s.core.fsm.count = count ∧ s.core.fsm.crcEn = false ∧
    s.core.fsm.detectEscapes = false ∧ s.detector = .idle
  | .subframeHeader => s.core.fsm.state = .subframeHeader ∧ s.core.fsm.crcEn = true ∧
    s.core.fsm.detectEscapes = true ∧ s.detector = detectorOf r.checking
  | .payload => s.core.fsm.state = .payload ∧ s.core.fsm.crcEn = true ∧
    s.core.fsm.detectEscapes = true ∧ s.detector = detectorOf r.checking

/-- In a `strict` reading the CRC unit agrees all the time, otherwise within the subframes. -/
structure Reads (strict : Bool) (r : Reader κ n) (o : Reception n) (s : Receiver κ a n) : Prop where
  stands : Stands r s
  committed : o.log.committed = r.committed
  opened : o.log.opened = r.opened
  crc : strict = true ∨ r.phase = .payload → s.crc = r.crc
  events : strict = true → o.crcEvents = r.crcEvents

/-- A restart forgets what came before. -/
def Restarts (crc : CrcUnit κ) : Prop := ∀ w k k', crc.take ⟨true, some w⟩ k = crc.take ⟨true, some w⟩ k'

/-- The first escaped word of a frame is a header. -/
def Reader.Headed (e : FabEvent) (r : Reader κ n) : Prop :=
  r.phase = .subframeHeader → ∀ w, decode r.checking e.word = some (w, true) → w.msb = true

variable {strict : Bool} {r : Reader κ n} {o : Reception n}

theorem fsm_clock (cfg : RxConfig) (crc : CrcUnit κ) (i : FabIn) (s : Receiver κ a n) :
    (s.clock cfg crc i).core.fsm = s.core.fsm.pFsm cfg (s.fsmIn crc i) := rfl

theorem crcEvents_quiet (hClean : s.Clean i) (hQuiet : s.Quiet i)
    (hState : s.core.fsm.state = .eof ∨ s.core.fsm.state = .idle) : s.crcEvents crc i = [] := by
  obtain ⟨-, hNoRestart, -⟩ := hClean
  cases hDetector : s.detector with
  | idle =>
    have hRestart : s.crcRestart crc i = false := by
      simp [Receiver.crcRestart, Receiver.isEscape, EscapeDetector.dEscapeO, hDetector]
    have hEn : s.crcEnMasked crc i = false := by
      cases hCrcEn : s.core.fsm.crcEn with
      | false => simp [Receiver.crcEnMasked, hCrcEn]
      | true =>
        simp [Receiver.crcEnMasked, Receiver.fsmIn, Receiver.detectorIn, EscapeDetector.dValidO,
          hQuiet hState (.inl hCrcEn)]
    simp [Receiver.crcEvents, hRestart, hEn]
  | checkEscape =>
    have hWord := hQuiet hState (.inr hDetector)
    have hBit := hNoRestart hWord hDetector
    have hRestart : s.crcRestart crc i = false := by
      by_cases hZero : i.data = 0#16 <;>
        simp [Receiver.crcRestart, Receiver.isEscape, Receiver.fsmIn, Receiver.detectorIn,
          EscapeDetector.dEscapeO, EscapeDetector.dO, hDetector, hZero, hBit]
    have hEn : s.crcEnMasked crc i = false := by
      simp [Receiver.crcEnMasked, Receiver.fsmIn, Receiver.detectorIn, EscapeDetector.dValidO, hWord]
    simp [Receiver.crcEvents, hRestart, hEn]

theorem Reads.of_outside {r' : Reader κ n} (h : Reads strict r o s)
    (hSame : r'.committed = r.committed ∧ r'.opened = r.opened ∧ r'.crc = r.crc ∧ r'.crcEvents = r.crcEvents)
    (hPhase : r'.phase ≠ .payload) (hState : s.core.fsm.state ≠ .payload)
    (hEvents : strict = true → s.crcEvents crc i = []) (hStands : Stands r' (s.clock cfg crc i)) :
    Reads strict r' (o.see crc i s) (s.clock cfg crc i) := by
  obtain ⟨hCommitted, hOpened, hCrc, hTrace⟩ := hSame
  obtain ⟨hLog, hWords⟩ := see_outside (o := o.log) (i := s.coreIn crc i) hState
  constructor
  · exact hStands
  · rw [hCommitted, ← h.committed]
    exact hWords
  · rw [hOpened, ← h.opened]
    exact hLog
  · rintro (hStrict | hIn)
    · rw [hCrc, ← h.crc (.inl hStrict)]
      simp [Receiver.clock, hEvents hStrict]
    · exact absurd hIn hPhase
  · intro hStrict
    rw [hTrace, ← h.events hStrict]
    simp [Reception.see, hEvents hStrict]

theorem idle_sof (i : FsmIn) (f : RxFsm n) (hSof : i.sof = true) :
    (f.idle i).state = .header ∧ (f.idle i).count = 0 ∧ (f.idle i).crcEn = false ∧
      (f.idle i).detectEscapes = false := by
  simp [RxFsm.idle, hSof]

theorem Reads.step_idle (h : Reads strict r o s) (hClean : s.Clean i) (hQuiet : strict = true → s.Quiet i)
    (hPhase : r.phase = .idle ∨ r.phase = .tail) :
    Reads strict (r.step cfg crc i.event) (o.see crc i s) (s.clock cfg crc i) := by
  have hState : s.core.fsm.state = .idle ∨ s.core.fsm.state = .eof ∧ s.detector = .idle := by
    have hStands := h.stands
    rcases hPhase with hPhase | hPhase <;> simp only [Stands, hPhase] at hStands
    · exact .inl hStands
    · exact hStands
  have hRst := hClean.1
  have hFields : (r.step cfg crc i.event).committed = r.committed ∧ (r.step cfg crc i.event).opened = r.opened ∧
      (r.step cfg crc i.event).crc = r.crc ∧ (r.step cfg crc i.event).crcEvents = r.crcEvents := by
    rcases hPhase with hPhase | hPhase <;> simp [Reader.step, hPhase]
  have hStart : i.sof = true → (r.step cfg crc i.event).phase = .header 0 := by
    intro hSof
    rcases hPhase with hPhase | hPhase <;> simp [Reader.step, hPhase, FabIn.event, hSof]
  have hRest : i.sof = false →
      (r.step cfg crc i.event).phase = .idle ∨ (r.step cfg crc i.event).phase = .tail := by
    intro hSof
    rcases hPhase with hPhase | hPhase
    · simp [Reader.step, hPhase, FabIn.event, hSof]
    · cases hEof : i.eof || i.error <;> simp [Reader.step, hPhase, FabIn.event, hSof, hEof]
  have hNotPayload : (r.step cfg crc i.event).phase ≠ .payload := by
    cases hSof : i.sof with
    | true => simp [hStart hSof]
    | false => rcases hRest hSof with hIs | hIs <;> simp [hIs]
  refine h.of_outside hFields hNotPayload ?_ (fun hStrict => crcEvents_quiet hClean (hQuiet hStrict) ?_) ?_
  · rcases hState with hState | ⟨hState, -⟩ <;> simp [hState]
  · exact hState.symm.imp_left And.left
  · cases hSof : i.sof with
    | true =>
      obtain ⟨hNotEof, hReset⟩ := hClean.2.2 hSof
      have hIdle : s.core.fsm.state = .idle := hState.resolve_right fun hEof => hNotEof hEof.1
      have hFsm : (s.clock cfg crc i).core.fsm = s.core.fsm.idle (s.fsmIn crc i) := by
        have hRst' : (s.fsmIn crc i).rstN = true := hRst
        simp [fsm_clock, RxFsm.pFsm, hRst', hIdle]
      obtain ⟨hState', hCount, hCrcEn, hDetect⟩ := idle_sof (s.fsmIn crc i) s.core.fsm hSof
      simp only [Stands, hStart hSof, hFsm]
      exact ⟨hState', hCount, hCrcEn, hDetect, hReset hIdle⟩
    | false =>
      have hFsm : (s.clock cfg crc i).core.fsm.state = .idle := by
        have hRst' : (s.fsmIn crc i).rstN = true := hRst
        have hSof' : (s.fsmIn crc i).sof = false := hSof
        rcases hState with hState | ⟨hState, -⟩ <;>
          simp [fsm_clock, RxFsm.pFsm, RxFsm.idle, hRst', hSof', hState]
      rcases hRest hSof with hIs | hIs <;> simp only [Stands, hIs]
      · exact hFsm
      · exact .inl hFsm

/-! ### The Ethernet header -/

theorem header_eof (cfg : RxConfig) (i : FsmIn) (f : RxFsm n) (hEof : i.eof = true) :
    (f.header cfg i).state = .idle := by
  simp [RxFsm.header, hEof]

theorem header_gap (cfg : RxConfig) (i : FsmIn) (f : RxFsm n) (hEof : i.eof = false) (hWord : i.dvalid = false) :
    f.header cfg i = f := by
  simp [RxFsm.header, hEof, hWord]

theorem header_word (cfg : RxConfig) (i : FsmIn) (f : RxFsm n) (hEof : i.eof = false) (hWord : i.dvalid = true)
    (hState : f.state = .header) (hOff : f.crcEn = false ∧ f.detectEscapes = false) :
    match Reader.headerPhase cfg f.count i.data with
    | .idle => (f.header cfg i).state = .idle
    | .header count => (f.header cfg i).state = .header ∧ (f.header cfg i).count = count ∧
      (f.header cfg i).crcEn = false ∧ (f.header cfg i).detectEscapes = false
    | .subframeHeader => (f.header cfg i).state = .subframeHeader ∧ (f.header cfg i).crcEn = true ∧
      (f.header cfg i).detectEscapes = true
    | _ => False := by
  simp only [RxFsm.header, hEof, hWord, Bool.false_eq_true, if_false, if_true, RxFsm.headerWord, Reader.headerPhase]
  by_cases hSeven : f.count = 7#4
  · simp [hSeven, hState, hOff]
  · by_cases hEight : f.count = 8#4
    · simp [hEight]
    · by_cases hReject : RxFsm.rejects cfg f.count i.data = true
      · simp [hSeven, hEight, hReject]
      · simp [hSeven, hEight, hReject, hState, hOff]

theorem Reads.step_header (h : Reads strict r o s) (hClean : s.Clean i) {count : BitVec 4}
    (hPhase : r.phase = .header count) :
    Reads strict (r.step cfg crc i.event) (o.see crc i s) (s.clock cfg crc i) := by
  have hStands := h.stands
  simp only [Stands, hPhase] at hStands
  obtain ⟨hState, hCount, hCrcEn, hDetect, hDetector⟩ := hStands
  have hRst : (s.fsmIn crc i).rstN = true := hClean.1
  have hFsm : (s.clock cfg crc i).core.fsm = s.core.fsm.header cfg (s.fsmIn crc i) := by
    simp [fsm_clock, RxFsm.pFsm, hRst, hState]
  have hIn : (s.fsmIn crc i).dvalid = i.dvalid ∧ (s.fsmIn crc i).data = i.data := by
    simp [Receiver.fsmIn, Receiver.detectorIn, EscapeDetector.dValidO, EscapeDetector.isEscapeCode,
      EscapeDetector.dO, hDetect, hDetector]
  have hNoEvent : s.crcEvents crc i = [] := by
    simp [Receiver.crcEvents, Receiver.crcRestart, Receiver.crcEnMasked, Receiver.isEscape,
      EscapeDetector.dEscapeO, hDetector, hCrcEn]
  have hDetector' : (s.clock cfg crc i).detector = .idle := by
    simp [Receiver.clock, EscapeDetector.pFsm, Receiver.detectorIn, hDetect]
  have hOutside : s.core.fsm.state ≠ .payload := by simp [hState]
  cases hEof : i.eof || i.error with
  | true =>
    have hNext : r.step cfg crc i.event = { r with phase := .idle } := by
      simp [Reader.step, hPhase, FabIn.event, hEof]
    rw [hNext]
    refine h.of_outside ⟨rfl, rfl, rfl, rfl⟩ (by simp) hOutside (fun _ => hNoEvent) ?_
    simp only [Stands, hFsm]
    exact header_eof cfg (s.fsmIn crc i) s.core.fsm hEof
  | false =>
    cases hWord : i.dvalid with
    | false =>
      have hNext : r.step cfg crc i.event = r := by
        simp [Reader.step, hPhase, FabIn.event, hEof, FabIn.word, hWord]
      rw [hNext]
      refine h.of_outside ⟨rfl, rfl, rfl, rfl⟩ (by simp [hPhase]) hOutside (fun _ => hNoEvent) ?_
      simp only [Stands, hPhase, hFsm, header_gap cfg (s.fsmIn crc i) s.core.fsm hEof (hIn.1.trans hWord)]
      exact ⟨hState, hCount, hCrcEn, hDetect, hDetector'⟩
    | true =>
      have hNext : r.step cfg crc i.event =
          { r with phase := Reader.headerPhase cfg count i.data, checking := false } := by
        simp [Reader.step, hPhase, FabIn.event, hEof, FabIn.word, hWord]
      have hStep := header_word cfg (s.fsmIn crc i) s.core.fsm hEof (hIn.1.trans hWord) hState ⟨hCrcEn, hDetect⟩
      rw [hIn.2, hCount] at hStep
      rw [hNext]
      refine h.of_outside ⟨rfl, rfl, rfl, rfl⟩ ?_ hOutside (fun _ => hNoEvent) ?_
      · intro hBad
        dsimp only at hBad
        simp [hBad] at hStep
      · simp only [Stands, hFsm]
        revert hStep
        cases Reader.headerPhase cfg count i.data <;> simp only [imp_self, false_imp_iff]
        · exact fun hStep => ⟨hStep.1, hStep.2.1, hStep.2.2.1, hStep.2.2.2, hDetector'⟩
        · exact fun hStep => ⟨hStep.1, hStep.2.1, hStep.2.2, hDetector'⟩

/-! ### The subframes -/

/-- What the CRC unit and the detector make of a cycle within the subframes. -/
theorem Reads.received (cfg : RxConfig) (crc : CrcUnit κ) (h : Reads strict r o s) (hClean : s.Clean i) (hAgree : s.crc = r.crc)
    (hOn : s.core.fsm.crcEn = true ∧ s.core.fsm.detectEscapes = true) (hDetector : s.detector = detectorOf r.checking) :
    (s.clock cfg crc i).crc = (r.receive crc i.word).crc ∧
      (strict = true → (o.see crc i s).crcEvents = (r.receive crc i.word).crcEvents) ∧
      (s.clock cfg crc i).detector = detectorOf (r.receive crc i.word).checking := by
  have hShown := shown crc hClean hOn.2 hDetector
  refine ⟨?_, fun hStrict => ?_, hShown.detector⟩
  · simp only [Receiver.clock, Reader.receive, hShown.crcEvents hOn.1, hAgree]
  · simp only [Reception.see, Reader.receive, hShown.crcEvents hOn.1, h.events hStrict]

theorem subframeHeader_state (i : FsmIn) (f : RxFsm n) :
    ((f.subframeHeader i).state = if i.eof then .idle else if i.dvalid && i.isEscape then .payload else f.state) ∧
      (f.subframeHeader i).crcEn = f.crcEn ∧ (f.subframeHeader i).detectEscapes = f.detectEscapes := by
  unfold RxFsm.subframeHeader RxFsm.measureLatency RxFsm.checkSeqNo
  dsimp only
  split_ifs <;> simp

theorem payload_state (i : FsmIn) (f : RxFsm n) :
    ((f.payload i).state = if i.eof then .idle
      else if i.dvalid && i.isEscape then (if i.data.msb then f.state else .eof) else f.state) ∧
      (f.payload i).crcEn = f.crcEn ∧ (f.payload i).detectEscapes = f.detectEscapes := by
  unfold RxFsm.payload RxFsm.close RxFsm.pack RxFsm.checkSeqNo
  dsimp only
  split_ifs <;> simp_all

theorem Reads.step_subframeHeader (h : Reads strict r o s) (hClean : s.Clean i)
    (hMode : strict = true ∨ Restarts crc ∧ r.Headed i.event) (hPhase : r.phase = .subframeHeader) :
    Reads strict (r.step cfg crc i.event) (o.see crc i s) (s.clock cfg crc i) := by
  have hStands := h.stands
  simp only [Stands, hPhase] at hStands
  obtain ⟨hState, hCrcEn, hDetect, hDetector⟩ := hStands
  have hShown := shown crc hClean hDetect hDetector
  have hRst : (s.fsmIn crc i).rstN = true := hClean.1
  have hFsm : (s.clock cfg crc i).core.fsm = s.core.fsm.subframeHeader (s.fsmIn crc i) := by
    simp [fsm_clock, RxFsm.pFsm, hRst, hState]
  obtain ⟨hNext, hCrcEn', hDetect'⟩ := subframeHeader_state (s.fsmIn crc i) s.core.fsm
  rw [← hFsm] at hNext hCrcEn' hDetect'
  rw [hCrcEn] at hCrcEn'
  rw [hDetect] at hDetect'
  obtain ⟨hOpened, hCommitted⟩ := see_outside (o := o.log) (i := s.coreIn crc i) (s := s.core) (by simp [hState])
  have hTrace : strict = true → (s.clock cfg crc i).crc = (r.receive crc i.word).crc ∧
      (o.see crc i s).crcEvents = (r.receive crc i.word).crcEvents := fun hStrict => by
    obtain ⟨hCrc, hEvents, -⟩ := h.received cfg crc hClean (h.crc (.inl hStrict)) ⟨hCrcEn, hDetect⟩ hDetector
    exact ⟨hCrc, hEvents hStrict⟩
  have hDetector' : (s.clock cfg crc i).detector = detectorOf (checkingNext r.checking i.word) := hShown.detector
  cases hEof : i.eof || i.error with
  | true =>
    have hStep : r.step cfg crc i.event = { r.receive crc i.word with phase := .idle } := by
      simp [Reader.step, hPhase, FabIn.event, hEof]
    have hEof' : (s.fsmIn crc i).eof = true := hEof
    rw [hEof', if_pos rfl] at hNext
    rw [hStep]
    exact ⟨hNext, hCommitted.trans h.committed, hOpened.trans h.opened,
      fun hWhen => hWhen.elim (fun hStrict => (hTrace hStrict).1) (fun hIn => by cases hIn),
      fun hStrict => (hTrace hStrict).2⟩
  | false =>
    have hEof' : (s.fsmIn crc i).eof = false := hEof
    simp only [hEof', Bool.false_eq_true, if_false] at hNext
    have hStay : (∀ w, decode r.checking i.word ≠ some (w, true)) →
        r.step cfg crc i.event = r.receive crc i.word ∧ (s.clock cfg crc i).core.fsm.state = .subframeHeader := by
      intro hNot
      cases hDecode : decode r.checking i.word with
      | none =>
        rw [hShown.dvalid, hDecode, hState] at hNext
        exact ⟨by simp [Reader.step, hPhase, FabIn.event, hEof, hDecode], hNext⟩
      | some shown =>
        obtain ⟨w, esc⟩ := shown
        cases esc with
        | true => exact absurd hDecode (hNot w)
        | false =>
          rw [hShown.dvalid, hDecode, (hShown.word w false hDecode).2, hState] at hNext
          exact ⟨by simp [Reader.step, hPhase, FabIn.event, hEof, hDecode], hNext⟩
    by_cases hEntry : ∃ w, decode r.checking i.word = some (w, true)
    · obtain ⟨w, hDecode⟩ := hEntry
      have hStep : r.step cfg crc i.event = { r.receive crc i.word with phase := .payload } := by
        simp [Reader.step, hPhase, FabIn.event, hEof, hDecode]
      rw [hShown.dvalid, hDecode, (hShown.word w true hDecode).2] at hNext
      rw [hStep]
      refine ⟨⟨hNext, hCrcEn', hDetect', hDetector'⟩, hCommitted.trans h.committed, hOpened.trans h.opened, ?_,
        fun hStrict => (hTrace hStrict).2⟩
      intro _
      rcases hMode with hStrict | ⟨hRestarts, hHeaded⟩
      · exact (hTrace hStrict).1
      · have hMsb : w.msb = true := hHeaded hPhase w hDecode
        simp only [Receiver.clock, Reader.receive, hShown.crcEvents hCrcEn, hDecode, crcEventsOf, hMsb,
          Bool.and_true, List.foldl_cons, List.foldl_nil]
        exact hRestarts w s.crc r.crc
    · obtain ⟨hStep, hSame⟩ := hStay fun w hDecode => hEntry ⟨w, hDecode⟩
      have hPhase' : (r.receive crc i.word).phase = .subframeHeader := hPhase
      rw [hStep]
      refine ⟨?_, hCommitted.trans h.committed, hOpened.trans h.opened,
        fun hWhen => hWhen.elim (fun hStrict => (hTrace hStrict).1) (fun hIn => ?_),
        fun hStrict => (hTrace hStrict).2⟩
      · simp only [Stands, hPhase']
        exact ⟨hSame, hCrcEn', hDetect', hDetector'⟩
      · rw [hPhase'] at hIn
        cases hIn

theorem Reads.step_payload (h : Reads strict r o s) (hClean : s.Clean i) (hPhase : r.phase = .payload) :
    Reads strict (r.step cfg crc i.event) (o.see crc i s) (s.clock cfg crc i) := by
  have hStands := h.stands
  simp only [Stands, hPhase] at hStands
  obtain ⟨hState, hCrcEn, hDetect, hDetector⟩ := hStands
  have hShown := shown crc hClean hDetect hDetector
  have hAgree := h.crc (.inr hPhase)
  have hRst : (s.fsmIn crc i).rstN = true := hClean.1
  have hFsm : (s.clock cfg crc i).core.fsm = s.core.fsm.payload (s.fsmIn crc i) := by
    simp [fsm_clock, RxFsm.pFsm, hRst, hState]
  obtain ⟨hNext, hCrcEn', hDetect'⟩ := payload_state (s.fsmIn crc i) s.core.fsm
  rw [← hFsm] at hNext hCrcEn' hDetect'
  rw [hCrcEn] at hCrcEn'
  rw [hDetect] at hDetect'
  obtain ⟨hOpened, hCommitted⟩ := see_payload (o := o.log) (i := s.coreIn crc i) (s := s.core) hState
  obtain ⟨hCrc, hEvents, hDetector'⟩ := h.received cfg crc hClean hAgree ⟨hCrcEn, hDetect⟩ hDetector
  have hMatch : (s.fsmIn crc i).crcMatch = crc.crcMatch r.crc := by rw [← hAgree]; rfl
  change (o.see crc i s).log.opened = (o.log.follow (s.fsmIn crc i)).opened at hOpened
  change (o.see crc i s).log.committed = (o.log.follow (s.fsmIn crc i)).committed at hCommitted
  cases hEof : i.eof || i.error with
  | true =>
    have hStep : r.step cfg crc i.event = { r.receive crc i.word with phase := .idle, opened := [] } := by
      simp [Reader.step, hPhase, FabIn.event, hEof]
    have hEof' : (s.fsmIn crc i).eof = true := hEof
    simp only [SubframeLog.follow, hEof', if_true] at hOpened hCommitted hNext
    rw [hStep]
    exact ⟨hNext, hCommitted.trans h.committed, hOpened, fun _ => hCrc, hEvents⟩
  | false =>
    have hEof' : (s.fsmIn crc i).eof = false := hEof
    simp only [SubframeLog.follow, hEof', Bool.false_eq_true, if_false, hShown.dvalid] at hOpened hCommitted hNext
    cases hDecode : decode r.checking i.word with
    | none =>
      have hStep : r.step cfg crc i.event = r.receive crc i.word := by
        simp [Reader.step, hPhase, FabIn.event, hEof, hDecode]
      have hPhase' : (r.receive crc i.word).phase = .payload := hPhase
      simp only [hDecode, Option.isSome_none, Bool.false_eq_true, if_false, Bool.false_and] at hOpened hCommitted hNext
      rw [hStep]
      refine ⟨?_, hCommitted.trans h.committed, hOpened.trans h.opened, fun _ => hCrc, hEvents⟩
      simp only [Stands, hPhase']
      exact ⟨hNext.trans hState, hCrcEn', hDetect', hDetector'⟩
    | some shown =>
      obtain ⟨w, esc⟩ := shown
      obtain ⟨hData, hEsc⟩ := hShown.word w esc hDecode
      simp only [hDecode, Option.isSome_some, if_true, hData, hEsc, Bool.true_and, hMatch] at hOpened hCommitted hNext
      cases esc with
      | false =>
        have hStep : r.step cfg crc i.event = { r.receive crc i.word with opened := r.opened ++ [w] } := by
          simp [Reader.step, hPhase, FabIn.event, hEof, hDecode]
        have hPhase' : (r.receive crc i.word).phase = .payload := hPhase
        simp only [Bool.false_eq_true, if_false] at hOpened hCommitted hNext
        rw [hStep]
        refine ⟨?_, hCommitted.trans h.committed, by rw [hOpened, h.opened], fun _ => hCrc, hEvents⟩
        simp only [Stands, hPhase']
        exact ⟨hNext.trans hState, hCrcEn', hDetect', hDetector'⟩
      | true =>
        have hStep : r.step cfg crc i.event = { r.receive crc i.word with
            phase := if w.msb then .payload else .tail
            opened := []
            committed := r.committed ++
              if closes w && crc.crcMatch r.crc then completedWords n r.opened else [] } := by
          simp [Reader.step, hPhase, FabIn.event, hEof, hDecode]
        simp only [if_true] at hOpened hCommitted hNext
        rw [hStep]
        refine ⟨?_, by rw [hCommitted, h.committed, h.opened], hOpened, fun _ => hCrc, hEvents⟩
        cases hMsb : w.msb with
        | true =>
          simp only [Stands, if_true]
          simp only [hMsb, if_true] at hNext
          exact ⟨hNext.trans hState, hCrcEn', hDetect', hDetector'⟩
        | false =>
          simp only [Stands, Bool.false_eq_true, if_false]
          simp only [hMsb, Bool.false_eq_true, if_false] at hNext
          refine .inr ⟨hNext, ?_⟩
          rw [hDetector']
          simp [Reader.receive, checkingNext_of_escape hDecode, detectorOf]

theorem Reads.step (h : Reads strict r o s) (hClean : s.Clean i)
    (hMode : strict = true ∧ s.Quiet i ∨ strict = false ∧ Restarts crc ∧ r.Headed i.event) :
    Reads strict (r.step cfg crc i.event) (o.see crc i s) (s.clock cfg crc i) := by
  have hQuiet : strict = true → s.Quiet i := fun hStrict =>
    hMode.elim And.right fun hLoose => by rw [hLoose.1] at hStrict; cases hStrict
  cases hPhase : r.phase with
  | idle => exact h.step_idle hClean hQuiet (.inl hPhase)
  | tail => exact h.step_idle hClean hQuiet (.inr hPhase)
  | header count => exact h.step_header hClean hPhase
  | subframeHeader => exact h.step_subframeHeader hClean (hMode.imp And.left And.right) hPhase
  | payload => exact h.step_payload hClean hPhase

theorem reads_init (strict : Bool) (hReset : s.core.AfterReset) :
    Reads strict (Reader.init s.crc) (Reception.empty n) s :=
  ⟨hReset.state, rfl, rfl, fun _ => rfl, fun _ => rfl⟩

end WrRfDemo.Streamer

import WrRfDemo.Streamer.Escaping
import WrRfDemo.Streamer.Writing

/-! # What a frame consists of

The words that the state machine presents from the start of a frame to its end, each with its escape
flag: the Ethernet header, the subframes with the words read from the buffer, and the padding.
A stall withdraws the presented word in every state but that of the CRC, where the word in front
of the CRC would be presented again.
-/

namespace WrRfDemo.Streamer

open Clocked

variable {n : Nat}

def Symbol.plain (data : BitVec 16) : Symbol := ⟨false, data⟩

def paddingSymbol : Symbol := ⟨true, 0x0bad⟩

/-- The header of a subframe and the half-words of its words. -/
def openedSymbols (seqNo : BitVec 15) (words : List (TxWord n)) : List Symbol :=
  ⟨true, (1 : BitVec 1) ++ seqNo⟩ :: (halvesOf words).map .plain

structure SentSubframe (n : Nat) where
  seqNo : BitVec 15
  words : List (TxWord n)
  crc : BitVec 16
deriving DecidableEq

def SentSubframe.symbols (f : SentSubframe n) : List Symbol := openedSymbols f.seqNo f.words ++ [.plain f.crc]

def addressWords (cfg : TxConfig) : List (BitVec 16) :=
  [field 32 16 cfg.macTarget, field 16 16 cfg.macTarget, field 0 16 cfg.macTarget,
    field 32 16 cfg.macLocal, field 16 16 cfg.macLocal, field 0 16 cfg.macLocal, cfg.ethertype]

namespace Transmitter

def symbols (s : Transmitter n) : List Symbol := if s.dvalid then [⟨s.fsmEscape, s.data⟩] else []

/-- The first and the second word of the time tag. -/
def tagWord (i : TxIn n) (s : Transmitter n) : BitVec 16 :=
  if s.count.toNat = 7 then BitVec.ofBool s.tagValidLatched ++ (0 : BitVec 3) ++ field 16 12 i.tagCycles
  else field 0 16 i.tagCycles

end Transmitter

/-- What has been presented since the start of the frame, the tag, the subframes that are closed, and
the sequence number and the words read for the one that is open. -/
structure FrameLog (n : Nat) where
  shown : List Symbol
  tags : List (BitVec 16)
  closed : List (SentSubframe n)
  seqNo : BitVec 15
  words : List (TxWord n)
deriving DecidableEq

namespace FrameLog

def empty (n : Nat) : FrameLog n := ⟨[], [], [], 0, []⟩

def closes (o : FrameLog n) (i : TxIn n) (s : Transmitter n) : List (SentSubframe n) :=
  if s.state = .crcWord ∧ s.dreq i = true then [⟨o.seqNo, o.words, i.crcValue⟩] else []

def see (o : FrameLog n) (i : TxIn n) (s : Transmitter n) : FrameLog n :=
  if s.sof then empty n
  else
    { shown := o.shown ++ s.symbols
      tags := if s.state = .ethHeader ∧ s.dreq i = true ∧ 7 ≤ s.count.toNat then o.tags ++ [s.tagWord i] else o.tags
      closed := o.closed ++ o.closes i s
      seqNo := if s.state = .subframeHeader then s.seqNo else o.seqNo
      words := if s.state = .subframeHeader then [] else if s.fifoRd i then o.words ++ [s.fifoQ i] else o.words }

def body (cfg : TxConfig) (o : FrameLog n) : List Symbol :=
  (addressWords cfg ++ o.tags).map .plain ++ o.closed.flatMap SentSubframe.symbols

/-- The frame is its header, its subframes and at least one word of padding, thirty words or more. -/
structure Complete (cfg : TxConfig) (o : FrameLog n) : Prop where
  tags : o.tags.length = 2
  shown : ∃ k, 1 ≤ k ∧ o.shown = o.body cfg ++ List.replicate k paddingSymbol
  long : 30 ≤ o.shown.length

end FrameLog

namespace Transmitter

/-- The word in front of the CRC is presented while the inserter asks for the next one. -/
def CrcFollows (i : TxIn n) (s : Transmitter n) : Prop := s.state = .crcWord → s.dvalid = true → s.dreq i = true

instance (i : TxIn n) (s : Transmitter n) : Decidable (s.CrcFollows i) := inferInstanceAs (Decidable (_ → _ → _))

/-- How far the frame has been presented in each state. -/
inductive Framed (cfg : TxConfig) (o : FrameLog n) (s : Transmitter n) : Prop
  | idle (hState : s.state = .idle) (hValid : s.dvalid = false) (hDone : s.eof = true → o.Complete cfg)
  | sof (hState : s.state = .sof) (hSof : s.sof = true) (hEof : s.eof = false)
      (hLow : s.dvalid = false ∧ s.fsmEscape = false)
  | ethHeader (hState : s.state = .ethHeader) (hEof : s.eof = false) (hEscape : s.fsmEscape = false)
      (hTags : o.tags.length = s.count.toNat - 7) (hClosed : o.closed = [])
      (hShown : o.shown ++ s.symbols = ((addressWords cfg).take s.count.toNat ++ o.tags).map .plain)
  | subframeHeader (hState : s.state = .subframeHeader) (hEof : s.eof = false) (hEscape : s.fsmEscape = false)
      (hTags : o.tags.length = 2) (hShown : o.shown ++ s.symbols = o.body cfg)
  | payload (hState : s.state = .payload) (hEof : s.eof = false) (hTags : o.tags.length = 2)
      (hEmpty : s.buffer = [] → s.serCount = 0)
      (hShown : o.shown ++ s.symbols = o.body cfg ++ (openedSymbols o.seqNo o.words ++ s.begun.map .plain))
  | crcWord (hState : s.state = .crcWord) (hEof : s.eof = false) (hTags : o.tags.length = 2)
      (hShown : o.shown ++ s.symbols = o.body cfg ++ openedSymbols o.seqNo o.words)
  | padding (k : Nat) (hState : s.state = .padding) (hEof : s.eof = false) (hTags : o.tags.length = 2)
      (hShown : o.shown ++ s.symbols = o.body cfg ++ List.replicate k paddingSymbol)
  | eof (k : Nat) (hState : s.state = .eof) (hEof : s.eof = false) (hTags : o.tags.length = 2) (hSome : 1 ≤ k)
      (hShown : o.shown ++ s.symbols = o.body cfg ++ List.replicate k paddingSymbol)
      (hLong : 30 ≤ (o.shown ++ s.symbols).length)

variable {cfg : TxConfig} {i : TxIn n} {s : Transmitter n} {o : FrameLog n}

theorem symbols_low (hValid : s.dvalid = false) : s.symbols = [] := by simp [symbols, hValid]

theorem symbols_shown {escape : Bool} {data : BitVec 16} (hValid : s.dvalid = true) (hEscape : s.fsmEscape = escape)
    (hData : s.data = data) : s.symbols = [⟨escape, data⟩] := by simp [symbols, hValid, hEscape, hData]

theorem shown_see (hSof : s.sof = false) : (o.see i s).shown = o.shown ++ s.symbols := by simp [FrameLog.see, hSof]

theorem see_records (hSof : s.sof = false) (hDreq : s.dreq i = false) (hState : s.state ≠ .subframeHeader) :
    (o.see i s).tags = o.tags ∧ (o.see i s).closed = o.closed ∧ (o.see i s).seqNo = o.seqNo ∧ (o.see i s).words = o.words := by
  simp [FrameLog.see, FrameLog.closes, hSof, hDreq, hState, fifoRd]

/-! ### Cycle by cycle -/

theorem framed_idle (hRst : i.rstN = true) (hFormed : s.Formed) (hState : s.state = .idle) (hValid : s.dvalid = false) :
    Framed cfg (o.see i s) (s.clock cfg i) := by
  have hLow := hFormed.sof (by simp [hState])
  cases hStart : s.dreq i && (s.txFlushLatched || i.txFlush || s.thresholdHit i) with
  | true =>
    refine .sof ?_ ?_ ?_ ⟨?_, ?_⟩ <;> simp [clock, pFsm, hRst, hState, Transmitter.idle, hStart, hValid]
  | false =>
    refine .idle ?_ ?_ (fun hEof => ?_)
    · simp [clock, pFsm, hRst, hState, Transmitter.idle, hStart]
    · simp [clock, pFsm, hRst, hState, Transmitter.idle, hStart, hValid]
    · simp [clock, pFsm, hRst, hState, Transmitter.idle, hStart] at hEof

theorem framed_sof (hRst : i.rstN = true) (hState : s.state = .sof) (hSof : s.sof = true) (hEof : s.eof = false)
    (hLow : s.dvalid = false ∧ s.fsmEscape = false) : Framed cfg (o.see i s) (s.clock cfg i) := by
  have hSee : o.see i s = FrameLog.empty n := by simp [FrameLog.see, hSof]
  have hNext : (s.clock cfg i).state = .ethHeader ∧ (s.clock cfg i).eof = false ∧ (s.clock cfg i).fsmEscape = false ∧
      (s.clock cfg i).dvalid = false ∧ (s.clock cfg i).count = 0 := by
    simp [clock, pFsm, hRst, hState, hEof, hLow]
  obtain ⟨hNextState, hNextEof, hEscape, hValid, hCount⟩ := hNext
  rw [hSee]
  refine .ethHeader hNextState hNextEof hEscape ?_ rfl ?_
  · rw [hCount]
    rfl
  · rw [symbols_low hValid, hCount]
    rfl

theorem headerWord_eq (cfg : TxConfig) (i : TxIn n) (hCount : s.count.toNat ≤ 8) :
    (addressWords cfg).take (s.count.toNat + 1) ++ (if 7 ≤ s.count.toNat then [s.tagWord i] else []) =
      (addressWords cfg).take s.count.toNat ++ [s.headerWord cfg i] := by
  unfold headerWord tagWord
  generalize s.count.toNat = count at hCount ⊢
  interval_cases count <;> rfl

theorem framed_ethHeader (hRst : i.rstN = true) (hFormed : s.Formed) (hState : s.state = .ethHeader) (hEof : s.eof = false)
    (hEscape : s.fsmEscape = false) (hTags : o.tags.length = s.count.toNat - 7) (hClosed : o.closed = [])
    (hShown : o.shown ++ s.symbols = ((addressWords cfg).take s.count.toNat ++ o.tags).map .plain) :
    Framed cfg (o.see i s) (s.clock cfg i) := by
  have hSof := hFormed.sof (by simp [hState])
  have hCount := hFormed.header hState
  have hClosed' : (o.see i s).closed = [] := by simp [FrameLog.see, FrameLog.closes, hSof, hState, hClosed]
  cases hDreq : s.dreq i with
  | false =>
    have hNext : (s.clock cfg i).state = .ethHeader ∧ (s.clock cfg i).eof = false ∧ (s.clock cfg i).fsmEscape = false ∧
        (s.clock cfg i).dvalid = false ∧ (s.clock cfg i).count = s.count := by
      simp [clock, pFsm, hRst, hState, Transmitter.ethHeader, hDreq, hEof, hEscape]
    obtain ⟨hNextState, hNextEof, hNextEscape, hValid, hSame⟩ := hNext
    obtain ⟨hTagsSame, -, -, -⟩ := see_records (o := o) hSof hDreq (by simp [hState])
    refine .ethHeader hNextState hNextEof hNextEscape ?_ hClosed' ?_
    · rw [hTagsSame, hSame, hTags]
    · rw [symbols_low hValid, List.append_nil, shown_see hSof, hShown, hSame, hTagsSame]
  | true =>
    have hNext : (s.clock cfg i).eof = false ∧ (s.clock cfg i).fsmEscape = false ∧ (s.clock cfg i).dvalid = true ∧
        (s.clock cfg i).data = s.headerWord cfg i := by
      simp only [clock, pFsm, hRst, hState, Transmitter.ethHeader, hDreq]
      split_ifs <;> simp_all
    obtain ⟨hNextEof, hNextEscape, hValid, hData⟩ := hNext
    have hTags' : (o.see i s).tags = o.tags ++ if 7 ≤ s.count.toNat then [s.tagWord i] else [] := by
      simp only [FrameLog.see, FrameLog.closes, hSof, hState, hDreq, Bool.false_eq_true, if_false, true_and]
      split_ifs <;> simp
    have hLength : (o.see i s).tags.length = s.count.toNat + 1 - 7 := by
      rw [hTags', List.length_append, hTags]
      split_ifs <;> simp <;> omega
    have hShown' : (o.see i s).shown ++ (s.clock cfg i).symbols =
        ((addressWords cfg).take (s.count.toNat + 1) ++ (o.see i s).tags).map .plain := by
      have hWord := headerWord_eq cfg i hCount
      have hLast : [(⟨false, s.headerWord cfg i⟩ : Symbol)] = [s.headerWord cfg i].map .plain := rfl
      rw [shown_see hSof, hShown, symbols_shown hValid hNextEscape hData, hTags', hLast, ← List.map_append]
      rcases Nat.lt_or_ge s.count.toNat 7 with hAddress | hTag
      · have hNone : o.tags = [] := List.length_eq_zero_iff.mp (by omega)
        rw [if_neg (Nat.not_le.mpr hAddress), List.append_nil] at hWord
        rw [hNone, if_neg (Nat.not_le.mpr hAddress), List.append_nil, List.append_nil, List.append_nil, hWord]
      · have hAll : ∀ k, 7 ≤ k → (addressWords cfg).take k = addressWords cfg := fun k hk => List.take_of_length_le hk
        rw [if_pos hTag, hAll _ hTag, hAll _ (by omega)] at hWord
        rw [if_pos hTag, hAll _ hTag, hAll _ (by omega), List.append_assoc, List.append_cancel_left hWord]
    rcases Nat.lt_or_ge s.count.toNat 8 with hMore | hLast
    · have hCountNext : (s.clock cfg i).state = .ethHeader ∧ (s.clock cfg i).count = s.count + 1 := by
        simp [clock, pFsm, hRst, hState, Transmitter.ethHeader, hDreq, hMore]
      have hSucc : (s.count + 1).toNat = s.count.toNat + 1 := by
        rw [BitVec.toNat_add]
        exact Nat.mod_eq_of_lt (by simp; omega)
      refine .ethHeader hCountNext.1 hNextEof hNextEscape ?_ hClosed' ?_
      · rw [hLength, hCountNext.2, hSucc]
      · rw [hShown', hCountNext.2, hSucc]
    · have hEight : s.count.toNat = 8 := by omega
      have hNextState : (s.clock cfg i).state = .subframeHeader := by
        simp [clock, pFsm, hRst, hState, Transmitter.ethHeader, hDreq, hEight]
      refine .subframeHeader hNextState hNextEof hNextEscape ?_ ?_
      · rw [hLength, hEight]
      · rw [hShown', hEight, FrameLog.body, hClosed', List.flatMap_nil, List.append_nil]
        rfl

theorem framed_subframeHeader (hRst : i.rstN = true) (hFormed : s.Formed) (hState : s.state = .subframeHeader)
    (hEof : s.eof = false) (hEscape : s.fsmEscape = false) (hTags : o.tags.length = 2)
    (hShown : o.shown ++ s.symbols = o.body cfg) : Framed cfg (o.see i s) (s.clock cfg i) := by
  have hSof := hFormed.sof (by simp [hState])
  have hSer := hFormed.start (.inr hState)
  have hBody : (o.see i s).body cfg = o.body cfg ∧ (o.see i s).tags = o.tags := by
    simp [FrameLog.see, FrameLog.closes, FrameLog.body, hSof, hState]
  cases hDreq : s.dreq i with
  | false =>
    have hNext : (s.clock cfg i).state = .subframeHeader ∧ (s.clock cfg i).eof = false ∧
        (s.clock cfg i).fsmEscape = false ∧ (s.clock cfg i).dvalid = false := by
      simp [clock, pFsm, hRst, hState, Transmitter.subframeHeader, hDreq, hEof, hEscape]
    obtain ⟨hNextState, hNextEof, hNextEscape, hValid⟩ := hNext
    refine .subframeHeader hNextState hNextEof hNextEscape (by rw [hBody.2, hTags]) ?_
    rw [symbols_low hValid, List.append_nil, shown_see hSof, hShown, hBody.1]
  | true =>
    have hNext : (s.clock cfg i).state = .payload ∧ (s.clock cfg i).eof = false ∧ (s.clock cfg i).fsmEscape = true ∧
        (s.clock cfg i).dvalid = true ∧ (s.clock cfg i).data = (1 : BitVec 1) ++ s.seqNo ∧
        (s.clock cfg i).serCount = 0 := by
      simp [clock, pFsm, hRst, hState, Transmitter.subframeHeader, hDreq, hEof, hSer]
    obtain ⟨hNextState, hNextEof, hNextEscape, hValid, hData, hStart⟩ := hNext
    have hOpened : (o.see i s).seqNo = s.seqNo ∧ (o.see i s).words = [] := by simp [FrameLog.see, FrameLog.closes, hSof, hState]
    refine .payload hNextState hNextEof (by rw [hBody.2, hTags]) (fun _ => hStart) ?_
    rw [shown_see hSof, hShown, symbols_shown hValid hNextEscape hData, hBody.1, hOpened.1, hOpened.2, begun_start hStart]
    rfl

theorem framed_payload_waiting (hRst : i.rstN = true) (hFormed : s.Formed) (hState : s.state = .payload) (hDreq : s.dreq i = false)
    (hEof : s.eof = false) (hTags : o.tags.length = 2) (hEmpty : s.buffer = [] → s.serCount = 0)
    (hShown : o.shown ++ s.symbols = o.body cfg ++ (openedSymbols o.seqNo o.words ++ s.begun.map .plain)) :
    Framed cfg (o.see i s) (s.clock cfg i) := by
  have hSof := hFormed.sof (by simp [hState])
  obtain ⟨hTagsSame, hClosed, hSeq, hWords⟩ := see_records (o := o) hSof hDreq (by simp [hState])
  have hNext : (s.clock cfg i).state = .payload ∧ (s.clock cfg i).eof = false ∧ (s.clock cfg i).dvalid = false ∧
      (s.clock cfg i).serCount = s.serCount := by
    simp [clock, pFsm, hRst, hState, Transmitter.payload, hDreq, hEof]
  obtain ⟨hNextState, hNextEof, hValid, hSer⟩ := hNext
  have hBuffer : (s.clock cfg i).buffer = s.buffer ++ s.takes cfg i := buffer_clock hRst (by simp [fifoRd, hDreq])
  have hBegun := begun_waiting hBuffer hSer hEmpty
  refine .payload hNextState hNextEof (by rw [hTagsSame, hTags]) (fun hNone => ?_) ?_
  · rw [hBuffer, List.append_eq_nil_iff] at hNone
    exact hSer.trans (hEmpty hNone.1)
  · rw [symbols_low hValid, List.append_nil, shown_see hSof, hShown, hBegun, FrameLog.body, FrameLog.body, hTagsSame,
      hClosed, hSeq, hWords]

theorem see_payload (cfg : TxConfig) (hSof : s.sof = false) (hState : s.state = .payload) :
    (o.see i s).body cfg = o.body cfg ∧ (o.see i s).tags = o.tags ∧ (o.see i s).seqNo = o.seqNo ∧
      (o.see i s).words = o.words ++ if s.fifoRd i then [s.fifoQ i] else [] := by
  cases hRd : s.fifoRd i <;> simp [FrameLog.see, FrameLog.closes, FrameLog.body, hSof, hState, hRd]

theorem openedSymbols_append (seqNo : BitVec 15) (words : List (TxWord n)) (halves : List (BitVec 16)) :
    openedSymbols seqNo words ++ halves.map Symbol.plain =
      ⟨true, (1 : BitVec 1) ++ seqNo⟩ :: (halvesOf words ++ halves).map .plain := by
  rw [List.map_append]
  rfl

theorem framed_payload_empty (hRst : i.rstN = true) (hFormed : s.Formed) (hState : s.state = .payload) (hDreq : s.dreq i = true)
    (hNone : s.buffer = []) (hEof : s.eof = false) (hTags : o.tags.length = 2)
    (hShown : o.shown ++ s.symbols = o.body cfg ++ (openedSymbols o.seqNo o.words ++ s.begun.map .plain)) :
    Framed cfg (o.see i s) (s.clock cfg i) := by
  have hSof := hFormed.sof (by simp [hState])
  have hRd : s.fifoRd i = false := by simp [fifoRd, fifoEmpty, hNone]
  obtain ⟨hBody, hTagsSame, hSeq, hWords⟩ := see_payload cfg (o := o) (i := i) hSof hState
  rw [hRd, if_neg Bool.false_ne_true, List.append_nil] at hWords
  have hNext : (s.clock cfg i).state = .crcWord ∧ (s.clock cfg i).eof = false ∧ (s.clock cfg i).dvalid = false := by
    simp [clock, pFsm, hRst, hState, Transmitter.payload, hDreq, fifoEmpty, hNone, hEof]
  obtain ⟨hNextState, hNextEof, hValid⟩ := hNext
  have hBegun : s.begun = [] := by simp [begun, hNone]
  rw [hBegun, List.map_nil, List.append_nil] at hShown
  refine .crcWord hNextState hNextEof (by rw [hTagsSame, hTags]) ?_
  rw [symbols_low hValid, List.append_nil, shown_see hSof, hShown, hBody, hSeq, hWords]

theorem framed_payload_word (hn : n ≤ 256) (hRst : i.rstN = true) (hFormed : s.Formed) (hState : s.state = .payload)
    (hDreq : s.dreq i = true) {w : TxWord n} {rest : List (TxWord n)} (hWord : s.buffer = w :: rest) (hEof : s.eof = false)
    (hTags : o.tags.length = 2)
    (hShown : o.shown ++ s.symbols = o.body cfg ++ (openedSymbols o.seqNo o.words ++ s.begun.map .plain)) :
    Framed cfg (o.see i s) (s.clock cfg i) := by
  have hSof := hFormed.sof (by simp [hState])
  have hSer := hFormed.payload hState
  obtain ⟨hPresents, hNextState, hNextSer⟩ := clock_payload cfg hRst hState hDreq hWord
  obtain ⟨hBody, hTagsSame, hSeq, hWords⟩ := see_payload cfg (o := o) (i := i) hSof hState
  have hNextEof : (s.clock cfg i).eof = false := by simp [clock, pFsm, hRst, hState, Transmitter.payload, hDreq, hEof]
  have hHalf : s.begun ++ [s.nextHalf w] = (halfWords w).take (s.serCount.toNat + 1) := by
    rw [halfWords_take w hSer, begun, hWord]
  have hShownNext : (o.see i s).shown ++ (s.clock cfg i).symbols = o.body cfg ++
      ⟨true, (1 : BitVec 1) ++ o.seqNo⟩ :: (halvesOf o.words ++ (halfWords w).take (s.serCount.toNat + 1)).map .plain := by
    have hOne : [(⟨false, s.nextHalf w⟩ : Symbol)] = [s.nextHalf w].map .plain := rfl
    rw [shown_see hSof, hShown, symbols_shown hPresents.dvalid hPresents.fsmEscape hPresents.data, hOne, List.append_assoc,
      List.append_assoc, ← List.map_append, hHalf, openedSymbols_append]
  cases hEnd : s.endsWord with
  | false =>
    obtain ⟨hSucc, -⟩ := serCount_succ hn hSer hEnd
    have hRd : s.fifoRd i = false := by simp [fifoRd, hEnd]
    have hBuffer : (s.clock cfg i).buffer = s.buffer ++ s.takes cfg i := buffer_clock hRst hRd
    rw [hEnd, if_neg Bool.false_ne_true] at hNextSer
    rw [hEnd, Bool.false_and, if_neg Bool.false_ne_true] at hNextState
    rw [hRd, if_neg Bool.false_ne_true, List.append_nil] at hWords
    have hBegun : (s.clock cfg i).begun = (halfWords w).take (s.serCount.toNat + 1) := by
      rw [begun, hBuffer, hWord, hNextSer, List.cons_append, hSucc]
    refine .payload hNextState hNextEof (by rw [hTagsSame, hTags]) (fun hNone => ?_) ?_
    · simp [hBuffer, hWord] at hNone
    · rw [hShownNext, hBody, hSeq, hWords, hBegun, openedSymbols_append]
  | true =>
    have hFull : s.serCount.toNat + 1 = n := by simpa [endsWord] using hEnd
    have hRd : s.fifoRd i = true := by simp [fifoRd, hState, hEnd, hDreq, fifoEmpty, hWord]
    have hRead : s.fifoQ i = w := by simp [fifoQ, hWord]
    rw [hEnd, if_pos rfl] at hNextSer
    rw [hEnd, Bool.true_and] at hNextState
    rw [hRd, if_pos rfl, hRead] at hWords
    rw [hFull, List.take_of_length_le (by simp), ← halvesOf_concat] at hShownNext
    cases hLast : w.last with
    | false =>
      rw [hLast, if_neg Bool.false_ne_true] at hNextState
      refine .payload hNextState hNextEof (by rw [hTagsSame, hTags]) (fun _ => hNextSer) ?_
      rw [hShownNext, hBody, hSeq, hWords, begun_start hNextSer, List.map_nil, List.append_nil]
      rfl
    | true =>
      rw [hLast, if_pos rfl] at hNextState
      refine .crcWord hNextState hNextEof (by rw [hTagsSame, hTags]) ?_
      rw [hShownNext, hBody, hSeq, hWords]
      rfl

theorem framed_crcWord (hOk : s.CrcFollows i) (hRst : i.rstN = true) (hFormed : s.Formed) (hState : s.state = .crcWord)
    (hEof : s.eof = false) (hTags : o.tags.length = 2)
    (hShown : o.shown ++ s.symbols = o.body cfg ++ openedSymbols o.seqNo o.words) :
    Framed cfg (o.see i s) (s.clock cfg i) := by
  have hSof := hFormed.sof (by simp [hState])
  have hEscape := hFormed.crcWord hState
  have hRd : s.fifoRd i = false := fifoRd_outside (by simp [hState])
  cases hDreq : s.dreq i with
  | false =>
    have hValid : s.dvalid = false := by
      cases hValid : s.dvalid with
      | false => rfl
      | true =>
        rw [hOk hState hValid] at hDreq
        cases hDreq
    have hNext : (s.clock cfg i).state = .crcWord ∧ (s.clock cfg i).eof = false ∧ (s.clock cfg i).dvalid = false := by
      simp [clock, pFsm, hRst, hState, Transmitter.crcWord, hDreq, hEof, hValid]
    obtain ⟨hNextState, hNextEof, hNextValid⟩ := hNext
    obtain ⟨hTagsSame, hClosed, hSeq, hWords⟩ := see_records (o := o) hSof hDreq (by simp [hState])
    refine .crcWord hNextState hNextEof (by rw [hTagsSame, hTags]) ?_
    rw [symbols_low hNextValid, List.append_nil, shown_see hSof, hShown, FrameLog.body, FrameLog.body, hTagsSame, hClosed,
      hSeq, hWords]
  | true =>
    have hNext : (s.clock cfg i).eof = false ∧ (s.clock cfg i).dvalid = true ∧ (s.clock cfg i).fsmEscape = false ∧
        (s.clock cfg i).data = i.crcValue := by
      simp [clock, pFsm, hRst, hState, Transmitter.crcWord, hDreq, hEof, hEscape]
    obtain ⟨hNextEof, hNextValid, hNextEscape, hNextData⟩ := hNext
    have hTagsSame : (o.see i s).tags = o.tags := by simp [FrameLog.see, FrameLog.closes, hSof, hState]
    have hShown' : (o.see i s).shown ++ (s.clock cfg i).symbols = (o.see i s).body cfg := by
      have hClosed : (o.see i s).closed = o.closed ++ [⟨o.seqNo, o.words, i.crcValue⟩] := by
        simp [FrameLog.see, FrameLog.closes, hSof, hState, hDreq]
      rw [shown_see hSof, hShown, symbols_shown hNextValid hNextEscape hNextData, FrameLog.body, FrameLog.body, hTagsSame,
        hClosed, List.flatMap_append, List.append_assoc, List.append_assoc, List.flatMap_cons, List.flatMap_nil,
        List.append_nil]
      rfl
    have hTags' : (o.see i s).tags.length = 2 := by rw [hTagsSame, hTags]
    cases hStop : s.fifoEmpty || decide (cfg.txMaxWordsPerFrame ≤ s.count.toNat) with
    | true =>
      have hNextState : (s.clock cfg i).state = .padding := by
        simp [clock, pFsm, hRst, hState, Transmitter.crcWord, hDreq, hStop]
      refine .padding 0 hNextState hNextEof hTags' ?_
      rw [hShown', List.replicate_zero, List.append_nil]
    | false =>
      have hNextState : (s.clock cfg i).state = .subframeHeader := by
        simp [clock, pFsm, hRst, hState, Transmitter.crcWord, hDreq, hStop]
      exact .subframeHeader hNextState hNextEof hNextEscape hTags' hShown'

theorem see_tail (cfg : TxConfig) (hSof : s.sof = false) (hState : s.state = .padding ∨ s.state = .eof) :
    (o.see i s).body cfg = o.body cfg ∧ (o.see i s).tags = o.tags := by
  rcases hState with hState | hState <;> simp [FrameLog.see, FrameLog.closes, FrameLog.body, hSof, hState]

theorem framed_padding (hRst : i.rstN = true) (hFormed : s.Formed) (hTotal : s.totalWords.toNat ≤ o.shown.length) {k : Nat}
    (hState : s.state = .padding) (hEof : s.eof = false) (hTags : o.tags.length = 2)
    (hShown : o.shown ++ s.symbols = o.body cfg ++ List.replicate k paddingSymbol) :
    Framed cfg (o.see i s) (s.clock cfg i) := by
  have hSof := hFormed.sof (by simp [hState])
  obtain ⟨hBody, hTagsSame⟩ := see_tail cfg (o := o) (i := i) hSof (.inl hState)
  cases hDreq : s.dreq i with
  | false =>
    have hNext : (s.clock cfg i).state = .padding ∧ (s.clock cfg i).eof = false ∧ (s.clock cfg i).dvalid = false := by
      simp [clock, pFsm, hRst, hState, Transmitter.padding, hDreq, hEof]
    obtain ⟨hNextState, hNextEof, hValid⟩ := hNext
    refine .padding k hNextState hNextEof (by rw [hTagsSame, hTags]) ?_
    rw [symbols_low hValid, List.append_nil, shown_see hSof, hShown, hBody]
  | true =>
    have hNext : (s.clock cfg i).state = (if 30 ≤ s.totalWords.toNat then .eof else .padding) ∧
        (s.clock cfg i).eof = false ∧ (s.clock cfg i).dvalid = true ∧ (s.clock cfg i).fsmEscape = true ∧
        (s.clock cfg i).data = 0x0bad := by
      simp [clock, pFsm, hRst, hState, Transmitter.padding, hDreq, hEof]
    obtain ⟨hNextState, hNextEof, hValid, hEscape, hData⟩ := hNext
    have hTags' : (o.see i s).tags.length = 2 := by rw [hTagsSame, hTags]
    have hShown' : (o.see i s).shown ++ (s.clock cfg i).symbols =
        (o.see i s).body cfg ++ List.replicate (k + 1) paddingSymbol := by
      rw [shown_see hSof, hShown, symbols_shown hValid hEscape hData, hBody, List.append_assoc, List.replicate_succ']
      rfl
    split_ifs at hNextState with hEnough
    · refine .eof (k + 1) hNextState hNextEof hTags' (Nat.succ_pos k) hShown' ?_
      rw [shown_see hSof, List.length_append, List.length_append]
      omega
    · exact .padding (k + 1) hNextState hNextEof hTags' hShown'

theorem framed_eof (hRst : i.rstN = true) (hFormed : s.Formed) {k : Nat} (hState : s.state = .eof) (hEof : s.eof = false)
    (hTags : o.tags.length = 2) (hSome : 1 ≤ k) (hShown : o.shown ++ s.symbols = o.body cfg ++ List.replicate k paddingSymbol)
    (hLong : 30 ≤ (o.shown ++ s.symbols).length) : Framed cfg (o.see i s) (s.clock cfg i) := by
  have hSof := hFormed.sof (by simp [hState])
  obtain ⟨hBody, hTagsSame⟩ := see_tail cfg (o := o) (i := i) hSof (.inr hState)
  have hValid : (s.clock cfg i).dvalid = false := by
    cases hDreq : s.dreq i <;> simp [clock, pFsm, hRst, hState, hDreq]
  cases hDreq : s.dreq i with
  | false =>
    have hNext : (s.clock cfg i).state = .eof ∧ (s.clock cfg i).eof = false := by
      simp [clock, pFsm, hRst, hState, hDreq, hEof]
    refine .eof k hNext.1 hNext.2 (by rw [hTagsSame, hTags]) hSome ?_ ?_
    · rw [symbols_low hValid, List.append_nil, shown_see hSof, hShown, hBody]
    · rwa [symbols_low hValid, List.append_nil, shown_see hSof]
  | true =>
    have hNextState : (s.clock cfg i).state = .idle := by simp [clock, pFsm, hRst, hState, hDreq]
    refine .idle hNextState hValid fun _ => ⟨by rw [hTagsSame, hTags], ⟨k, hSome, ?_⟩, ?_⟩
    · rw [shown_see hSof, hShown, hBody]
    · rwa [shown_see hSof]

/-! ### Whole runs -/

structure Frames (cfg : TxConfig) (o : FrameLog n) (s : Transmitter n) : Prop where
  formed : s.Formed
  framed : Framed cfg o s
  total : s.state ≠ .idle → s.state ≠ .sof → s.totalWords.toNat ≤ o.shown.length

theorem clock_of_idle (cfg : TxConfig) (i : TxIn n) (hState : s.state = .idle) : (s.clock cfg i).state = .idle ∨ (s.clock cfg i).state = .sof := by
  cases hRst : i.rstN with
  | false => exact .inl (by simp [clock, pFsm, hRst])
  | true =>
    simp only [clock, pFsm, hRst, hState, Transmitter.idle]
    split_ifs <;> simp_all

/-- The counter of the words falls short of what has been presented only by wrapping round. -/
theorem total_step (hStart : s.state = .sof → s.sof = true)
    (hTotal : s.state ≠ .idle → s.state ≠ .sof → s.totalWords.toNat ≤ o.shown.length)
    (hIdle : (s.clock cfg i).state ≠ .idle) (hNotStart : (s.clock cfg i).state ≠ .sof) :
    (s.clock cfg i).totalWords.toNat ≤ (o.see i s).shown.length := by
  change s.pCountWords.toNat ≤ _
  cases hSof : s.sof with
  | true => simp [pCountWords, hSof]
  | false =>
    have hBusy : s.state ≠ .idle := by
      intro hState
      rcases clock_of_idle cfg i hState with h | h
      · exact hIdle h
      · exact hNotStart h
    have hStarted : s.state ≠ .sof := by
      intro hState
      rw [hStart hState] at hSof
      cases hSof
    have hBefore := hTotal hBusy hStarted
    rw [shown_see hSof, List.length_append]
    cases hValid : s.dvalid with
    | false =>
      rw [pCountWords, hSof, hValid]
      simp only [Bool.false_eq_true, if_false]
      omega
    | true =>
      rw [pCountWords, hSof, hValid, symbols, hValid]
      simp only [Bool.false_eq_true, if_false, if_true, List.length_singleton, BitVec.toNat_add]
      exact (Nat.mod_le _ _).trans (Nat.add_le_add_right hBefore 1)

theorem Frames.step (h : Frames cfg o s) (hn : 0 < n ∧ n ≤ 256) (hOk : s.CrcFollows i) :
    Frames cfg (o.see i s) (s.clock cfg i) := by
  have hFormed := h.formed
  have hNextFormed : (s.clock cfg i).Formed := hFormed.step hn i
  refine ⟨hNextFormed, ?_, ?_⟩
  · cases hRst : i.rstN with
    | false => exact .idle (by simp [clock, pFsm, hRst]) (by simp [clock, pFsm, hRst]) (by simp [clock, pFsm, hRst])
    | true =>
      cases h.framed with
      | idle hState hValid _ => exact framed_idle hRst hFormed hState hValid
      | sof hState hSof hEof hLow => exact framed_sof hRst hState hSof hEof hLow
      | ethHeader hState hEof hEscape hTags hClosed hShown =>
        exact framed_ethHeader hRst hFormed hState hEof hEscape hTags hClosed hShown
      | subframeHeader hState hEof hEscape hTags hShown =>
        exact framed_subframeHeader hRst hFormed hState hEof hEscape hTags hShown
      | payload hState hEof hTags hEmpty hShown =>
        cases hDreq : s.dreq i with
        | false => exact framed_payload_waiting hRst hFormed hState hDreq hEof hTags hEmpty hShown
        | true =>
          cases hWord : s.buffer with
          | nil => exact framed_payload_empty hRst hFormed hState hDreq hWord hEof hTags hShown
          | cons w rest => exact framed_payload_word hn.2 hRst hFormed hState hDreq hWord hEof hTags hShown
      | crcWord hState hEof hTags hShown => exact framed_crcWord hOk hRst hFormed hState hEof hTags hShown
      | padding k hState hEof hTags hShown =>
        exact framed_padding hRst hFormed (h.total (by simp [hState]) (by simp [hState])) hState hEof hTags hShown
      | eof k hState hEof hTags hSome hShown hLong => exact framed_eof hRst hFormed hState hEof hTags hSome hShown hLong
  · refine total_step (fun hState => ?_) h.total
    cases h.framed with
    | sof _ hSof => exact hSof
    | idle hIs | ethHeader hIs | subframeHeader hIs | payload hIs | crcWord hIs | padding _ hIs | eof _ hIs =>
      rw [hState] at hIs
      cases hIs

/-- Every frame that comes to its end has the documented content, as long as the word in front of the
CRC is never held up. -/
theorem frame_content (cfg : TxConfig) (hn : 0 < n ∧ n ≤ 256) (s : Transmitter n) (hState : s.state = .idle)
    (hLow : s.sof = false ∧ s.eof = false ∧ s.dvalid = false) (inputs : List (TxIn n))
    (hAlong : Along (clock cfg) CrcFollows inputs s) :
    let p := run (watch (clock cfg) FrameLog.see) inputs (FrameLog.empty n, s)
    p.2.eof = true → p.1.Complete cfg := by
  intro p hEof
  have hInit : Frames cfg (FrameLog.empty n) s :=
    ⟨.of_idle hState hLow.1, .idle hState hLow.2.2 (by simp [hLow.2.1]), by simp [hState]⟩
  have hEnd := watch_invariant (fun o i s h hOk => Frames.step h hn hOk) inputs hInit hAlong
  cases hEnd.framed with
  | idle _ _ hDone => exact hDone hEof
  | sof _ _ hNot | ethHeader _ hNot | subframeHeader _ hNot | payload _ hNot | crcWord _ hNot | padding _ _ hNot | eof _ _ hNot =>
    rw [hEof] at hNot
    cases hNot

/-- A block of one word, with cycles in which the CRC is held up, and cycles for the rest of the frame. -/
def oneBlock (held rest : Nat) : List (TxIn 4) :=
  push 0x0004000300020001 :: List.replicate 16 (drainIn 4) ++ List.replicate held { drainIn 4 with dReq := false } ++
    List.replicate rest (drainIn 4)

theorem frame_content_oneBlock :
    let p := run (watch (clock txConfig) FrameLog.see) (oneBlock 0 34) (FrameLog.empty 4, blankTx)
    p.2.eof = true ∧ p.1.Complete txConfig := by
  have hEof : (run (watch (clock txConfig) FrameLog.see) (oneBlock 0 34) (FrameLog.empty 4, blankTx)).2.eof = true := by
    decide +kernel
  exact ⟨hEof, frame_content txConfig (by decide) blankTx rfl ⟨rfl, rfl, rfl⟩ (oneBlock 0 34) (by decide +kernel) hEof⟩

/-- The CRC waits one cycle, and the half-word in front of it is presented twice. -/
theorem word_repeated : ¬ ∀ inputs : List (TxIn 4),
    let p := run (watch (clock txConfig) FrameLog.see) inputs (FrameLog.empty 4, blankTx)
    p.2.eof = true → p.1.Complete txConfig := by
  intro hAll
  have hEnds : (run (watch (clock txConfig) FrameLog.see) (oneBlock 1 32) (FrameLog.empty 4, blankTx)).2.eof = true ∧
      ¬(run (watch (clock txConfig) FrameLog.see) (oneBlock 1 32) (FrameLog.empty 4, blankTx)).1.body txConfig <+:
        (run (watch (clock txConfig) FrameLog.see) (oneBlock 1 32) (FrameLog.empty 4, blankTx)).1.shown := by
    decide +kernel
  obtain ⟨k, -, hShown⟩ := (hAll (oneBlock 1 32) hEnds.1).shown
  exact hEnds.2 ⟨_, hShown.symm⟩

end Transmitter

end WrRfDemo.Streamer

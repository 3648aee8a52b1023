import WrRfDemo.Streamer.FrameContent

/-! # Blocks and subframes

A subframe ends with the last word of a block, or when the buffer runs empty. It carries one whole
block, and the marks of the blocks survive, exactly as long as the buffer never runs empty in the
middle of a block.
-/

namespace WrRfDemo.Streamer

open Clocked

variable {n : Nat}

/-- Since the reset: the words accepted, the subframes sent and the frame so far. -/
structure BlockLog (n : Nat) where
  accepted : List (TxWord n)
  sent : List (SentSubframe n)
  frame : FrameLog n
deriving DecidableEq

namespace FrameLog

/-- The words of each subframe whose payload is over, after those that are `sent`. -/
def payloads (sent : List (SentSubframe n)) (f : FrameLog n) (s : Transmitter n) : List (List (TxWord n)) :=
  sent.map SentSubframe.words ++ if s.state = .crcWord then [f.words] else []

/-- The words read so far for the subframe whose payload is not over. -/
def current (f : FrameLog n) (s : Transmitter n) : List (TxWord n) := if s.state = .payload then f.words else []

end FrameLog

namespace BlockLog

def empty (n : Nat) : BlockLog n := ⟨[], [], .empty n⟩

def see (cfg : TxConfig) (o : BlockLog n) (i : TxIn n) (s : Transmitter n) : BlockLog n :=
  if i.rstN then
    { accepted := o.accepted ++ s.takes cfg i
      sent := o.sent ++ o.frame.closes i s
      frame := o.frame.see i s }
  else empty n

def payloads (o : BlockLog n) (s : Transmitter n) : List (List (TxWord n)) := o.frame.payloads o.sent s

/-- Each subframe carries one block or none, the blocks follow each other as they were accepted, and
marking the words of each subframe by itself gives the marks of the sender. -/
structure Kept (o : BlockLog n) (s : Transmitter n) : Prop where
  whole : ∀ words ∈ o.payloads s, Whole words
  order : (o.payloads s).flatten <+: o.accepted
  marks : (o.payloads s).flatMap (flagged true) <+: flagged true o.accepted

end BlockLog

namespace Transmitter

variable {cfg : TxConfig} {i : TxIn n} {s : Transmitter n} {f : FrameLog n} {o : BlockLog n}

def reads (i : TxIn n) (s : Transmitter n) : List (TxWord n) := if s.fifoRd i then [s.fifoQ i] else []

def endsPayload (i : TxIn n) (s : Transmitter n) : Bool :=
  s.state == .payload && s.dreq i && (s.fifoEmpty || (s.endsWord && (s.fifoQ i).last))

theorem reads_buffer (cfg : TxConfig) (s : Transmitter n) (hRst : i.rstN = true) : s.reads i ++ (s.clock cfg i).buffer = s.buffer ++ s.takes cfg i := by
  cases hRd : s.fifoRd i with
  | false => simp [reads, hRd, buffer_clock hRst hRd]
  | true =>
    cases hWord : s.buffer with
    | nil => simp [fifoRd, fifoEmpty, hWord] at hRd
    | cons w rest => simp [reads, hRd, clock, bufferNext, takes, hRst, fifoQ, hWord]

theorem still_outside (hState : s.state ≠ .payload) : s.reads i = [] ∧ s.endsPayload i = false := by
  simp [reads, endsPayload, fifoRd, hState]

/-- The start of a frame is signalled in its state and in no other. -/
theorem sof_clock (cfg : TxConfig) (i : TxIn n) (hSof : s.sof = (s.state == .sof)) : (s.clock cfg i).sof = ((s.clock cfg i).state == .sof) := by
  cases hRst : i.rstN with
  | false => simp [clock, pFsm, hRst]
  | true =>
    cases hState : s.state with
    | sof => simp [clock, pFsm, hRst, hState]
    | idle =>
      simp only [clock, pFsm, hRst, hState, Transmitter.idle]
      split_ifs <;> simp_all
    | ethHeader | subframeHeader | payload | crcWord | padding | eof =>
      rw [hState] at hSof
      simp only [clock, pFsm, hRst, hState, Transmitter.ethHeader, Transmitter.subframeHeader, Transmitter.payload,
        Transmitter.crcWord, Transmitter.padding, Bool.not_true, Bool.false_eq_true, if_false]
      split_ifs <;> simp_all

theorem sof_low (hSof : s.sof = (s.state == .sof)) (hState : s.state ≠ .sof) : s.sof = false := by
  simp [hSof, hState]

/-! ### Cycle by cycle -/

theorem state_payload (cfg : TxConfig) (hRst : i.rstN = true) (hState : s.state = .payload) :
    (s.clock cfg i).state = if s.endsPayload i then .crcWord else .payload := by
  cases hDreq : s.dreq i <;> simp [clock, pFsm, hRst, hState, Transmitter.payload, endsPayload, hDreq]

theorem state_outside (cfg : TxConfig) (hRst : i.rstN = true) (hState : s.state ≠ .payload ∧ s.state ≠ .crcWord) :
    (s.clock cfg i).state ≠ .crcWord ∧ ((s.clock cfg i).state = .payload → s.state = .subframeHeader) := by
  obtain ⟨hPayload, hCrc⟩ := hState
  cases hCase : s.state with
  | payload => exact absurd hCase hPayload
  | crcWord => exact absurd hCase hCrc
  | idle =>
    rcases clock_of_idle cfg i hCase with h | h <;> simp [h]
  | sof | ethHeader | subframeHeader | padding | eof =>
    simp only [clock, pFsm, hRst, hCase, Transmitter.ethHeader, Transmitter.subframeHeader, Transmitter.padding]
    split_ifs <;> simp

theorem state_crcWord (cfg : TxConfig) (hRst : i.rstN = true) (hState : s.state = .crcWord) :
    (s.dreq i = false → (s.clock cfg i).state = .crcWord) ∧
      (s.dreq i = true → (s.clock cfg i).state ≠ .crcWord ∧ (s.clock cfg i).state ≠ .payload) := by
  cases hDreq : s.dreq i with
  | false => simp [clock, pFsm, hRst, hState, Transmitter.crcWord, hDreq]
  | true =>
    simp only [clock, pFsm, hRst, hState, Transmitter.crcWord, hDreq]
    split_ifs <;> simp

theorem words_see (hSof : s.sof = false) (hState : s.state ≠ .subframeHeader) :
    (f.see i s).words = f.words ++ s.reads i := by
  cases hRd : s.fifoRd i <;> simp [FrameLog.see, hSof, hState, reads, hRd]

theorem frame_moves (cfg : TxConfig) (sent : List (SentSubframe n)) (f : FrameLog n) (hRst : i.rstN = true)
    (hSof : s.sof = (s.state == .sof)) :
    (f.see i s).payloads (sent ++ f.closes i s) (s.clock cfg i) =
        f.payloads sent s ++ (if s.endsPayload i then [f.current s ++ s.reads i] else []) ∧
      (f.see i s).current (s.clock cfg i) = if s.endsPayload i then [] else f.current s ++ s.reads i := by
  rw [FrameLog.payloads, FrameLog.payloads, FrameLog.current, FrameLog.current]
  cases hCase : s.state with
  | payload =>
    have hWords := words_see (i := i) (f := f) (sof_low hSof (by simp [hCase])) (by simp [hCase])
    have hNext := state_payload cfg (i := i) hRst hCase
    have hNone : f.closes i s = [] := by simp [FrameLog.closes, hCase]
    rw [hWords, hNext, hNone]
    cases s.endsPayload i <;> simp
  | crcWord =>
    obtain ⟨hReads, hEnds⟩ := still_outside (i := i) (s := s) (by simp [hCase])
    obtain ⟨hWaits, hMoves⟩ := state_crcWord cfg (i := i) hRst hCase
    have hWords := words_see (i := i) (f := f) (sof_low hSof (by simp [hCase])) (by simp [hCase])
    rw [hWords, hReads, hEnds]
    cases hDreq : s.dreq i with
    | false =>
      have hNone : f.closes i s = [] := by simp [FrameLog.closes, hDreq]
      simp [hWaits hDreq, hNone]
    | true =>
      have hOne : f.closes i s = [⟨f.seqNo, f.words, i.crcValue⟩] := by
        simp [FrameLog.closes, hCase, hDreq]
      simp [hMoves hDreq, hOne]
  | idle | sof | ethHeader | subframeHeader | padding | eof =>
    obtain ⟨hReads, hEnds⟩ := still_outside (i := i) (s := s) (by simp [hCase])
    obtain ⟨hNotCrc, hEnters⟩ := state_outside cfg (i := i) (s := s) hRst (by simp [hCase])
    have hNone : f.closes i s = [] := by simp [FrameLog.closes, hCase]
    rw [hReads, hEnds, hNone, if_neg hNotCrc]
    refine ⟨by simp, ?_⟩
    simp only [reduceCtorEq, if_false, Bool.false_eq_true, List.append_nil, ite_eq_right_iff]
    intro hPayload
    simp_all [FrameLog.see]

theorem log_moves (cfg : TxConfig) (o : BlockLog n) (hRst : i.rstN = true) (hSof : s.sof = (s.state == .sof)) :
    (o.see cfg i s).payloads (s.clock cfg i) =
        o.payloads s ++ (if s.endsPayload i then [o.frame.current s ++ s.reads i] else []) ∧
      (o.see cfg i s).frame.current (s.clock cfg i) = if s.endsPayload i then [] else o.frame.current s ++ s.reads i := by
  have hSee : o.see cfg i s = ⟨o.accepted ++ s.takes cfg i, o.sent ++ o.frame.closes i s, o.frame.see i s⟩ := by
    rw [BlockLog.see, if_pos hRst]
  rw [hSee]
  exact frame_moves cfg o.sent o.frame hRst hSof

/-! ### Whole runs -/

/-- The accepted words are those of the subframes, each with one block or none, those of the open subframe
and those in the buffer. -/
structure Intact (o : BlockLog n) (s : Transmitter n) : Prop where
  sof : s.sof = (s.state == .sof)
  accepted : o.accepted = (o.payloads s).flatten ++ (o.frame.current s ++ s.buffer)
  unended : Unended (o.frame.current s)
  whole : ∀ words ∈ o.payloads s, Whole words

theorem Intact.kept (h : Intact o s) : o.Kept s := by
  refine ⟨h.whole, ⟨_, h.accepted.symm⟩, ?_⟩
  rw [flagged_flatten h.whole, h.accepted, flagged_append]
  exact List.prefix_append _ _

/-- `PAYLOAD` does not find the buffer empty in the middle of a block, out of reset. -/
def Supplied (i : TxIn n) (p : BlockLog n × Transmitter n) : Prop := i.rstN = true → p.2.Fed i p.1.accepted

instance (i : TxIn n) (p : BlockLog n × Transmitter n) : Decidable (Supplied i p) :=
  inferInstanceAs (Decidable (_ → p.2.Fed i p.1.accepted))

theorem ends_with (hEnds : s.endsPayload i = true) :
    (∃ w, s.reads i = [w] ∧ w.last = true) ∨ s.reads i = [] ∧ s.state = .payload ∧ s.dreq i = true ∧ s.buffer = [] := by
  simp only [endsPayload, Bool.and_eq_true, beq_iff_eq, Bool.or_eq_true] at hEnds
  obtain ⟨⟨hState, hDreq⟩, hWhy⟩ := hEnds
  cases hWord : s.buffer with
  | nil => exact .inr ⟨by simp [reads, fifoRd, fifoEmpty, hWord], hState, hDreq, rfl⟩
  | cons w rest =>
    refine .inl ⟨w, ?_⟩
    simp only [fifoEmpty, hWord, List.isEmpty_cons, Bool.false_eq_true, false_or, fifoQ, List.headD_cons] at hWhy
    simp [reads, fifoRd, fifoEmpty, fifoQ, hState, hDreq, hWord, hWhy]

theorem goes_on_with (hGoes : s.endsPayload i = false) : Unended (s.reads i) := by
  cases hRd : s.fifoRd i with
  | false =>
    rw [reads, hRd]
    exact unended_nil
  | true =>
    intro w hMem
    simp only [fifoRd, Bool.and_eq_true, Bool.not_eq_true'] at hRd
    simp_all [reads, fifoRd, endsPayload]

theorem Intact.takes (cfg : TxConfig) (h : Intact o s) (hRst : i.rstN = true) :
    (o.see cfg i s).accepted = (o.payloads s).flatten ++ (o.frame.current s ++ s.reads i ++ (s.clock cfg i).buffer) := by
  have hSee : (o.see cfg i s).accepted = o.accepted ++ s.takes cfg i := by rw [BlockLog.see, if_pos hRst]
  rw [hSee, h.accepted, List.append_assoc, List.append_assoc, List.append_assoc, reads_buffer cfg s hRst]

theorem Intact.ended (h : Intact o s) (hOk : s.Fed i o.accepted) (hEnds : s.endsPayload i = true) :
    Whole (o.frame.current s ++ s.reads i) := by
  rcases ends_with hEnds with ⟨w, hReads, hLast⟩ | ⟨hReads, hState, hDreq, hNone⟩
  · rw [hReads]
    exact h.unended.whole hLast
  · have hCurrent := current_of_fed hOk hState hDreq hNone h.accepted (endsBlock_flatten h.whole) h.unended
    rw [hReads, hCurrent]
    exact whole_nil

theorem Intact.step (h : Intact o s) (hOk : Supplied i (o, s)) : Intact (o.see cfg i s) (s.clock cfg i) := by
  have hSof := sof_clock cfg i h.sof
  cases hRst : i.rstN with
  | false =>
    have hEmpty : o.see cfg i s = .empty n := by simp [BlockLog.see, hRst]
    have hState : (s.clock cfg i).state = .idle := by simp [clock, pFsm, hRst]
    have hBuffer : (s.clock cfg i).buffer = [] := by simp [clock, bufferNext, hRst]
    rw [hEmpty]
    refine ⟨hSof, ?_, ?_, ?_⟩ <;>
      simp [BlockLog.payloads, FrameLog.payloads, FrameLog.current, BlockLog.empty, hState, hBuffer, Unended]
  | true =>
    obtain ⟨hPayloads, hCurrent⟩ := log_moves cfg o hRst h.sof
    have hTakes := h.takes cfg hRst
    cases hEnds : s.endsPayload i with
    | false =>
      simp only [hEnds, Bool.false_eq_true, if_false, List.append_nil] at hPayloads hCurrent
      refine ⟨hSof, by rw [hTakes, hPayloads, hCurrent], ?_, by rw [hPayloads]; exact h.whole⟩
      rw [hCurrent]
      intro w hMem
      rcases List.mem_append.mp hMem with hOld | hNew
      · exact h.unended w hOld
      · exact goes_on_with hEnds w hNew
    | true =>
      simp only [hEnds, if_true] at hPayloads hCurrent
      refine ⟨hSof, ?_, ?_, ?_⟩
      · rw [hTakes, hPayloads, hCurrent, List.flatten_append, List.flatten_singleton, List.nil_append, ← List.append_assoc]
      · rw [hCurrent]
        exact unended_nil
      · intro words hMem
        rw [hPayloads] at hMem
        rcases List.mem_append.mp hMem with hOld | hNew
        · exact h.whole words hOld
        · rw [List.mem_singleton.mp hNew]
          exact h.ended (hOk hRst) hEnds

theorem Intact.supplied (h : Intact o s) (hKept : (o.see cfg i s).Kept (s.clock cfg i)) : Supplied i (o, s) := by
  intro hRst hState hDreq hNone
  change s.state = .payload at hState
  change s.dreq i = true at hDreq
  change s.buffer = [] at hNone
  have hEnds : s.endsPayload i = true := by simp [endsPayload, hState, hDreq, fifoEmpty, hNone]
  have hReads : s.reads i = [] := by simp [reads, fifoRd, fifoEmpty, hNone]
  have hWhole : Whole (o.frame.current s) := by
    apply hKept.whole _
    rw [(log_moves cfg o hRst h.sof).1, hEnds, hReads]
    simp
  have hAccepted := h.accepted
  rw [h.unended.nil_of_endsBlock (endsBlock_whole hWhole), hNone, List.append_nil, List.append_nil] at hAccepted
  rw [hAccepted]
  exact endsBlock_flatten h.whole

/-- In every state reached the subframes carry the blocks, if and only if the buffer never runs empty in the
middle of a block while a subframe is being sent. -/
theorem subframes_whole_iff (cfg : TxConfig) (s : Transmitter n) (hStart : s.state = .idle ∧ s.sof = false ∧ s.buffer = [])
    (inputs : List (TxIn n)) :
    (∀ before after, inputs = before ++ after →
        let p := run (watch (clock cfg) (BlockLog.see cfg)) before (.empty n, s)
        p.1.Kept p.2) ↔
      Along (watch (clock cfg) (BlockLog.see cfg)) Supplied inputs (.empty n, s) := by
  obtain ⟨hState, hSof, hBuffer⟩ := hStart
  have hGood : ∀ p : BlockLog n × Transmitter n, Intact p.1 p.2 → p.1.Kept p.2 := fun _ h => h.kept
  refine always_iff_along hGood (fun _ _ h hOk => h.step hOk) (fun _ _ h hKept => h.supplied hKept) inputs
    ⟨by simp [hState, hSof], ?_, ?_, ?_⟩ <;>
    simp [BlockLog.payloads, FrameLog.payloads, FrameLog.current, BlockLog.empty, hState, hBuffer, Unended]

/-- A block of two words, the second of them `pause` cycles after the first. -/
def lateSecond (pause : Nat) : List (TxIn 4) :=
  { push 1 with word := ⟨1, false⟩ } :: List.replicate pause (drainIn 4) ++ push 2 :: List.replicate 10 (drainIn 4)

theorem subframes_whole_late :
    (∀ before after, lateSecond 12 = before ++ after →
        let p := run (watch (clock txConfig) (BlockLog.see txConfig)) before (.empty 4, blankTx)
        p.1.Kept p.2) ∧
      (run (watch (clock txConfig) (BlockLog.see txConfig)) (lateSecond 12) (.empty 4, blankTx)).1.accepted =
        [⟨1, false⟩, ⟨2, true⟩] :=
  ⟨(subframes_whole_iff txConfig blankTx ⟨rfl, rfl, rfl⟩ (lateSecond 12)).mpr (by decide +kernel), by decide +kernel⟩

/-- The second word comes as the buffer is found empty, and each word gets a subframe of its own. -/
theorem block_split :
    let p := run (watch (clock txConfig) (BlockLog.see txConfig)) (lateSecond 16) (.empty 4, blankTx)
    p.1.payloads p.2 = [[⟨1, false⟩], [⟨2, true⟩]] ∧ ¬p.1.Kept p.2 := by
  have hSplit : BlockLog.payloads (run (watch (clock txConfig) (BlockLog.see txConfig)) (lateSecond 16) (.empty 4, blankTx)).1
      (run (watch (clock txConfig) (BlockLog.see txConfig)) (lateSecond 16) (.empty 4, blankTx)).2 =
        [[⟨1, false⟩], [⟨2, true⟩]] := by
    decide +kernel
  refine ⟨hSplit, fun hKept => ?_⟩
  have hWhole := hKept.whole [⟨1, false⟩] (by rw [hSplit]; exact List.mem_cons_self)
  exact absurd (hWhole 0 (by decide)) (by decide)

end Transmitter

end WrRfDemo.Streamer

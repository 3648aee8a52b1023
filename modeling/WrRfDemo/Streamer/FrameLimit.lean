import WrRfDemo.Streamer.SentBlocks

/-! # How many data words a frame holds

The words of a frame are counted, but the count is compared with the limit between two blocks only. A frame
keeps to the limit as long as no block is started for which there is no room.
-/

namespace WrRfDemo.Streamer

open Clocked

variable {n : Nat}

/-- The words up to the end of the first block, or all of them. -/
def blockLength : List (TxWord n) → Nat
  | [] => 0
  | w :: rest => if w.last then 1 else blockLength rest + 1

theorem blockLength_append_le {before : List (TxWord n)} (after : List (TxWord n)) (h : ∃ w ∈ before, w.last = true) :
    blockLength (before ++ after) ≤ before.length := by
  induction before with
  | nil =>
    obtain ⟨w, hMem, -⟩ := h
    cases hMem
  | cons v rest ih =>
    rw [List.cons_append, blockLength, List.length_cons]
    cases hLast : v.last with
    | true => simp
    | false =>
      obtain ⟨w, hMem, hEnd⟩ := h
      rcases List.mem_cons.mp hMem with rfl | hRest
      · rw [hLast] at hEnd
        cases hEnd
      · rw [if_neg Bool.false_ne_true]
        exact Nat.add_le_add_right (ih ⟨w, hRest, hEnd⟩) 1

/-- From anywhere in a stream of blocks, the first end of a block is not far. -/
theorem blockLength_drop_le {blocks : List (List (TxWord n))} {bound : Nat}
    (h : ∀ words ∈ blocks, Whole words ∧ words.length ≤ bound) (k : Nat) : blockLength (blocks.flatten.drop k) ≤ bound := by
  induction blocks generalizing k with
  | nil => simp [blockLength]
  | cons words rest ih =>
    obtain ⟨hWhole, hLength⟩ := h words List.mem_cons_self
    rw [List.flatten_cons, List.drop_append]
    rcases Nat.lt_or_ge k words.length with hIn | hOut
    · have hEnd : ∃ w ∈ words.drop k, w.last = true := by
        refine ⟨words[words.length - 1], List.mem_drop_iff_getElem.mpr ⟨words.length - 1 - k, ?_, ?_⟩, ?_⟩
        · omega
        · congr 1
          omega
        · rw [hWhole _ (by omega)]
          simp
          omega
      apply (blockLength_append_le _ hEnd).trans
      rw [List.length_drop]
      omega
    · rw [List.drop_eq_nil_of_le hOut, List.nil_append]
      exact ih (fun other hMem => h other (List.mem_cons_of_mem words hMem)) _

theorem drop_of_isPrefix {accepted stream : List (TxWord n)} (hStream : accepted <+: stream) {k : Nat} {w : TxWord n}
    {rest : List (TxWord n)} (hNext : accepted.drop k = w :: rest) : stream.drop k = w :: stream.drop (k + 1) := by
  obtain ⟨more, rfl⟩ := hStream
  have hIn : k < accepted.length := by
    by_contra hOut
    simp [List.drop_eq_nil_of_le (Nat.le_of_not_lt hOut)] at hNext
  have hTail : accepted.drop (k + 1) = rest := by
    rw [← List.drop_drop, hNext]
    rfl
  rw [List.drop_append_of_le_length (by omega), List.drop_append_of_le_length (by omega), hNext, hTail, List.cons_append]

/-- All words accepted, how many of them have left the buffer (read, or lost to a reset), and the frame so far. -/
structure WordLog (n : Nat) where
  accepted : List (TxWord n)
  gone : Nat
  frame : FrameLog n
deriving DecidableEq

def FrameLog.dataWords (f : FrameLog n) (s : Transmitter n) : List (TxWord n) :=
  (f.payloads f.closed s).flatten ++ f.current s

namespace WordLog

def empty (n : Nat) : WordLog n := ⟨[], 0, .empty n⟩

def see (cfg : TxConfig) (o : WordLog n) (i : TxIn n) (s : Transmitter n) : WordLog n where
  accepted := if i.rstN then o.accepted ++ s.takes cfg i else o.accepted
  gone := if i.rstN then o.gone + (s.reads i).length else o.accepted.length
  frame := o.frame.see i s

end WordLog

namespace Transmitter

variable {cfg : TxConfig} {i : TxIn n} {s : Transmitter n} {f : FrameLog n} {o : WordLog n} {stream : List (TxWord n)}

/-- When the CRC is followed by another subframe, there is room in the frame for the block that comes next
in the stream. -/
def Fits (cfg : TxConfig) (stream : List (TxWord n)) (i : TxIn n) (p : WordLog n × Transmitter n) : Prop :=
  p.2.state = .crcWord → p.2.dreq i = true → p.2.buffer ≠ [] → p.2.count.toNat < cfg.txMaxWordsPerFrame →
    (p.1.frame.dataWords p.2).length + blockLength (stream.drop p.1.gone) ≤ cfg.txMaxWordsPerFrame

instance (i : TxIn n) (p : WordLog n × Transmitter n) : Decidable (Fits cfg stream i p) :=
  inferInstanceAs (Decidable (_ → _ → _ → _ → _))

/-! ### The words of the frame, cycle by cycle -/

theorem dataWords_start (cfg : TxConfig) (f : FrameLog n) (hRst : i.rstN = true) (hState : s.state = .sof) (hSof : s.sof = (s.state == .sof)) :
    (f.see i s).dataWords (s.clock cfg i) = [] := by
  have hNext : (s.clock cfg i).state = .ethHeader := by simp [clock, pFsm, hRst, hState]
  simp [FrameLog.dataWords, FrameLog.payloads, FrameLog.current, FrameLog.see, FrameLog.empty, hSof, hState, hNext]

theorem closed_see (hSof : s.sof = false) : (f.see i s).closed = f.closed ++ f.closes i s := by
  simp [FrameLog.see, hSof]

theorem dataWords_clock (cfg : TxConfig) (f : FrameLog n) (hRst : i.rstN = true) (hState : s.state ≠ .sof)
    (hSof : s.sof = (s.state == .sof)) :
    (f.see i s).dataWords (s.clock cfg i) = f.dataWords s ++ s.reads i := by
  obtain ⟨hPayloads, hCurrent⟩ := frame_moves cfg f.closed f (i := i) hRst hSof
  rw [FrameLog.dataWords, FrameLog.dataWords, closed_see (sof_low hSof hState), hPayloads, hCurrent]
  cases s.endsPayload i <;> simp

theorem dataWords_reset (cfg : TxConfig) (f : FrameLog n) (hRst : i.rstN = false) :
    ((f.see i s).dataWords (s.clock cfg i)).length ≤ (f.dataWords s).length := by
  have hNext : (s.clock cfg i).state = .idle := by simp [clock, pFsm, hRst]
  cases hSof : s.sof with
  | true =>
    simp [FrameLog.dataWords, FrameLog.payloads, FrameLog.current, FrameLog.see, FrameLog.empty, hSof, hNext]
  | false =>
    simp only [FrameLog.dataWords, FrameLog.payloads, FrameLog.current, closed_see hSof, FrameLog.closes, hNext]
    cases hDreq : s.dreq i <;> cases hState : s.state <;> simp

/-! ### Room in the frame -/

/-- What the frame holds in each state, and what will fit into it. -/
inductive Room (cfg : TxConfig) (stream : List (TxWord n)) (o : WordLog n) (s : Transmitter n) : Prop
  | outside (hState : s.state ≠ .ethHeader ∧ s.state ≠ .subframeHeader ∧ s.state ≠ .payload ∧ s.state ≠ .crcWord)
      (hLimit : (o.frame.dataWords s).length ≤ cfg.txMaxWordsPerFrame)
  | header (hState : s.state = .ethHeader) (hNone : o.frame.dataWords s = [])
  | filling (hState : s.state = .subframeHeader ∨ s.state = .payload)
      (hRoom : (o.frame.dataWords s).length + blockLength (stream.drop o.gone) ≤ cfg.txMaxWordsPerFrame)
  | filled (hState : s.state = .crcWord) (hLimit : (o.frame.dataWords s).length ≤ cfg.txMaxWordsPerFrame)

theorem Room.limit (h : Room cfg stream o s) : (o.frame.dataWords s).length ≤ cfg.txMaxWordsPerFrame := by
  cases h with
  | outside _ hLimit => exact hLimit
  | header _ hNone => simp [hNone]
  | filling _ hRoom => exact (Nat.le_add_right _ _).trans hRoom
  | filled _ hLimit => exact hLimit

theorem log_still (cfg : TxConfig) (o : WordLog n) (hRst : i.rstN = true) (hState : s.state ≠ .sof)
    (hSof : s.sof = (s.state == .sof)) (hReads : s.reads i = []) :
    (o.see cfg i s).frame.dataWords (s.clock cfg i) = o.frame.dataWords s ∧ (o.see cfg i s).gone = o.gone := by
  refine ⟨?_, by simp [WordLog.see, hRst, hReads]⟩
  rw [← List.append_nil (o.frame.dataWords s), ← hReads]
  exact dataWords_clock cfg o.frame hRst hState hSof

theorem room_ethHeader (hRst : i.rstN = true) (hSof : s.sof = (s.state == .sof))
    (hBlocks : ∀ k, blockLength (stream.drop k) ≤ cfg.txMaxWordsPerFrame) (hState : s.state = .ethHeader)
    (hNone : o.frame.dataWords s = []) : Room cfg stream (o.see cfg i s) (s.clock cfg i) := by
  obtain ⟨hWords, -⟩ := log_still cfg o (i := i) hRst (by simp [hState]) hSof (still_outside (by simp [hState])).1
  rw [hNone] at hWords
  have hNext : (s.clock cfg i).state = .ethHeader ∨ (s.clock cfg i).state = .subframeHeader := by
    simp only [clock, pFsm, hRst, hState, Transmitter.ethHeader, Bool.not_true, Bool.false_eq_true, if_false]
    split_ifs <;> simp
  rcases hNext with hSame | hOpens
  · exact .header hSame hWords
  · refine .filling (.inl hOpens) ?_
    rw [hWords, List.length_nil, Nat.zero_add]
    exact hBlocks _

theorem room_subframeHeader (hRst : i.rstN = true) (hSof : s.sof = (s.state == .sof)) (hState : s.state = .subframeHeader)
    (hRoom : (o.frame.dataWords s).length + blockLength (stream.drop o.gone) ≤ cfg.txMaxWordsPerFrame) :
    Room cfg stream (o.see cfg i s) (s.clock cfg i) := by
  obtain ⟨hWords, hGone⟩ := log_still cfg o (i := i) hRst (by simp [hState]) hSof (still_outside (by simp [hState])).1
  have hNext : (s.clock cfg i).state = .subframeHeader ∨ (s.clock cfg i).state = .payload := by
    simp only [clock, pFsm, hRst, hState, Transmitter.subframeHeader, Bool.not_true, Bool.false_eq_true, if_false]
    split_ifs <;> simp
  exact .filling hNext (by rwa [hWords, hGone])

theorem word_of_fifoRd (hRd : s.fifoRd i = true) :
    s.dreq i = true ∧ s.endsWord = true ∧ ∃ w rest, s.buffer = w :: rest := by
  simp only [fifoRd, Bool.and_eq_true, Bool.not_eq_true'] at hRd
  obtain ⟨⟨⟨-, hEnd⟩, hDreq⟩, hSome⟩ := hRd
  refine ⟨hDreq, hEnd, ?_⟩
  cases hWord : s.buffer with
  | nil => simp [fifoEmpty, hWord] at hSome
  | cons w rest => exact ⟨w, rest, rfl⟩

theorem room_payload (hRst : i.rstN = true) (hSof : s.sof = (s.state == .sof)) (hBuffer : s.buffer = o.accepted.drop o.gone)
    (hStream : o.accepted <+: stream) (hState : s.state = .payload)
    (hRoom : (o.frame.dataWords s).length + blockLength (stream.drop o.gone) ≤ cfg.txMaxWordsPerFrame) :
    Room cfg stream (o.see cfg i s) (s.clock cfg i) := by
  have hNext := state_payload cfg (i := i) hRst hState
  cases hRd : s.fifoRd i with
  | false =>
    obtain ⟨hWords, hGone⟩ := log_still cfg o (i := i) hRst (by simp [hState]) hSof (by simp [reads, hRd])
    cases hEnds : s.endsPayload i with
    | true =>
      rw [hEnds, if_pos rfl] at hNext
      refine .filled hNext ?_
      rw [hWords]
      exact (Nat.le_add_right _ _).trans hRoom
    | false =>
      rw [hEnds, if_neg Bool.false_ne_true] at hNext
      exact .filling (.inr hNext) (by rwa [hWords, hGone])
  | true =>
    obtain ⟨hDreq, hEnd, w, rest, hWord⟩ := word_of_fifoRd hRd
    have hReads : s.reads i = [w] := by simp [reads, hRd, fifoQ, hWord]
    have hWords := dataWords_clock cfg o.frame hRst (by simp [hState]) hSof
    rw [hReads] at hWords
    have hLength : ((o.see cfg i s).frame.dataWords (s.clock cfg i)).length = (o.frame.dataWords s).length + 1 := by
      rw [WordLog.see, hWords, List.length_append, List.length_singleton]
    have hGone : (o.see cfg i s).gone = o.gone + 1 := by simp [WordLog.see, hRst, hReads]
    have hEnds : s.endsPayload i = w.last := by simp [endsPayload, hState, hDreq, hEnd, fifoEmpty, fifoQ, hWord]
    rw [hEnds] at hNext
    have hDrop := drop_of_isPrefix hStream (by rw [← hBuffer, hWord])
    rw [hDrop, blockLength] at hRoom
    cases hLast : w.last with
    | true =>
      rw [hLast, if_pos rfl] at hRoom hNext
      exact .filled hNext (by rwa [hLength])
    | false =>
      rw [hLast, if_neg Bool.false_ne_true] at hRoom hNext
      refine .filling (.inr hNext) ?_
      rw [hLength, hGone]
      omega

theorem room_crcWord (hRst : i.rstN = true) (hSof : s.sof = (s.state == .sof)) (hFits : Fits cfg stream i (o, s))
    (hState : s.state = .crcWord) (hLimit : (o.frame.dataWords s).length ≤ cfg.txMaxWordsPerFrame) :
    Room cfg stream (o.see cfg i s) (s.clock cfg i) := by
  obtain ⟨hWords, hGone⟩ := log_still cfg o (i := i) hRst (by simp [hState]) hSof (still_outside (by simp [hState])).1
  cases hDreq : s.dreq i with
  | false => exact .filled ((state_crcWord cfg hRst hState).1 hDreq) (by rwa [hWords])
  | true =>
    cases hStop : s.fifoEmpty || decide (cfg.txMaxWordsPerFrame ≤ s.count.toNat) with
    | true =>
      have hNext : (s.clock cfg i).state = .padding := by
        simp [clock, pFsm, hRst, hState, Transmitter.crcWord, hDreq, hStop]
      exact .outside (by simp [hNext]) (by rwa [hWords])
    | false =>
      have hNext : (s.clock cfg i).state = .subframeHeader := by
        simp [clock, pFsm, hRst, hState, Transmitter.crcWord, hDreq, hStop]
      simp only [Bool.or_eq_false_iff, fifoEmpty, List.isEmpty_eq_false_iff, decide_eq_false_iff_not, Nat.not_le] at hStop
      refine .filling (.inl hNext) ?_
      rw [hWords, hGone]
      exact hFits hState hDreq hStop.1 hStop.2

theorem room_outside (hRst : i.rstN = true) (hSof : s.sof = (s.state == .sof))
    (hState : s.state ≠ .ethHeader ∧ s.state ≠ .subframeHeader ∧ s.state ≠ .payload ∧ s.state ≠ .crcWord)
    (hLimit : (o.frame.dataWords s).length ≤ cfg.txMaxWordsPerFrame) : Room cfg stream (o.see cfg i s) (s.clock cfg i) := by
  obtain ⟨hHeader, hSubframe, hPayload, hCrc⟩ := hState
  cases hCase : s.state with
  | ethHeader => exact absurd hCase hHeader
  | subframeHeader => exact absurd hCase hSubframe
  | payload => exact absurd hCase hPayload
  | crcWord => exact absurd hCase hCrc
  | sof =>
    have hNext : (s.clock cfg i).state = .ethHeader := by simp [clock, pFsm, hRst, hCase]
    exact .header hNext (dataWords_start cfg o.frame hRst hCase hSof)
  | idle =>
    have hNext := clock_of_idle cfg i hCase
    obtain ⟨hWords, -⟩ := log_still cfg o (i := i) hRst (by simp [hCase]) hSof (still_outside hPayload).1
    refine .outside ?_ (by rwa [hWords])
    rcases hNext with h | h <;> simp [h]
  | padding | eof =>
    obtain ⟨hWords, -⟩ := log_still cfg o (i := i) hRst (by simp [hCase]) hSof (still_outside hPayload).1
    refine .outside ?_ (by rwa [hWords])
    simp only [clock, pFsm, hRst, hCase, Transmitter.padding]
    split_ifs <;> simp

/-! ### Whole runs -/

/-- The buffer holds the accepted words that have not left it, and there is room in the frame. -/
structure Limited (cfg : TxConfig) (stream : List (TxWord n)) (o : WordLog n) (s : Transmitter n) : Prop where
  sof : s.sof = (s.state == .sof)
  buffer : s.buffer = o.accepted.drop o.gone
  gone : o.gone ≤ o.accepted.length
  room : Room cfg stream o s

theorem Limited.step (h : Limited cfg stream o s)
    (hBlocks : ∀ k, blockLength (stream.drop k) ≤ cfg.txMaxWordsPerFrame) (hStream : (o.see cfg i s).accepted <+: stream)
    (hFits : Fits cfg stream i (o, s)) : Limited cfg stream (o.see cfg i s) (s.clock cfg i) := by
  have hSof := sof_clock cfg i h.sof
  cases hRst : i.rstN with
  | false =>
    have hState : (s.clock cfg i).state = .idle := by simp [clock, pFsm, hRst]
    have hBuffer : (s.clock cfg i).buffer = [] := by simp [clock, bufferNext, hRst]
    refine ⟨hSof, ?_, ?_, .outside (by simp [hState]) ((dataWords_reset cfg o.frame hRst).trans h.room.limit)⟩
    · simp [WordLog.see, hRst, hBuffer]
    · simp [WordLog.see, hRst]
  | true =>
    have hAccepted : (o.see cfg i s).accepted = o.accepted ++ s.takes cfg i := by simp [WordLog.see, hRst]
    have hGone : (o.see cfg i s).gone = o.gone + (s.reads i).length := by simp [WordLog.see, hRst]
    have hMoved := reads_buffer cfg s hRst
    have hBefore : o.accepted <+: stream := (hAccepted ▸ List.prefix_append _ _ : o.accepted <+: _).trans hStream
    refine ⟨hSof, ?_, ?_, ?_⟩
    · rw [hAccepted, hGone, ← List.drop_drop, List.drop_append_of_le_length h.gone, ← h.buffer, ← hMoved, List.drop_left]
    · have hLengths := congrArg List.length hMoved
      rw [h.buffer] at hLengths
      simp only [List.length_append, List.length_drop] at hLengths
      rw [hAccepted, hGone, List.length_append]
      have := h.gone
      omega
    · cases h.room with
      | outside hState hLimit => exact room_outside hRst h.sof hState hLimit
      | header hState hNone => exact room_ethHeader hRst h.sof hBlocks hState hNone
      | filled hState hLimit => exact room_crcWord hRst h.sof hFits hState hLimit
      | filling hState hRoom =>
        rcases hState with hState | hState
        · exact room_subframeHeader hRst h.sof hState hRoom
        · exact room_payload hRst h.sof h.buffer hBefore hState hRoom

/-- No frame holds more words than the limit, as long as no block is started for which there is no room. -/
theorem frame_limit (cfg : TxConfig) (s : Transmitter n) (hStart : s.state = .idle ∧ s.sof = false ∧ s.buffer = [])
    (blocks : List (List (TxWord n))) (hBlocks : ∀ words ∈ blocks, Whole words ∧ words.length ≤ cfg.txMaxWordsPerFrame)
    (inputs : List (TxIn n)) :
    let p := run (watch (clock cfg) (WordLog.see cfg)) inputs (.empty n, s)
    p.1.accepted <+: blocks.flatten → Along (watch (clock cfg) (WordLog.see cfg)) (Fits cfg blocks.flatten) inputs (.empty n, s) →
      (p.1.frame.dataWords p.2).length ≤ cfg.txMaxWordsPerFrame := by
  intro p hStream hFits
  obtain ⟨hState, hSof, hBuffer⟩ := hStart
  have hBack : ∀ i (p : WordLog n × Transmitter n), (watch (clock cfg) (WordLog.see cfg) i p).1.accepted <+: blocks.flatten →
      p.1.accepted <+: blocks.flatten := by
    intro i p hNext
    refine List.IsPrefix.trans ?_ hNext
    rw [watch_fst, WordLog.see]
    cases i.rstN <;> simp
  have hAccepts := (@along_of_last _ _ _ (fun p : WordLog n × Transmitter n => p.1.accepted <+: blocks.flatten) hBack
    inputs _ hStream).1
  have hInit : Limited cfg blocks.flatten (.empty n) s :=
    ⟨by simp [hState, hSof], by simp [WordLog.empty, hBuffer], Nat.zero_le _, .outside (by simp [hState])
      (by simp [FrameLog.dataWords, FrameLog.payloads, FrameLog.current, WordLog.empty, FrameLog.empty, hState])⟩
  have hLimited : Limited cfg blocks.flatten p.1 p.2 :=
    watched_invariant (fun _ _ _ h hOk => h.step (blockLength_drop_le hBlocks) hOk.1 hOk.2) inputs hInit (hAccepts.and hFits)
  exact hLimited.room.limit

def limitTwo : TxConfig := { txConfig with txMaxWordsPerFrame := 2 }

/-- A block of one word and one of the given words, pushed one after the other. -/
def oneThen (words : List (TxWord 4)) : List (TxIn 4) :=
  push 1 :: words.map (fun w => { push 0 with word := w }) ++ List.replicate 40 (drainIn 4)

theorem frame_limit_two :
    let p := run (watch (clock limitTwo) (WordLog.see limitTwo)) (oneThen [⟨2, true⟩]) (.empty 4, blankTx)
    (p.1.frame.dataWords p.2).length ≤ 2 :=
  frame_limit limitTwo blankTx ⟨rfl, rfl, rfl⟩ [[⟨1, true⟩], [⟨2, true⟩]] (by decide) (oneThen [⟨2, true⟩])
    (by decide +kernel) (by decide +kernel)

/-- One word leaves room for one word more, but a block of two words follows. -/
theorem limit_exceeded : ¬ ∀ (blocks : List (List (TxWord 4))) (inputs : List (TxIn 4)),
    (∀ words ∈ blocks, Whole words ∧ words.length ≤ 2) →
      let p := run (watch (clock limitTwo) (WordLog.see limitTwo)) inputs (.empty 4, blankTx)
      p.1.accepted <+: blocks.flatten → (p.1.frame.dataWords p.2).length ≤ 2 := by
  intro hAll
  have hLength := hAll [[⟨1, true⟩], [⟨2, false⟩, ⟨3, true⟩]] (oneThen [⟨2, false⟩, ⟨3, true⟩]) (by decide) (by decide +kernel)
  exact absurd hLength (by decide +kernel)

end Transmitter

end WrRfDemo.Streamer

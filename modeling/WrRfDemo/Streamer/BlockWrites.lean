import WrRfDemo.Streamer.HandOver
import WrRfDemo.Streamer.Blocks

/-! # What a block writes, width by width

The half-words of a block and its CRC, with any idle cycles between them, and then the escaped
word that closes the subframe. Three or more half-words in a word, as many as the 4-bit counter
can count, give the words of the block; with two the CRC flushes the last word before it can be
marked, with one it takes that word's place, and with more than sixteen no word is ever complete.
-/

namespace WrRfDemo.Streamer

open Clocked

variable {a n : Nat} {cfg : RxConfig}

/-- A cycle within a subframe that does not close it. -/
structure FsmIn.Plain (i : FsmIn) : Prop where
  rstN : i.rstN = true
  eof : i.eof = false
  escape : i.dvalid = true → i.isEscape = false

instance (i : FsmIn) : Decidable i.Plain :=
  decidable_of_iff (i.rstN = true ∧ i.eof = false ∧ (i.dvalid = true → i.isEscape = false))
    ⟨fun h => ⟨h.1, h.2.1, h.2.2⟩, fun h => ⟨h.rstN, h.eof, h.escape⟩⟩

/-- The escaped word of the next subframe or of the end, behind a CRC that matches. -/
structure FsmIn.Closing (i : FsmIn) : Prop where
  rstN : i.rstN = true
  eof : i.eof = false
  dvalid : i.dvalid = true
  escape : i.isEscape = true
  closes : closes i.data = true
  crcMatch : i.crcMatch = true

def FsmIn.half (i : FsmIn) : List (BitVec 16) := if i.dvalid then [i.data] else []

/-- The cycles before the closing word present these half-words. -/
structure Carries (halves : List (BitVec 16)) (inputs : List RxCoreIn) : Prop where
  plain : ∀ i ∈ inputs, i.fsm.Plain
  halves : inputs.flatMap (fun i => i.fsm.half) = halves

/-- The words at the write port of the buffer, each as the registers begin to show it. -/
def written (cfg : RxConfig) (o : List (FifoWord n)) (i : RxCoreIn) (s : RxCore a n) : List (FifoWord n) :=
  o ++ (s.clock cfg i).fsm.dinList

namespace RxFsm

/-- Behind the header of a subframe. -/
structure Opened (f : RxFsm n) : Prop where
  state : f.state = .payload
  serCount : f.serCount = 0
  pendingWrite : f.pendingWrite = false
  gotNext : f.gotNextSubframe = true

theorem opened_first (i : FsmIn) (f : RxFsm n) (hPending : f.pendingWrite = false) (hEof : i.eof = false)
    (hHeader : (i.dvalid && i.isEscape) = true) : (f.subframeHeader i).Opened := by
  unfold subframeHeader
  obtain ⟨_, _, _, hLatency⟩ := measureLatency_eq i { f with fifoDrop := false, fifoAccept := false, serCount := 0 }
  rw [hLatency]
  dsimp only
  obtain ⟨_, _, hCheck⟩ := checkSeqNo_eq i.data _
  rw [hEof, if_neg Bool.false_ne_true, hHeader, if_pos rfl, hCheck]
  exact ⟨rfl, rfl, hPending, rfl⟩

theorem opened_next (i : FsmIn) (f : RxFsm n) (hState : f.state = .payload) (hEof : i.eof = false)
    (hWord : i.dvalid = true) (hEscape : i.isEscape = true) (hMsb : i.data.msb = true) : (f.payload i).Opened := by
  unfold payload close
  obtain ⟨_, _, hCheck⟩ := checkSeqNo_eq i.data { f with serCount := 0, fifoLast := true, gotNextSubframe := true }
  rw [hEof, if_neg Bool.false_ne_true, hWord, if_pos rfl, hEscape, if_pos rfl, hMsb]
  dsimp only
  rw [if_pos rfl, hCheck]
  exact ⟨hState, rfl, rfl, rfl⟩

theorem payload_half (i : FsmIn) (f : RxFsm n) (hEof : i.eof = false) (hWord : i.dvalid = true)
    (hEscape : i.isEscape = false) :
    f.payload i = { f.pack i with fifoSync := !f.fifoDvalid && f.gotNextSubframe } := by
  simp [payload, hEof, hWord, hEscape]

end RxFsm

/-! ### The cycles of a block -/

/-- What holds of the half-words so far, the words written and the registers, and is kept by an idle
cycle and by one more half-word. -/
structure Kept (P : List (BitVec 16) → List (FifoWord n) → RxFsm n → Prop) : Prop where
  gap : ∀ {i : FsmIn} {halves o f}, P halves o f → i.eof = false → i.dvalid = false → P halves o (f.payload i)
  half : ∀ {i : FsmIn} {halves o f}, P halves o f → i.eof = false → i.dvalid = true → i.isEscape = false →
    P (halves ++ [i.data]) (o ++ (f.payload i).dinList) (f.payload i)

variable {P : List (BitVec 16) → List (FifoWord n) → RxFsm n → Prop}

theorem Kept.step (cfg : RxConfig) (h : Kept P) {i : RxCoreIn} (hPlain : i.fsm.Plain) {halves : List (BitVec 16)} {o : List (FifoWord n)}
    {s : RxCore a n} (hState : s.fsm.state = .payload) (hP : P halves o s.fsm) :
    P (halves ++ i.fsm.half) (written cfg o i s) (s.clock cfg i).fsm ∧ (s.clock cfg i).fsm.state = .payload := by
  rw [written, clock_payload cfg hPlain.rstN hState]
  cases hWord : i.fsm.dvalid with
  | false =>
    have hGap := h.gap hP hPlain.eof hWord
    have hNone : (s.fsm.payload i.fsm).dinList = [] := by simp [payload_gap _ _ hPlain.eof hWord, RxFsm.dinList]
    rw [FsmIn.half, hWord, if_neg Bool.false_ne_true, hNone, List.append_nil, List.append_nil]
    exact ⟨hGap, by rw [payload_gap _ _ hPlain.eof hWord, hState]⟩
  | true =>
    have hEscape := hPlain.escape hWord
    rw [FsmIn.half, hWord, if_pos rfl]
    exact ⟨h.half hP hPlain.eof hWord hEscape, (strobes_pack _ _ hPlain.eof hWord hEscape).2.2.trans hState⟩

theorem Kept.along (cfg : RxConfig) (h : Kept P) (inputs : List RxCoreIn) (hPlain : ∀ i ∈ inputs, i.fsm.Plain) {halves : List (BitVec 16)}
    {o : List (FifoWord n)} {s : RxCore a n} (hState : s.fsm.state = .payload) (hP : P halves o s.fsm) :
    let p := run (watch (RxCore.clock cfg) (written cfg)) inputs (o, s)
    P (halves ++ inputs.flatMap fun i => i.fsm.half) p.1 p.2.fsm ∧ p.2.fsm.state = .payload := by
  induction inputs generalizing halves o s with
  | nil => simpa using ⟨hP, hState⟩
  | cons i rest ih =>
    obtain ⟨hNext, hNextState⟩ := h.step cfg (hPlain i List.mem_cons_self) hState hP
    rw [List.flatMap_cons, ← List.append_assoc]
    exact ih (fun j hj => hPlain j (List.mem_cons_of_mem i hj)) hNextState hNext

/-! ### Words of two to sixteen half-words -/

theorem kept_assembles (hn : 2 ≤ n ∧ n ≤ 16) : Kept fun halves o (f : RxFsm n) => f.Assembles halves ∧ o = issuedWords n halves where
  gap h hEof hWord := ⟨h.1.gap hEof hWord, h.2⟩
  half h hEof hWord hEscape := by
    obtain ⟨hAssembles, rfl⟩ := h
    exact ⟨(hAssembles.pack hn hEof hWord hEscape).1,
      by rw [issuedWords_concat hn.1, hAssembles.dinList_pack hn hEof hWord hEscape]⟩

/-- Behind the half-words of its words and a CRC, the last word is not marked last. -/
theorem completedWords_two (words : List (TxWord 2)) (crc : BitVec 16) :
    ∀ w ∈ completedWords 2 (halvesOf words ++ [crc]), w.last = false := by
  intro w hw
  obtain ⟨k, -, rfl⟩ := List.mem_map.mp hw
  have hLength : (halvesOf words ++ [crc]).length = words.length * 2 + 1 := by
    rw [List.length_append, length_halvesOf, List.length_singleton]
  have hFlushed : waits 2 (halvesOf words ++ [crc]).length = false := by
    simp only [waits, hLength, decide_eq_false_iff_not]
    omega
  rw [hFlushed, Bool.false_and]

theorem last_of_whole {words : List (TxWord n)} (hWhole : Whole words) (hSome : words ≠ []) :
    ∃ w ∈ flagged true words, w.last = true := by
  have hLength := List.length_pos_iff.mpr hSome
  have hIn : words.length - 1 < words.length := by omega
  have hFlagged : words.length - 1 < (flagged true words).length := by rwa [length_flagged]
  refine ⟨_, List.getElem_mem hFlagged, ?_⟩
  rw [getElem_flagged words true hIn, hWhole _ hIn]
  simp
  omega

/-! ### Words of one half-word -/

/-- Each half-word takes the place of the one before, which nothing has written. -/
structure Replaced (halves : List (BitVec 16)) (o : List (FifoWord n)) (f : RxFsm n) : Prop where
  silent : o = []
  serCount : f.serCount = 0
  gotNext : f.gotNextSubframe = true
  waiting : f.pendingWrite = !halves.isEmpty
  free : f.pendingWrite = true → f.fifoDvalid = false
  data : ∀ w, halves.getLast? = some w → field 0 16 f.fifoData = w

theorem kept_replaced : Kept (n := 1) Replaced where
  gap {i halves o f} h hEof hWord := by
    rw [payload_gap i f hEof hWord]
    exact ⟨h.silent, h.serCount, h.gotNext, h.waiting, fun _ => rfl, h.data⟩
  half {i halves o f} h hEof hWord hEscape := by
    have hNext : f.payload i = { f with
        fifoLast := false, fifoAccept := false, fifoDrop := false,
        packData := setField 0 i.data f.packData, fifoData := setField 0 i.data f.packData,
        serCount := 0, pendingWrite := true, fifoDvalid := false,
        fifoSync := !f.fifoDvalid && f.gotNextSubframe } := by
      rw [RxFsm.payload_half i f hEof hWord hEscape]
      simp [RxFsm.pack, h.serCount]
    rw [hNext]
    constructor
    case silent => simpa [RxFsm.dinList] using h.silent
    case serCount => rfl
    case gotNext => exact h.gotNext
    case waiting => simp
    case free => exact fun _ => rfl
    case data =>
      intro w hw
      rw [List.getLast?_concat, Option.some.injEq] at hw
      rw [← hw]
      exact field_setField_same _ _ (by decide)

/-! ### Words of more than sixteen half-words -/

theorem kept_stuck (hn : 17 ≤ n) : Kept fun _ o (f : RxFsm n) => o = [] ∧ f.pendingWrite = false where
  gap h hEof hWord := by
    rw [payload_gap _ _ hEof hWord]
    exact h
  half {i _ o f} h hEof hWord hEscape := by
    have hCount := f.serCount.isLt
    have hNext : (f.pack i).pendingWrite = false ∧ (f.pack i).fifoDvalid = false := by
      unfold RxFsm.pack
      dsimp only
      rw [if_neg (by omega), if_neg (by simp [h.2])]
      exact ⟨h.2, rfl⟩
    rw [RxFsm.payload_half i f hEof hWord hEscape]
    exact ⟨by simp [RxFsm.dinList, hNext.2, h.1], hNext.1⟩

/-! ### A block -/

theorem kept_fifoAccept : Kept fun halves _ (f : RxFsm n) => halves ≠ [] → f.fifoAccept = false where
  gap h hEof hWord := by
    rw [payload_gap _ _ hEof hWord]
    exact h
  half _ hEof hWord hEscape _ := (strobes_pack _ _ hEof hWord hEscape).1

/-- The words of the block have been shown to the buffer, which is still to see the accept. -/
structure BlockWritten (words : List (TxWord n)) (p : List (FifoWord n) × RxCore a n) : Prop where
  words : p.1 = flagged true words
  accept : p.2.fsm.fifoAccept = true ∧ p.2.fifoAcceptD0 = false

variable {s : RxCore a n} {words : List (TxWord n)} {crc : BitVec 16} {inputs : List RxCoreIn} {i : RxCoreIn}

theorem Kept.close (cfg : RxConfig) (h : Kept P) (hCarries : Carries (halvesOf words ++ [crc]) inputs) (hClosing : i.fsm.Closing)
    (hState : s.fsm.state = .payload) (hP : P [] [] s.fsm) :
    ∃ o f, P (halvesOf words ++ [crc]) o f ∧
      (BlockWritten words (run (watch (RxCore.clock cfg) (written cfg)) (inputs ++ [i]) ([], s)) ↔
        o ++ (f.payload i.fsm).dinList = flagged true words) := by
  let p := run (watch (RxCore.clock cfg) (written cfg)) inputs ([], s)
  obtain ⟨hEnd, hEndState⟩ := h.along cfg inputs hCarries.plain hState hP
  obtain ⟨hQuiet, -⟩ := (kept_fifoAccept (n := n)).along cfg inputs hCarries.plain hState
    (fun hNot => absurd rfl hNot)
  rw [List.nil_append, hCarries.halves] at hEnd hQuiet
  have hLow : p.2.fsm.fifoAccept = false := hQuiet (by simp)
  have hFsm : (p.2.clock cfg i).fsm = p.2.fsm.payload i.fsm := clock_payload cfg hClosing.rstN hEndState
  have hAccept : (p.2.clock cfg i).fsm.fifoAccept = true := by
    rw [hFsm, (strobes_close _ _ hClosing.eof hClosing.dvalid hClosing.escape hClosing.closes).1, hClosing.crcMatch]
  have hWritten : (run (watch (RxCore.clock cfg) (written cfg)) (inputs ++ [i]) ([], s)).1 =
      p.1 ++ (p.2.fsm.payload i.fsm).dinList := by
    rw [run_append, run_cons, run_nil, watch_fst, written, hFsm]
  refine ⟨p.1, p.2.fsm, hEnd, ?_⟩
  rw [← hWritten]
  refine ⟨fun hDone => hDone.words, fun hWords => ⟨hWords, ?_⟩⟩
  rw [run_append, run_cons, run_nil, watch_snd]
  exact ⟨hAccept, hLow⟩

theorem dinList_close (i : FsmIn) (f : RxFsm n) (hClosing : i.Closing) :
    (f.payload i).dinList = if f.pendingWrite && !f.fifoDvalid then
      [⟨f.fifoData, !f.fifoDvalid && f.gotNextSubframe, true⟩] else [] := by
  obtain ⟨-, -, hValid, hDin⟩ := strobes_close i f hClosing.eof hClosing.dvalid hClosing.escape hClosing.closes
  rw [RxFsm.dinList, hValid, hDin]

/-- The word that a one half-word wide receiver writes is the block only where it happens to be. -/
theorem replaced_block {words : List (TxWord 1)} (hWhole : Whole words) (hSome : words ≠ []) {v : BitVec (16 * 1)}
    (hData : field 0 16 v = crc) : [⟨v, true, true⟩] = flagged true words ↔ halvesOf words = [crc] := by
  obtain ⟨w, rest, rfl⟩ := List.exists_cons_of_ne_nil hSome
  have hHalf : halfWords w = [field 0 16 w.data] := rfl
  rw [halvesOf_cons, hHalf, flagged, List.singleton_append]
  constructor
  · intro hBlock
    obtain ⟨hWord, hNone⟩ := List.cons_eq_cons.mp hBlock
    rw [FifoWord.mk.injEq] at hWord
    have hRest : rest = [] := by
      rw [← List.length_eq_zero_iff, ← length_flagged w.last, ← hNone, List.length_nil]
    rw [← hWord.1, hData, hRest, halvesOf_nil]
  · intro hHalves
    obtain ⟨hWord, hNone⟩ := List.cons_eq_cons.mp hHalves
    have hRest : rest = [] := by
      rw [← List.length_eq_zero_iff, ← Nat.mul_one rest.length, ← length_halvesOf, hNone, List.length_nil]
    subst hRest
    have hLast : w.last = true := hWhole 0 (by simp)
    have hSame : v = w.data := by
      refine Packs.eq (length_halfWords w) (fun k hk => ?_) (fun k hk => ?_)
      · obtain rfl : k = 0 := by simpa using hk
        exact hData.trans hWord.symm
      · obtain rfl : k = 0 := by simpa using hk
        rfl
    rw [hSame, hLast]
    rfl

/-- A block is written as its words, with the first and the last of them marked, if and only if a
word has three to sixteen half-words, or has one and is, alone in its block, what the CRC is. -/
theorem block_written_iff (hn : 1 ≤ n) (hOpened : s.fsm.Opened) (hWhole : Whole words) (hSome : words ≠ [])
    (hCarries : Carries (halvesOf words ++ [crc]) inputs) (hClosing : i.fsm.Closing) :
    BlockWritten words (run (watch (RxCore.clock cfg) (written cfg)) (inputs ++ [i]) ([], s)) ↔
      (3 ≤ n ∧ n ≤ 16) ∨ (n = 1 ∧ halvesOf words = [crc]) := by
  obtain ⟨hState, hSer, hPending, hNext⟩ := hOpened
  rcases Nat.lt_or_ge n 17 with hNarrow | hWide
  · rcases Nat.lt_or_ge n 2 with hOne | hTwo
    · obtain rfl : n = 1 := by omega
      have hStart : Replaced [] [] s.fsm := ⟨rfl, hSer, hNext, hPending, by simp [hPending], by simp⟩
      obtain ⟨o, f, hEnd, hIff⟩ := kept_replaced.close cfg hCarries hClosing hState hStart
      have hWaits : f.pendingWrite = true := by rw [hEnd.waiting]; simp
      rw [hIff, hEnd.silent, dinList_close _ _ hClosing, hWaits, hEnd.free hWaits, hEnd.gotNext]
      exact (replaced_block hWhole hSome (hEnd.data crc List.getLast?_concat)).trans (by simp)
    · have hStart := RxFsm.assembles_nil hTwo hSer hPending hNext
      obtain ⟨o, f, ⟨hEnd, hIssued⟩, hIff⟩ := (kept_assembles ⟨hTwo, by omega⟩).close cfg hCarries hClosing hState
        ⟨hStart, (issuedWords_nil (by omega)).symm⟩
      have hAll : o ++ (f.payload i.fsm).dinList = completedWords n (halvesOf words ++ [crc]) := by
        rw [hIssued, completedWords_eq (by omega),
          hEnd.dinList_close hTwo hClosing.eof hClosing.dvalid hClosing.escape hClosing.closes]
      rw [hIff, hAll]
      rcases Nat.lt_or_ge n 3 with hFlush | hThree
      · obtain rfl : n = 2 := by omega
        obtain ⟨w, hMem, hLast⟩ := last_of_whole hWhole hSome
        constructor
        · intro hWords
          have := completedWords_two words crc w (hWords ▸ hMem)
          rw [hLast] at this
          cases this
        · intro hOr
          omega
      · exact ⟨fun _ => .inl ⟨hThree, by omega⟩, fun _ => completedWords_block hThree hWhole crc⟩
  · obtain ⟨o, f, hEnd, hIff⟩ := (kept_stuck hWide).close cfg hCarries hClosing hState ⟨rfl, hPending⟩
    have hLength : (flagged true words).length ≠ 0 := by
      rw [length_flagged]
      exact fun hNone => hSome (List.length_eq_zero_iff.mp hNone)
    rw [hIff, hEnd.1, dinList_close _ _ hClosing, hEnd.2]
    constructor
    · intro hNone
      rw [← hNone] at hLength
      exact absurd rfl hLength
    · intro hOr
      omega

/-! ### Blocks of one word and of two -/

def openedRx (n : Nat) : RxCore 1 n :=
  ⟨⟨.payload, 9, 0, 1, true, true, 0, 0, false, false, false, false, false, false, false, true, 0, false, 0, false⟩,
    false, ⟨0, 0, 0, true, fun _ => ⟨0, false, false⟩, ⟨0, false, false⟩, false⟩⟩

def longBlock : List RxCoreIn :=
  unread ([1, 2].map plain ++ mark false false :: [3, 4, 5, 6].map plain ++ mark false false :: [7, 8, 0x1234].map plain)

def shortBlock : List RxCoreIn := unread ([1, 2, 0x1234].map plain)

def closingCycle : RxCoreIn := ⟨escaped 0x0bad, false⟩

theorem opened_openedRx (n : Nat) : (openedRx n).fsm.Opened := ⟨rfl, rfl, rfl, rfl⟩

theorem closing_closingCycle : closingCycle.fsm.Closing := ⟨rfl, rfl, rfl, rfl, rfl, rfl⟩

theorem whole_single (w : TxWord n) (hLast : w.last = true) : Whole [w] := by
  intro k hk
  obtain rfl : k = 0 := by simpa using hk
  exact hLast

/-- An idle cycle in each of two words. -/
theorem block_written_sixtyFour :
    BlockWritten [(⟨0x0004000300020001, false⟩ : TxWord 4), ⟨0x0008000700060005, true⟩]
      (run (watch (RxCore.clock rxConfig) (written rxConfig)) (longBlock ++ [closingCycle]) ([], openedRx 4)) :=
  have hWhole : Whole [(⟨0x0004000300020001, false⟩ : TxWord 4), ⟨0x0008000700060005, true⟩] := by decide
  have hCarries : Carries (halvesOf [(⟨0x0004000300020001, false⟩ : TxWord 4), ⟨0x0008000700060005, true⟩] ++ [0x1234]) longBlock :=
    ⟨by decide, by decide +kernel⟩
  (block_written_iff (by decide) (opened_openedRx 4) hWhole (by decide) hCarries closing_closingCycle).mpr (.inl (by decide))

/-- At a width of 32 bits the only word of a block is not marked last. -/
theorem last_word_unmarked :
    (run (watch (RxCore.clock rxConfig) (written rxConfig)) (shortBlock ++ [closingCycle]) ([], openedRx 2)).1 =
      [⟨0x00020001, true, false⟩] ∧
    ¬ ∀ (words : List (TxWord 2)) (crc : BitVec 16) (inputs : List RxCoreIn) (i : RxCoreIn) (s : RxCore 1 2),
      s.fsm.Opened → Whole words → words ≠ [] → Carries (halvesOf words ++ [crc]) inputs → i.fsm.Closing →
        BlockWritten words (run (watch (RxCore.clock rxConfig) (written rxConfig)) (inputs ++ [i]) ([], s)) := by
  have hRun : (run (watch (RxCore.clock rxConfig) (written rxConfig)) (shortBlock ++ [closingCycle])
      ([], openedRx 2)).1 = [⟨0x00020001, true, false⟩] := by decide +kernel
  refine ⟨hRun, fun h => ?_⟩
  have hBlock := (h [⟨0x00020001, true⟩] 0x1234 shortBlock closingCycle (openedRx 2) (opened_openedRx 2)
    (whole_single _ rfl) (by decide) ⟨by decide, by decide +kernel⟩ closing_closingCycle).words
  rw [hRun] at hBlock
  cases hBlock

end WrRfDemo.Streamer

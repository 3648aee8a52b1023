import Mathlib.Tactic.IntervalCases
import WrRfDemo.Streamer.Crc
import WrRfDemo.Streamer.FrameWriter

/-! # The blocks in what the transmitter writes

A reader that is ahead by the words on their way out has committed the blocks whose CRC has been
confirmed by a header or by the padding, and has opened the block that is being written. Its CRC
is the one that the transmitter's CRC generator shows.
-/

namespace WrRfDemo.Streamer

open Clocked

variable {κ : Type*} {n : Nat}

namespace Transmitter

/-! ### The CRC generator -/

def crcNow (c : CrcRegister κ) (k : κ) (s : Transmitter n) : κ :=
  if s.crcEn && s.dvalid then c.update s.data k else k

def crcNext (c : CrcRegister κ) (k : κ) (s : Transmitter n) : κ := if s.crcReset then c.init else s.crcNow c k

variable {c : CrcRegister κ} {k : κ} {s : Transmitter n} {i : TxIn n} {txc : TxConfig} {rxc : RxConfig}

theorem Controlled.crcNow_outside (h : s.Controlled) (hState : s.state ≠ .payload ∧ s.state ≠ .crcWord) :
    s.crcNow c k = k := by
  have hOff : (s.crcEn && s.dvalid) = false := by
    cases hCase : s.state with
    | payload => exact absurd hCase hState.1
    | crcWord => exact absurd hCase hState.2
    | idle => rw [h.low (.inl hCase), Bool.and_false]
    | sof => rw [h.low (.inr hCase), Bool.and_false]
    | ethHeader => rw [(h.header (.inr hCase)).2.2, Bool.false_and]
    | padding => rw [h.closed (.inl hCase), Bool.false_and]
    | eof => rw [h.closed (.inr hCase), Bool.false_and]
    | subframeHeader =>
      cases hEn : s.crcEn with
      | false => rfl
      | true => rw [(h.subframe hCase).2 hEn, Bool.and_false]
  rw [crcNow, hOff, if_neg (by decide)]

theorem Controlled.crcNext_init (h : s.Controlled) (hState : s.state ≠ .payload ∧ s.state ≠ .crcWord) :
    s.crcNext c c.init = c.init := by
  rw [crcNext, h.crcNow_outside hState]
  split_ifs <;> rfl

/-! ### The buffer -/

def takes (txc : TxConfig) (i : TxIn n) (s : Transmitter n) : List (TxWord n) :=
  if s.fifoWe txc i then [i.word] else []

theorem buffer_clock (hRst : i.rstN = true) (hRd : s.fifoRd i = false) :
    (s.clock txc i).buffer = s.buffer ++ s.takes txc i := by
  simp [clock, bufferNext, takes, hRst, hRd]

theorem fifoRd_outside (hState : s.state ≠ .payload) : s.fifoRd i = false := by
  simp [fifoRd, hState]

/-- The half-words of the oldest word that have been presented. -/
def begun (s : Transmitter n) : List (BitVec 16) :=
  match s.buffer with
  | [] => []
  | w :: _ => (halfWords w).take s.serCount.toNat

theorem begun_start (hSer : s.serCount = 0) : s.begun = [] := by
  rw [begun, hSer]
  split <;> simp

/-! ### Where the blocks stand -/

/-- Where a reader stands outside the subframes. -/
def front (s : Transmitter n) : ReadPhase :=
  match s.state with
  | .idle => if s.eof then .tail else .idle
  | .sof => .idle
  | .ethHeader => .header (.ofNat 4 s.count.toNat)
  | .subframeHeader => .subframeHeader
  | _ => .tail

/-- The accepted words are those of the blocks that are done, those of the current block and those
in the buffer. -/
inductive Writing (c : CrcRegister κ) (accepted : List (TxWord n)) (s : Transmitter n) (k : κ) (r : Reader κ n) : Prop
  | outside (done : List (TxWord n)) (kr : κ) (hState : s.state ≠ .payload ∧ s.state ≠ .crcWord)
      (hSof : s.state = .sof → s.sof = true) (hFresh : s.crcNext c k = c.init)
      (hWords : accepted = done ++ s.buffer) (hDone : endsBlock true done = true)
      (hRead : r.Reached s.front kr [] (flagged true done))
  | checked (done current : List (TxWord n)) (kr : κ) (w : BitVec 16)
      (hState : s.state = .subframeHeader ∨ s.state = .padding) (hFresh : s.crcNext c k = c.init)
      (hWords : accepted = done ++ (current ++ s.buffer)) (hDone : endsBlock true done = true)
      (hWhole : Whole current) (hCheck : c.residue kr = true)
      (hRead : r.Reached .payload kr (halvesOf current ++ [w]) (flagged true done))
  | payload (done current : List (TxWord n)) (hState : s.state = .payload)
      (hCrc : s.crcEn = true ∧ s.crcReset = false) (hWords : accepted = done ++ (current ++ s.buffer))
      (hDone : endsBlock true done = true) (hUnended : Unended current) (hEmpty : s.buffer = [] → s.serCount = 0)
      (hRead : r.Reached .payload (s.crcNow c k) (halvesOf current ++ s.begun) (flagged true done))
  | crcWord (done current : List (TxWord n)) (hState : s.state = .crcWord) (hReset : s.crcReset = false)
      (hWords : accepted = done ++ (current ++ s.buffer)) (hDone : endsBlock true done = true)
      (hWhole : Whole current) (hRead : r.Reached .payload (s.crcNow c k) (halvesOf current) (flagged true done))

/-! ### The Ethernet header -/

/-- The receiver's filter lets the transmitter's header through. -/
structure Configured (txc : TxConfig) (rxc : RxConfig) : Prop where
  target : rxc.macLocal = txc.macTarget
  ethertype : rxc.ethertype = txc.ethertype
  remote : rxc.filterRemoteMac = true → rxc.macRemote = txc.macLocal
  broadcast : rxc.acceptBroadcasts = true
  ordinary : field 32 16 txc.macTarget ≠ 0xffff#16 ∧ field 16 16 txc.macTarget ≠ 0xffff#16 ∧
    field 0 16 txc.macTarget ≠ 0xffff#16

theorem Configured.headerPhase (h : Configured txc rxc) (i : TxIn n) (hCount : s.count.toNat ≤ 8) :
    Reader.headerPhase rxc (.ofNat 4 s.count.toNat) (s.headerWord txc i) =
      if s.count.toNat = 8 then .subframeHeader else .header (.ofNat 4 (s.count.toNat + 1)) := by
  obtain ⟨hTarget, hType, hRemote, hBroadcast, hHigh, hMid, hLow⟩ := h
  have hFilter : ∀ k, RxFsm.rejectsRemote rxc (field k 16 rxc.macRemote) (field k 16 txc.macLocal) = false := by
    intro k
    cases hOn : rxc.filterRemoteMac with
    | false => simp [RxFsm.rejectsRemote, hOn]
    | true => simp [RxFsm.rejectsRemote, hRemote hOn]
  have hLocal : ∀ k, field k 16 txc.macTarget ≠ 0xffff#16 →
      RxFsm.rejectsLocal rxc (field k 16 rxc.macLocal) (field k 16 txc.macTarget) = false := by
    intro k hPlain
    simp [RxFsm.rejectsLocal, hBroadcast, hPlain]
  unfold headerWord
  generalize s.count.toNat = count at hCount ⊢
  interval_cases count
  · simp [Reader.headerPhase, RxFsm.rejects, hLocal 32 hHigh]
  · simp [Reader.headerPhase, RxFsm.rejects, hLocal 16 hMid]
  · simp [Reader.headerPhase, RxFsm.rejects, hLocal 0 hLow]
  · simp [Reader.headerPhase, RxFsm.rejects, hFilter 32]
  · simp [Reader.headerPhase, RxFsm.rejects, hFilter 16]
  · simp [Reader.headerPhase, RxFsm.rejects, hFilter 0]
  · simp [Reader.headerPhase, RxFsm.rejects, hType]
  · simp [Reader.headerPhase]
  · simp [Reader.headerPhase]

/-! ### One cycle -/

/-- What one cycle adds to the words on their way out. -/
def adds (txc : TxConfig) (i : TxIn n) (s : Transmitter n) : List FabEvent :=
  s.mark ++ (s.clock txc i).presented.map wordEvent

def Goes (txc : TxConfig) (rxc : RxConfig) (c : CrcRegister κ) (i : TxIn n) (accepted : List (TxWord n))
    (s : Transmitter n) (k : κ) (r : Reader κ n) : Prop :=
  Reader.ProperAll rxc c.unit r (s.adds txc i) ∧
    Writing c (accepted ++ s.takes txc i) (s.clock txc i) (s.crcNext c k) (r.read rxc c.unit (s.adds txc i))

variable {accepted : List (TxWord n)} {r : Reader κ n}

theorem presented_low (hValid : s.dvalid = false) : s.presented = [] := by
  simp [presented, hValid]

theorem presented_escaped (hValid : s.dvalid = true) (hEscape : s.fsmEscape = true) :
    s.presented = [escapeCode, s.data] := by
  simp [presented, hValid, hEscape]

theorem presented_plain (hValid : s.dvalid = true) (hEscape : s.fsmEscape = false) (hEnable : s.fsmEscapeEnable = true) :
    s.presented = plainWords s.data := by
  simp [presented, plainWords, hValid, hEscape, hEnable]

theorem mark_nil (hSof : s.sof = false) (hEof : s.eof = false) : s.mark = [] := by
  simp [mark, hSof, hEof]

theorem Controlled.mark_inside (h : s.Controlled) (hState : s.state ≠ .idle ∧ s.state ≠ .sof) : s.mark = [] :=
  mark_nil (h.formed.sof hState.2) (h.eof hState.1)

theorem words_outside {before : List (TxWord n)} (hRst : i.rstN = true) (hState : s.state ≠ .payload)
    (hWords : accepted = before ++ s.buffer) :
    accepted ++ s.takes txc i = before ++ (s.clock txc i).buffer := by
  rw [hWords, buffer_clock hRst (fifoRd_outside hState), List.append_assoc]

theorem goes_idle (h : s.Controlled) (hNext : (s.clock txc i).Controlled) (hRst : i.rstN = true) (hState : s.state = .idle)
    {done : List (TxWord n)} {kr : κ} (hFresh : s.crcNext c k = c.init) (hWords : accepted = done ++ s.buffer)
    (hDone : endsBlock true done = true) (hRead : r.Reached s.front kr [] (flagged true done)) :
    s.Goes txc rxc c i accepted k r := by
  have hSof : s.sof = false := h.formed.sof (by simp [hState])
  have hValid : (s.clock txc i).dvalid = false := by
    have hLow := h.low (.inl hState)
    simp only [clock, pFsm, hRst, hState, Transmitter.idle]
    split_ifs <;> simp_all
  have hMoves : (s.clock txc i).state = .idle ∧ (s.clock txc i).eof = false ∨
      (s.clock txc i).state = .sof ∧ (s.clock txc i).sof = true := by
    simp only [clock, pFsm, hRst, hState, Transmitter.idle]
    split_ifs <;> simp_all
  have hMark : Reader.ProperAll rxc c.unit r s.mark ∧
      (r.read rxc c.unit s.mark).Reached .idle kr [] (flagged true done) := by
    simp only [front, hState] at hRead
    cases hEof : s.eof with
    | false =>
      rw [mark_nil hSof hEof]
      rw [hEof, if_neg (by decide)] at hRead
      exact ⟨trivial, hRead⟩
    | true =>
      rw [mark, hSof, hEof]
      rw [hEof, if_pos rfl] at hRead
      exact hRead.ends
  rw [Goes, adds, presented_low hValid, List.map_nil, List.append_nil]
  refine ⟨hMark.1, .outside done kr ?_ ?_ ?_ (words_outside hRst (by simp [hState]) hWords) hDone ?_⟩
  · rcases hMoves with ⟨hIs, -⟩ | ⟨hIs, -⟩ <;> simp [hIs]
  · rcases hMoves with ⟨hIs, -⟩ | ⟨-, hUp⟩
    · simp [hIs]
    · exact fun _ => hUp
  · rw [hFresh]
    apply hNext.crcNext_init
    rcases hMoves with ⟨hIs, -⟩ | ⟨hIs, -⟩ <;> simp [hIs]
  · rcases hMoves with ⟨hIs, hEof⟩ | ⟨hIs, -⟩
    · simpa [front, hIs, hEof] using hMark.2
    · simpa [front, hIs] using hMark.2

theorem goes_sof (h : s.Controlled) (hNext : (s.clock txc i).Controlled) (hRst : i.rstN = true) (hState : s.state = .sof)
    (hSof : s.sof = true) {done : List (TxWord n)} {kr : κ} (hFresh : s.crcNext c k = c.init)
    (hWords : accepted = done ++ s.buffer) (hDone : endsBlock true done = true)
    (hRead : r.Reached s.front kr [] (flagged true done)) : s.Goes txc rxc c i accepted k r := by
  have hMark : s.mark = [⟨true, false, none⟩] := by
    rw [mark, hSof, h.eof (by simp [hState])]
    rfl
  have hValid := h.low (.inr hState)
  have hMoves : (s.clock txc i).state = .ethHeader ∧ (s.clock txc i).count = 0 ∧ (s.clock txc i).dvalid = false := by
    simp [clock, pFsm, hRst, hState, hValid]
  simp only [front, hState] at hRead
  rw [Goes, adds, presented_low hMoves.2.2, List.map_nil, List.append_nil, hMark]
  refine ⟨hRead.starts.1, .outside done kr ?_ ?_ ?_ (words_outside hRst (by simp [hState]) hWords) hDone ?_⟩
  · simp [hMoves.1]
  · simp [hMoves.1]
  · rw [hFresh]
    exact hNext.crcNext_init (by simp [hMoves.1])
  · simpa [front, hMoves] using hRead.starts.2

theorem goes_ethHeader (h : s.Controlled) (hNext : (s.clock txc i).Controlled) (hConfigured : Configured txc rxc)
    (hRst : i.rstN = true) (hState : s.state = .ethHeader) {done : List (TxWord n)} {kr : κ}
    (hFresh : s.crcNext c k = c.init) (hWords : accepted = done ++ s.buffer) (hDone : endsBlock true done = true)
    (hRead : r.Reached s.front kr [] (flagged true done)) : s.Goes txc rxc c i accepted k r := by
  have hMark := h.mark_inside (by simp [hState])
  have hCount := h.formed.header hState
  obtain ⟨hEnable, hEscape, -⟩ := h.header (.inr hState)
  simp only [front, hState] at hRead
  have hStay : (s.clock txc i).state ≠ .payload ∧ (s.clock txc i).state ≠ .crcWord ∧ (s.clock txc i).state ≠ .sof := by
    simp only [clock, pFsm, hRst, hState, Transmitter.ethHeader]
    split_ifs <;> simp
  suffices hAdds : Reader.ProperAll rxc c.unit r ((s.clock txc i).presented.map wordEvent) ∧
      (r.readWords rxc c.unit (s.clock txc i).presented).Reached (s.clock txc i).front kr [] (flagged true done) by
    rw [Goes, adds, hMark, List.nil_append]
    refine ⟨hAdds.1, .outside done kr ⟨hStay.1, hStay.2.1⟩ (fun hIs => absurd hIs hStay.2.2) ?_
      (words_outside hRst (by simp [hState]) hWords) hDone hAdds.2⟩
    rw [hFresh]
    exact hNext.crcNext_init ⟨hStay.1, hStay.2.1⟩
  cases hDreq : s.dreq i with
  | false =>
    obtain ⟨hSame, hValid⟩ := clock_of_waiting txc hRst hDreq (by simp [hState])
    have hCountSame : (s.clock txc i).count = s.count := by
      simp [clock, pFsm, hRst, hState, Transmitter.ethHeader, hDreq]
    have hFront : (s.clock txc i).front = .header (.ofNat 4 s.count.toNat) := by
      simp [front, hSame, hState, hCountSame]
    rw [presented_low hValid, hFront]
    exact ⟨trivial, hRead⟩
  | true =>
    have hWord : (s.clock txc i).presented = [s.headerWord txc i] := by
      have hMoves : (s.clock txc i).dvalid = true ∧ (s.clock txc i).data = s.headerWord txc i ∧
          (s.clock txc i).fsmEscape = false ∧ (s.clock txc i).fsmEscapeEnable = false := by
        simp only [clock, pFsm, hRst, hState, Transmitter.ethHeader, hDreq]
        split_ifs <;> simp_all
      simp [presented, hMoves]
    have hFront : (s.clock txc i).front =
        if s.count.toNat = 8 then .subframeHeader else .header (.ofNat 4 (s.count.toNat + 1)) := by
      by_cases hLast : s.count.toNat = 8
      · simp [front, clock, pFsm, hRst, hState, Transmitter.ethHeader, hDreq, hLast]
      · have hLess : s.count.toNat < 8 := by omega
        have hSucc : (s.count + 1).toNat = s.count.toNat + 1 := by
          rw [BitVec.toNat_add]
          exact Nat.mod_eq_of_lt (by simp; omega)
        simp only [front, clock, pFsm, hRst, hState, Transmitter.ethHeader, hDreq, hLess, if_true, if_neg hLast,
          Bool.not_true, Bool.false_eq_true, if_false, hSucc]
    rw [hWord, hFront, ← hConfigured.headerPhase i hCount]
    exact hRead.header _

/-! ### From one subframe to the next -/

def subframeWord (s : Transmitter n) : BitVec 16 := (1 : BitVec 1) ++ s.seqNo

theorem msb_subframeWord (s : Transmitter n) : s.subframeWord.msb = true := by
  rw [subframeWord, BitVec.msb_append]
  simp

theorem goes_header (hRst : i.rstN = true) (hState : s.state = .subframeHeader) (hNoMark : s.mark = [])
    (hSer : s.serCount = 0) (hDreq : s.dreq i = true) {done : List (TxWord n)} (hFresh : s.crcNext c k = c.init)
    (hWords : accepted = done ++ s.buffer) (hDone : endsBlock true done = true)
    (hRead : Reader.ProperAll rxc c.unit r ([escapeCode, s.subframeWord].map wordEvent) ∧
      (r.readWords rxc c.unit [escapeCode, s.subframeWord]).Reached .payload (c.update s.subframeWord c.init) []
        (flagged true done)) : s.Goes txc rxc c i accepted k r := by
  have hMoves : (s.clock txc i).state = .payload ∧ (s.clock txc i).crcEn = true ∧ (s.clock txc i).crcReset = false ∧
      (s.clock txc i).dvalid = true ∧ (s.clock txc i).fsmEscape = true ∧ (s.clock txc i).data = s.subframeWord ∧
      (s.clock txc i).serCount = 0 := by
    simp [clock, pFsm, subframeWord, hRst, hState, Transmitter.subframeHeader, hDreq, hSer]
  obtain ⟨hPayload, hEn, hReset, hValid, hEscape, hData, hStart⟩ := hMoves
  have hBegun : (s.clock txc i).begun = [] := begun_start hStart
  have hCrc : (s.clock txc i).crcNow c c.init = c.update s.subframeWord c.init := by
    rw [crcNow, hEn, hValid, hData]
    rfl
  rw [Goes, adds, hNoMark, List.nil_append, presented_escaped hValid hEscape, hData]
  refine ⟨hRead.1, .payload done [] hPayload ⟨hEn, hReset⟩ ?_ hDone unended_nil (fun _ => hStart) ?_⟩
  · rw [List.nil_append]
    exact words_outside hRst (by simp [hState]) hWords
  · rw [hFresh, hCrc, hBegun]
    exact hRead.2

theorem goes_waiting (hNext : (s.clock txc i).Controlled) (hRst : i.rstN = true) (hNoMark : s.mark = [])
    (hState : s.state = .subframeHeader ∨ s.state = .padding ∨ s.state = .eof) (hDreq : s.dreq i = false)
    (hFresh : s.crcNext c k = c.init) (h : Writing c accepted s k r) : s.Goes txc rxc c i accepted k r := by
  obtain ⟨hSame, hValid⟩ := clock_of_waiting txc hRst hDreq
    (by rcases hState with hState | hState | hState <;> simp [hState])
  have hStay : (s.clock txc i).state ≠ .payload ∧ (s.clock txc i).state ≠ .crcWord := by
    rcases hState with hState | hState | hState <;> simp [hSame, hState]
  have hFront : (s.clock txc i).front = s.front := by
    rcases hState with hState | hState | hState <;> simp [front, hSame, hState]
  have hFresh' : (s.clock txc i).crcNext c (s.crcNext c k) = c.init := by
    rw [hFresh]
    exact hNext.crcNext_init hStay
  have hOff : s.state ≠ .payload := by rw [← hSame]; exact hStay.1
  rw [Goes, adds, hNoMark, presented_low hValid, List.nil_append, List.map_nil]
  refine ⟨trivial, ?_⟩
  cases h with
  | outside done kr _ _ _ hWords hDone hRead =>
    refine .outside done kr hStay (fun hSof => ?_) hFresh' (words_outside hRst hOff hWords) hDone ?_
    · rcases hState with hState | hState | hState <;> simp [hSame, hState] at hSof
    · rw [hFront]
      exact hRead
  | checked done current kr w hWhere _ hWords hDone hWhole hCheck hRead =>
    rw [← List.append_assoc] at hWords
    refine .checked done current kr w (by rwa [hSame]) hFresh' ?_ hDone hWhole hCheck hRead
    rw [← List.append_assoc]
    exact words_outside hRst hOff hWords
  | payload _ _ hWhere => exact absurd hWhere hOff
  | crcWord _ _ hWhere => exact absurd (hSame.trans hWhere) hStay.2

theorem closes_block (rxc : RxConfig) (hn : 3 ≤ n) {done current : List (TxWord n)} {kr : κ} {w d : BitVec 16}
    (hDone : endsBlock true done = true) (hWhole : Whole current) (hCheck : c.residue kr = true)
    (hCloses : closes d = true) (hSome : d ≠ 0)
    (hRead : r.Reached .payload kr (halvesOf current ++ [w]) (flagged true done)) :
    endsBlock true (done ++ current) = true ∧
      Reader.ProperAll rxc c.unit r ([escapeCode, d].map wordEvent) ∧
      (r.readWords rxc c.unit [escapeCode, d]).Reached (if d.msb then .payload else .tail)
        (c.update d (if d.msb then c.init else kr)) [] (flagged true (done ++ current)) := by
  have hEnds : endsBlock true (done ++ current) = true := by
    rw [endsBlock_append, hDone]
    exact endsBlock_whole hWhole
  obtain ⟨hProper, hReached⟩ := hRead.closing rxc c hSome
  rw [hCloses, hCheck, Bool.and_self, if_pos rfl, completedWords_block hn hWhole] at hReached
  refine ⟨hEnds, hProper, ?_⟩
  rw [flagged_append, hDone]
  exact hReached

/-- The padding closes the last subframe, if that is still to be closed. -/
theorem goes_padding (hNext : (s.clock txc i).Controlled) (hn : 3 ≤ n) (hRst : i.rstN = true) (hState : s.state = .padding)
    (hNoMark : s.mark = []) (hDreq : s.dreq i = true) (hFresh : s.crcNext c k = c.init) (h : Writing c accepted s k r) :
    s.Goes txc rxc c i accepted k r := by
  have hMoves : ((s.clock txc i).state = .padding ∨ (s.clock txc i).state = .eof) ∧ (s.clock txc i).dvalid = true ∧
      (s.clock txc i).fsmEscape = true ∧ (s.clock txc i).data = 0x0bad := by
    simp only [clock, pFsm, hRst, hState, Transmitter.padding, hDreq, Bool.not_true, Bool.false_eq_true, if_false, if_true]
    split_ifs <;> simp
  obtain ⟨hWhere, hValid, hEscape, hData⟩ := hMoves
  have hStay : (s.clock txc i).state ≠ .payload ∧ (s.clock txc i).state ≠ .crcWord ∧ (s.clock txc i).state ≠ .sof := by
    rcases hWhere with hIs | hIs <;> simp [hIs]
  have hFront : (s.clock txc i).front = .tail := by
    rcases hWhere with hIs | hIs <;> simp [front, hIs]
  have hFresh' : (s.clock txc i).crcNext c (s.crcNext c k) = c.init := by
    rw [hFresh]
    exact hNext.crcNext_init ⟨hStay.1, hStay.2.1⟩
  have hOff : s.state ≠ .payload := by simp [hState]
  rw [Goes, adds, hNoMark, List.nil_append, presented_escaped hValid hEscape, hData]
  cases h with
  | outside done kr _ _ _ hWords hDone hRead =>
    simp only [front, hState] at hRead
    obtain ⟨hProper, hSame⟩ := Reader.readWords_tail rxc c.unit hRead.phase [escapeCode, 0x0bad]
    refine ⟨hProper, .outside done kr ⟨hStay.1, hStay.2.1⟩ (fun hIs => absurd hIs hStay.2.2) hFresh'
      (words_outside hRst hOff hWords) hDone ?_⟩
    change ((r.readWords rxc c.unit [escapeCode, 0x0bad]).Reached _ _ _ _)
    rw [hSame, hFront]
    exact hRead
  | checked done current kr w _ _ hWords hDone hWhole hCheck hRead =>
    obtain ⟨hEnds, hProper, hReached⟩ :=
      closes_block rxc (d := 0x0bad) hn hDone hWhole hCheck (by decide) (by decide) hRead
    have hLow : (0x0bad : BitVec 16).msb = false := by decide
    rw [hLow, if_neg (by decide), if_neg (by decide)] at hReached
    rw [← List.append_assoc] at hWords
    refine ⟨hProper, .outside (done ++ current) (c.update 0x0bad kr) ⟨hStay.1, hStay.2.1⟩ (fun hIs => absurd hIs hStay.2.2) hFresh'
      (words_outside hRst hOff hWords) hEnds ?_⟩
    rw [hFront]
    exact hReached
  | payload _ _ hIs => exact absurd hIs hOff
  | crcWord _ _ hIs => simp [hState] at hIs

theorem goes_eof (hNext : (s.clock txc i).Controlled) (hRst : i.rstN = true) (hState : s.state = .eof)
    (hNoMark : s.mark = []) (hDreq : s.dreq i = true) {done : List (TxWord n)} {kr : κ} (hFresh : s.crcNext c k = c.init)
    (hWords : accepted = done ++ s.buffer) (hDone : endsBlock true done = true)
    (hRead : r.Reached s.front kr [] (flagged true done)) : s.Goes txc rxc c i accepted k r := by
  have hMoves : (s.clock txc i).state = .idle ∧ (s.clock txc i).eof = true ∧ (s.clock txc i).dvalid = false := by
    simp [clock, pFsm, hRst, hState, hDreq]
  simp only [front, hState] at hRead
  rw [Goes, adds, hNoMark, List.nil_append, presented_low hMoves.2.2, List.map_nil]
  refine ⟨trivial, .outside done kr ?_ ?_ ?_ (words_outside hRst (by simp [hState]) hWords) hDone ?_⟩
  · simp [hMoves.1]
  · simp [hMoves.1]
  · rw [hFresh]
    exact hNext.crcNext_init (by simp [hMoves.1])
  · have hFront : (s.clock txc i).front = .tail := by simp [front, hMoves]
    rw [hFront]
    exact hRead

/-! ### Within a subframe -/

theorem goes_crcWord (h : s.Controlled) (hOk : s.Unstalled i)
    (hCrc : i.crcValue = c.crcO (s.crcNow c k)) (hChecks : c.Checks) (hState : s.state = .crcWord)
    (hReset : s.crcReset = false) {done current : List (TxWord n)} (hWords : accepted = done ++ (current ++ s.buffer))
    (hDone : endsBlock true done = true) (hWhole : Whole current)
    (hRead : r.Reached .payload (s.crcNow c k) (halvesOf current) (flagged true done)) :
    s.Goes txc rxc c i accepted k r := by
  have hRst := hOk.1
  have hNoMark := h.mark_inside (by simp [hState])
  have hOff : s.state ≠ .payload := by simp [hState]
  have hEscape := h.formed.crcWord hState
  have hEnable := h.enabled (.inr (.inl hState))
  have hKeeps : s.crcNext c k = s.crcNow c k := by rw [crcNext, hReset, if_neg (by decide)]
  rw [← List.append_assoc] at hWords
  have hAll : accepted ++ s.takes txc i = _ := words_outside hRst hOff hWords
  rw [List.append_assoc] at hAll
  cases hDreq : s.dreq i with
  | false =>
    have hLow : s.dvalid = false := by
      cases hValid : s.dvalid with
      | false => rfl
      | true =>
        rw [hOk.2.2 hState hValid] at hDreq
        cases hDreq
    have hMoves : (s.clock txc i).state = .crcWord ∧ (s.clock txc i).dvalid = false ∧ (s.clock txc i).crcEn = false ∧
        (s.clock txc i).crcReset = false := by
      simp [clock, pFsm, hRst, hState, Transmitter.crcWord, hDreq, hLow, hReset]
    obtain ⟨hStays, hValid, hEn, hReset'⟩ := hMoves
    rw [Goes, adds, hNoMark, List.nil_append, presented_low hValid, List.map_nil]
    refine ⟨trivial, .crcWord done current hStays hReset' hAll hDone hWhole ?_⟩
    rw [crcNow, hEn, Bool.false_and, if_neg (by decide), hKeeps]
    exact hRead
  | true =>
    have hMoves : ((s.clock txc i).state = .subframeHeader ∨ (s.clock txc i).state = .padding) ∧
        (s.clock txc i).dvalid = true ∧ (s.clock txc i).data = c.crcO (s.crcNow c k) ∧
        (s.clock txc i).fsmEscape = false ∧ (s.clock txc i).fsmEscapeEnable = true ∧ (s.clock txc i).crcReset = true := by
      simp only [clock, pFsm, hRst, hState, Transmitter.crcWord, hDreq, hCrc]
      split_ifs <;> simp_all
    obtain ⟨hWhere, hValid, hData, hEscape', hEnable', hReset'⟩ := hMoves
    rw [Goes, adds, hNoMark, List.nil_append, presented_plain hValid hEscape' hEnable', hData]
    obtain ⟨hProper, hReached⟩ := hRead.plain rxc c (c.crcO (s.crcNow c k))
    refine ⟨hProper, .checked done current _ _ hWhere ?_ hAll hDone hWhole (hChecks _) hReached⟩
    rw [crcNext, hReset', if_pos rfl]

/-- `PAYLOAD` does not find the buffer empty in the middle of a block. -/
def Fed (i : TxIn n) (accepted : List (TxWord n)) (s : Transmitter n) : Prop :=
  s.state = .payload → s.dreq i = true → s.buffer = [] → endsBlock true accepted = true

instance (i : TxIn n) (accepted : List (TxWord n)) (s : Transmitter n) : Decidable (s.Fed i accepted) :=
  inferInstanceAs (Decidable (_ → _ → _ → _))

theorem current_of_fed (hFed : s.Fed i accepted) (hState : s.state = .payload) (hDreq : s.dreq i = true)
    (hEmpty : s.buffer = []) {done current : List (TxWord n)} (hWords : accepted = done ++ (current ++ s.buffer))
    (hDone : endsBlock true done = true) (hUnended : Unended current) : current = [] := by
  have hEnds := hFed hState hDreq hEmpty
  rw [hWords, hEmpty, List.append_nil, endsBlock_append, hDone] at hEnds
  exact hUnended.nil_of_endsBlock hEnds

theorem begun_waiting (hBuffer : (s.clock txc i).buffer = s.buffer ++ s.takes txc i)
    (hSer : (s.clock txc i).serCount = s.serCount) (hEmpty : s.buffer = [] → s.serCount = 0) :
    (s.clock txc i).begun = s.begun := by
  cases hWord : s.buffer with
  | nil =>
    have hStart := hEmpty hWord
    rw [begun_start hStart, begun_start (hSer.trans hStart)]
  | cons w rest => simp [begun, hBuffer, hWord, hSer]

theorem goes_payload_waiting (h : s.Controlled) (hRst : i.rstN = true) (hState : s.state = .payload)
    (hDreq : s.dreq i = false) (hCrc : s.crcEn = true ∧ s.crcReset = false) {done current : List (TxWord n)}
    (hWords : accepted = done ++ (current ++ s.buffer)) (hDone : endsBlock true done = true) (hUnended : Unended current)
    (hEmpty : s.buffer = [] → s.serCount = 0)
    (hRead : r.Reached .payload (s.crcNow c k) (halvesOf current ++ s.begun) (flagged true done)) :
    s.Goes txc rxc c i accepted k r := by
  have hMoves : (s.clock txc i).state = .payload ∧ (s.clock txc i).dvalid = false ∧ (s.clock txc i).crcEn = true ∧
      (s.clock txc i).crcReset = false ∧ (s.clock txc i).serCount = s.serCount := by
    simp [clock, pFsm, hRst, hState, Transmitter.payload, hDreq, hCrc]
  obtain ⟨hStays, hValid, hEn, hReset, hSer⟩ := hMoves
  have hBuffer : (s.clock txc i).buffer = s.buffer ++ s.takes txc i :=
    buffer_clock hRst (by simp [fifoRd, hDreq])
  have hBegun := begun_waiting hBuffer hSer hEmpty
  rw [Goes, adds, h.mark_inside (by simp [hState]), List.nil_append, presented_low hValid, List.map_nil]
  refine ⟨trivial, .payload done current hStays ⟨hEn, hReset⟩ ?_ hDone hUnended (fun hNone => ?_) ?_⟩
  · rw [hWords, hBuffer]
    simp only [List.append_assoc]
  · rw [hBuffer, List.append_eq_nil_iff] at hNone
    exact hSer.trans (hEmpty hNone.1)
  · rw [hBegun, crcNow, hValid, Bool.and_false, if_neg (by decide), crcNext, hCrc.2, if_neg (by decide)]
    exact hRead

/-- No words left: the subframe ends here, at the end of a block or before its first word. -/
theorem goes_payload_empty (h : s.Controlled) (hRst : i.rstN = true) (hState : s.state = .payload)
    (hDreq : s.dreq i = true) (hNone : s.buffer = []) (hFed : s.Fed i accepted)
    (hCrc : s.crcEn = true ∧ s.crcReset = false) {done current : List (TxWord n)}
    (hWords : accepted = done ++ (current ++ s.buffer)) (hDone : endsBlock true done = true) (hUnended : Unended current)
    (hRead : r.Reached .payload (s.crcNow c k) (halvesOf current ++ s.begun) (flagged true done)) :
    s.Goes txc rxc c i accepted k r := by
  have hMoves : (s.clock txc i).state = .crcWord ∧ (s.clock txc i).dvalid = false ∧ (s.clock txc i).crcReset = false := by
    simp [clock, pFsm, hRst, hState, Transmitter.payload, hDreq, hCrc, fifoEmpty, hNone]
  obtain ⟨hEnds, hValid, hReset⟩ := hMoves
  have hCurrent := current_of_fed hFed hState hDreq hNone hWords hDone hUnended
  subst hCurrent
  have hBuffer : (s.clock txc i).buffer = s.buffer ++ s.takes txc i :=
    buffer_clock hRst (by simp [fifoRd, fifoEmpty, hNone])
  have hBegun : s.begun = [] := by simp [begun, hNone]
  rw [hBegun, List.append_nil] at hRead
  rw [Goes, adds, h.mark_inside (by simp [hState]), List.nil_append, presented_low hValid, List.map_nil]
  refine ⟨trivial, .crcWord done [] hEnds hReset ?_ hDone whole_nil ?_⟩
  · rw [hWords, hBuffer]
    simp only [List.append_assoc]
  · rw [crcNow, hValid, Bool.and_false, if_neg (by decide), crcNext, hCrc.2, if_neg (by decide)]
    exact hRead

def nextHalf (w : TxWord n) (s : Transmitter n) : BitVec 16 := field (16 * s.serCount.toNat) 16 w.data

theorem halfWords_take (w : TxWord n) (hSer : s.serCount.toNat < n) :
    (halfWords w).take (s.serCount.toNat + 1) = (halfWords w).take s.serCount.toNat ++ [s.nextHalf w] := by
  rw [List.take_succ_eq_append_getElem (by simpa using hSer)]
  simp [halfWords, nextHalf]

/-- The registers after a half-word of the subframe. -/
structure Presents (d : BitVec 16) (s s' : Transmitter n) : Prop where
  dvalid : s'.dvalid = true
  data : s'.data = d
  fsmEscape : s'.fsmEscape = false
  fsmEscapeEnable : s'.fsmEscapeEnable = s.fsmEscapeEnable
  crcEn : s'.crcEn = s.crcEn
  crcReset : s'.crcReset = s.crcReset

theorem clock_payload (txc : TxConfig) (hRst : i.rstN = true) (hState : s.state = .payload) (hDreq : s.dreq i = true) {w : TxWord n}
    {rest : List (TxWord n)} (hWord : s.buffer = w :: rest) :
    Presents (s.nextHalf w) s (s.clock txc i) ∧
      (s.clock txc i).state = (if s.endsWord && w.last then .crcWord else .payload) ∧
      (s.clock txc i).serCount = if s.endsWord then 0 else s.serCount + 1 := by
  refine ⟨?_, ?_, ?_⟩
  · constructor <;> simp [clock, pFsm, hRst, hState, Transmitter.payload, hDreq, fifoEmpty, fifoQ, hWord, nextHalf]
  · simp [clock, pFsm, hRst, hState, Transmitter.payload, hDreq, fifoEmpty, fifoQ, hWord]
  · simp [clock, pFsm, hRst, hState, Transmitter.payload, hDreq]

/-- The reader takes the half-word that is presented next, and its CRC goes on as the generator's. -/
theorem Presents.read {d : BitVec 16} (rxc : RxConfig) (hPresents : Presents d s (s.clock txc i)) (h : s.Controlled)
    (hState : s.state = .payload) (hCrc : s.crcEn = true ∧ s.crcReset = false) {opened : List (BitVec 16)}
    {committed : List (FifoWord n)} (hRead : r.Reached .payload (s.crcNow c k) opened committed) :
    Reader.ProperAll rxc c.unit r (s.adds txc i) ∧
      (r.read rxc c.unit (s.adds txc i)).Reached .payload ((s.clock txc i).crcNow c (s.crcNext c k)) (opened ++ [d])
        committed := by
  obtain ⟨hValid, hData, hEscape, hEnable, hEn, -⟩ := hPresents
  have hShown : (s.clock txc i).crcNow c (s.crcNext c k) = c.update d (s.crcNow c k) := by
    rw [crcNow, hEn, hCrc.1, hValid, Bool.and_self, if_pos rfl, hData, crcNext, hCrc.2, if_neg (by decide)]
  rw [adds, h.mark_inside (by simp [hState]), List.nil_append,
    presented_plain hValid hEscape (hEnable.trans (h.enabled (.inl hState))), hData, hShown]
  exact hRead.plain rxc c d

theorem goes_payload_word (h : s.Controlled) (hn : n ≤ 256) (hRst : i.rstN = true) (hState : s.state = .payload)
    (hDreq : s.dreq i = true) {w : TxWord n} {rest : List (TxWord n)} (hWord : s.buffer = w :: rest)
    (hCrc : s.crcEn = true ∧ s.crcReset = false) {done current : List (TxWord n)}
    (hWords : accepted = done ++ (current ++ s.buffer)) (hDone : endsBlock true done = true) (hUnended : Unended current)
    (hRead : r.Reached .payload (s.crcNow c k) (halvesOf current ++ s.begun) (flagged true done)) :
    s.Goes txc rxc c i accepted k r := by
  have hSer := h.formed.payload hState
  obtain ⟨hPresents, hNext, hStart⟩ := clock_payload txc hRst hState hDreq hWord
  have hReset : (s.clock txc i).crcReset = false := hPresents.crcReset.trans hCrc.2
  have hEn : (s.clock txc i).crcEn = true := hPresents.crcEn.trans hCrc.1
  obtain ⟨hProper, hReached⟩ := hPresents.read rxc h hState hCrc hRead
  have hBegun : s.begun ++ [s.nextHalf w] = (halfWords w).take (s.serCount.toNat + 1) := by
    rw [halfWords_take w hSer, begun, hWord]
  rw [List.append_assoc, hBegun] at hReached
  refine ⟨hProper, ?_⟩
  cases hEnd : s.endsWord with
  | false =>
    obtain ⟨hSucc, hLess⟩ := serCount_succ hn hSer hEnd
    rw [hEnd, if_neg (by decide)] at hStart
    have hBuffer : (s.clock txc i).buffer = s.buffer ++ s.takes txc i :=
      buffer_clock hRst (by simp [fifoRd, hEnd])
    have hBegun' : (s.clock txc i).begun = (halfWords w).take (s.serCount.toNat + 1) := by
      rw [begun, hBuffer, hWord, hStart, List.cons_append, hSucc]
    refine .payload done current (by simp [hNext, hEnd]) ⟨hEn, hReset⟩ ?_ hDone hUnended (fun hNone => ?_) ?_
    · rw [hWords, hBuffer]
      simp only [List.append_assoc]
    · simp [hBuffer, hWord] at hNone
    · rw [hBegun']
      exact hReached
  | true =>
    have hFull : s.serCount.toNat + 1 = n := by simpa [endsWord] using hEnd
    rw [hEnd, if_pos rfl] at hStart
    have hBuffer : (s.clock txc i).buffer = rest ++ s.takes txc i := by
      simp [clock, bufferNext, takes, hRst, fifoRd, hState, hEnd, hDreq, fifoEmpty, hWord]
    have hAll : accepted ++ s.takes txc i = done ++ ((current ++ [w]) ++ (s.clock txc i).buffer) := by
      rw [hWords, hBuffer, hWord]
      simp only [List.append_assoc, List.cons_append, List.nil_append]
    rw [hFull, List.take_of_length_le (by simp), ← halvesOf_concat] at hReached
    cases hLast : w.last with
    | false =>
      refine .payload done (current ++ [w]) (by simp [hNext, hLast]) ⟨hEn, hReset⟩ hAll hDone (hUnended.concat hLast)
        (fun _ => hStart) ?_
      rw [begun_start hStart, List.append_nil]
      exact hReached
    | true =>
      exact .crcWord done (current ++ [w]) (by simp [hNext, hEnd, hLast]) hReset hAll hDone (hUnended.whole hLast) hReached

theorem Writing.step (hWriting : Writing c accepted s k r) (h : s.Controlled) (hn : 3 ≤ n ∧ n ≤ 256)
    (hConfigured : Configured txc rxc) (hChecks : c.Checks) (hOk : s.Unstalled i) (hFed : s.Fed i accepted)
    (hValue : i.crcValue = c.crcO (s.crcNow c k)) : s.Goes txc rxc c i accepted k r := by
  have hRst := hOk.1
  have hNext : (s.clock txc i).Controlled := h.step (by omega) hOk
  cases hWriting with
  | crcWord done current hState hReset hWords hDone hWhole hRead =>
    exact goes_crcWord h hOk hValue hChecks hState hReset hWords hDone hWhole hRead
  | payload done current hState hCrc hWords hDone hUnended hEmpty hRead =>
    cases hDreq : s.dreq i with
    | false => exact goes_payload_waiting h hRst hState hDreq hCrc hWords hDone hUnended hEmpty hRead
    | true =>
      cases hWord : s.buffer with
      | nil => exact goes_payload_empty h hRst hState hDreq hWord hFed hCrc hWords hDone hUnended hRead
      | cons w rest =>
        exact goes_payload_word h hn.2 hRst hState hDreq hWord hCrc hWords hDone hUnended hRead
  | checked done current kr w hState hFresh hWords hDone hWhole hCheck hRead =>
    have hNoMark := h.mark_inside (by rcases hState with hState | hState <;> simp [hState])
    have hSelf : Writing c accepted s k r := .checked done current kr w hState hFresh hWords hDone hWhole hCheck hRead
    cases hDreq : s.dreq i with
    | false => exact goes_waiting hNext hRst hNoMark (by tauto) hDreq hFresh hSelf
    | true =>
      rcases hState with hState | hState
      · obtain ⟨hEnds, hProper, hReached⟩ := closes_block rxc (d := s.subframeWord) hn.1 hDone hWhole hCheck
          (by simp [closes, msb_subframeWord]) (fun hZero => by have := s.msb_subframeWord; simp [hZero] at this) hRead
        rw [msb_subframeWord, if_pos rfl, if_pos rfl] at hReached
        rw [← List.append_assoc] at hWords
        exact goes_header hRst hState hNoMark (h.formed.start (.inr hState)) hDreq hFresh hWords hEnds ⟨hProper, hReached⟩
      · exact goes_padding hNext hn.1 hRst hState hNoMark hDreq hFresh hSelf
  | outside done kr hState hSof hFresh hWords hDone hRead =>
    have hSelf : Writing c accepted s k r := .outside done kr hState hSof hFresh hWords hDone hRead
    cases hCase : s.state with
    | payload => exact absurd hCase hState.1
    | crcWord => exact absurd hCase hState.2
    | idle => exact goes_idle h hNext hRst hCase hFresh hWords hDone hRead
    | sof => exact goes_sof h hNext hRst hCase (hSof hCase) hFresh hWords hDone hRead
    | ethHeader => exact goes_ethHeader h hNext hConfigured hRst hCase hFresh hWords hDone hRead
    | subframeHeader =>
      have hNoMark := h.mark_inside (by simp [hCase])
      cases hDreq : s.dreq i with
      | false => exact goes_waiting hNext hRst hNoMark (.inl hCase) hDreq hFresh hSelf
      | true =>
        simp only [front, hCase] at hRead
        exact goes_header hRst hCase hNoMark (h.formed.start (.inr hCase)) hDreq hFresh hWords hDone
          (hRead.first rxc c s.msb_subframeWord)
    | padding =>
      have hNoMark := h.mark_inside (by simp [hCase])
      cases hDreq : s.dreq i with
      | false => exact goes_waiting hNext hRst hNoMark (.inr (.inl hCase)) hDreq hFresh hSelf
      | true => exact goes_padding hNext hn.1 hRst hCase hNoMark hDreq hFresh hSelf
    | eof =>
      have hNoMark := h.mark_inside (by simp [hCase])
      cases hDreq : s.dreq i with
      | false => exact goes_waiting hNext hRst hNoMark (.inr (.inr hCase)) hDreq hFresh hSelf
      | true => exact goes_eof hNext hRst hCase hNoMark hDreq hFresh hWords hDone hRead

end Transmitter

end WrRfDemo.Streamer

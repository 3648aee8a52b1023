import WrRfDemo.Streamer.Transmitter

/-! # The end of a frame

With the fabric asking for data and nothing more to send, each state of the transmitter gives
way to the next, except that the CRC is never reached behind a block whose final half-word is
the escape code: the word presented there is not withdrawn, and while it is presented the
inserter asks for no other.
-/

namespace WrRfDemo.Streamer

open Clocked

variable {n : Nat}

def TxIn.Draining (i : TxIn n) : Prop := i.rstN = true ∧ i.dReq = true ∧ i.txValid = false

instance (i : TxIn n) : Decidable i.Draining := inferInstanceAs (Decidable (_ ∧ _ ∧ _))

namespace Transmitter

/-- The final half-words of the blocks that a frame of `count` words so far still takes. -/
def blockEnds (maxWords : Nat) : BitVec 8 → List (TxWord n) → List (BitVec 16)
  | _, [] => []
  | count, w :: rest =>
    if w.last then
      field (16 * (n - 1)) 16 w.data ::
        if rest.isEmpty || decide (maxWords ≤ (count + 1).toNat) then [] else blockEnds maxWords (count + 1) rest
    else blockEnds maxWords (count + 1) rest

/-- No block of this frame still to be closed ends in the escape code. -/
def Clear (cfg : TxConfig) (s : Transmitter n) : Prop :=
  match s.state with
  | .sof | .ethHeader => escapeCode ∉ blockEnds cfg.txMaxWordsPerFrame 0 s.buffer
  | .subframeHeader | .payload => escapeCode ∉ blockEnds cfg.txMaxWordsPerFrame s.count s.buffer
  | .crcWord => ¬(s.dvalid = true ∧ s.data = escapeCode) ∧
    ((s.buffer.isEmpty || decide (cfg.txMaxWordsPerFrame ≤ s.count.toNat)) = false →
      escapeCode ∉ blockEnds cfg.txMaxWordsPerFrame s.count s.buffer)
  | .idle | .padding | .eof => True

def twoWords (s : Transmitter n) : Bool := s.dvalid && (s.fsmEscape || s.data == escapeCode)

/-! ### The registers in each state -/

structure Formed (s : Transmitter n) : Prop where
  sof : s.state ≠ .sof → s.sof = false
  header : s.state = .ethHeader → s.count.toNat ≤ 8
  start : s.state = .ethHeader ∨ s.state = .subframeHeader → s.serCount = 0
  payload : s.state = .payload → s.serCount.toNat < n
  crcWord : s.state = .crcWord → s.fsmEscape = false

variable {cfg : TxConfig} {i : TxIn n} {s : Transmitter n}

theorem Formed.of_idle (hState : s.state = .idle) (hSof : s.sof = false) : s.Formed := by
  constructor <;> simp [hState, hSof]

theorem serCount_succ (hn : n ≤ 256) (h : s.serCount.toNat < n) (hMore : s.endsWord = false) :
    (s.serCount + 1).toNat = s.serCount.toNat + 1 ∧ s.serCount.toNat + 1 < n := by
  have hNot : s.serCount.toNat + 1 ≠ n := by simpa [endsWord] using hMore
  have hLess : s.serCount.toNat + 1 < n := by omega
  refine ⟨?_, hLess⟩
  rw [BitVec.toNat_add]
  exact Nat.mod_eq_of_lt (by simp; omega)

/-- The registers of a frame that go with the state, one state at a time. -/
def RegistersFit (s : Transmitter n) : Prop :=
  match s.state with
  | .sof => True
  | .idle | .padding | .eof => s.sof = false
  | .ethHeader => s.sof = false ∧ s.count.toNat ≤ 8 ∧ s.serCount = 0
  | .subframeHeader => s.sof = false ∧ s.serCount = 0
  | .payload => s.sof = false ∧ s.serCount.toNat < n
  | .crcWord => s.sof = false ∧ s.fsmEscape = false

theorem Formed.of_fit (hFit : s.RegistersFit) : s.Formed := by
  unfold RegistersFit at hFit
  constructor <;> intro hState
  case header | payload | crcWord => simp [hState] at hFit; simp [hFit]
  case start => rcases hState with hState | hState <;> simp [hState] at hFit <;> simp [hFit]
  case sof =>
    cases hCase : s.state with
    | sof => exact absurd hCase hState
    | idle | ethHeader | subframeHeader | payload | crcWord | padding | eof => simp [hCase] at hFit; simp [hFit]

theorem Formed.step (h : s.Formed) (hn : 0 < n ∧ n ≤ 256) (i : TxIn n) : (s.clock cfg i).Formed := by
  have hLow := h.sof
  cases hRst : i.rstN with
  | false => apply Formed.of_idle <;> simp [clock, pFsm, hRst]
  | true =>
    refine .of_fit ?_
    cases hState : s.state with
    | idle =>
      simp only [RegistersFit, clock, pFsm, hRst, hState, Transmitter.idle, Bool.not_true, Bool.false_eq_true, if_false]
      split_ifs <;> simp [hState, hLow]
    | sof => simp [RegistersFit, clock, pFsm, hRst, hState]
    | ethHeader =>
      have hCount := h.header hState
      have hSer := h.start (.inl hState)
      simp only [RegistersFit, clock, pFsm, hRst, hState, Transmitter.ethHeader, Bool.not_true, Bool.false_eq_true, if_false]
      split_ifs with hDreq hLess hEight
      · refine ⟨hLow (by simp [hState]), ?_, hSer⟩
        simp only [BitVec.toNat_add]
        exact Nat.le_trans (Nat.mod_le _ _) (by simp; omega)
      · exact ⟨hLow (by simp [hState]), hSer⟩
      · omega
      · simpa [hState] using ⟨hLow (by simp [hState]), hCount, hSer⟩
    | subframeHeader =>
      have hSer := h.start (.inr hState)
      cases hDreq : s.dreq i <;>
        simp [RegistersFit, clock, pFsm, hRst, hState, Transmitter.subframeHeader, hDreq, hLow, hSer, hn.1]
    | payload =>
      have hLess := h.payload hState
      have hNext := serCount_succ hn.2 hLess
      have hSof : s.sof = false := hLow (by simp [hState])
      simp only [RegistersFit, clock, pFsm, hRst, hState, Transmitter.payload, Bool.not_true, Bool.false_eq_true, if_false]
      split_ifs with hDreq hDone hEnd hEnd
      · exact ⟨hSof, rfl⟩
      · exact ⟨hSof, rfl⟩
      · exact ⟨hSof, hn.1⟩
      · obtain ⟨hSucc, hLess'⟩ := hNext (Bool.eq_false_iff.mpr hEnd)
        exact ⟨hSof, hSucc ▸ hLess'⟩
      · simpa [hState] using ⟨hSof, hLess⟩
    | crcWord =>
      have hEscape := h.crcWord hState
      simp only [RegistersFit, clock, pFsm, hRst, hState, Transmitter.crcWord, Bool.not_true, Bool.false_eq_true, if_false]
      split_ifs <;> simp [hState, hLow, hEscape]
    | padding =>
      simp only [RegistersFit, clock, pFsm, hRst, hState, Transmitter.padding, Bool.not_true, Bool.false_eq_true, if_false]
      split_ifs <;> simp [hState, hLow]
    | eof =>
      cases hDreq : s.dreq i <;> simp [RegistersFit, clock, pFsm, hRst, hState, hDreq, hLow]

/-! ### A step while the fabric asks -/

theorem dreq_of_draining (h : i.Draining) : s.dreq i = !s.twoWords := by
  simp [dreq, InserterIn.dReqO, InserterIn.twoWords, inserterIn, twoWords, h.2.1]

theorem bufferNext_of_draining (h : i.Draining) :
    (s.clock cfg i).buffer = if s.fifoRd i then s.buffer.tail else s.buffer := by
  simp [clock, bufferNext, fifoWe, h.1, h.2.2]

structure SameFrame (s' s : Transmitter n) : Prop where
  state : s'.state = s.state
  count : s'.count = s.count
  serCount : s'.serCount = s.serCount
  buffer : s'.buffer = s.buffer

/-- While a word takes two cycles, every state but that of the CRC withdraws it and waits. -/
theorem clock_of_twoWords (cfg : TxConfig) (hDrain : i.Draining) (hTwo : s.twoWords = true)
    (hState : s.state ≠ .idle ∧ s.state ≠ .sof ∧ s.state ≠ .crcWord) :
    (s.clock cfg i).SameFrame s ∧ (s.clock cfg i).dvalid = false ∧ (s.clock cfg i).totalWords = s.pCountWords := by
  have hDreq : s.dreq i = false := by rw [dreq_of_draining hDrain, hTwo]; rfl
  have hBuffer : (s.clock cfg i).buffer = s.buffer := by
    simp [bufferNext_of_draining hDrain, fifoRd, hDreq]
  obtain ⟨hIdle, hSof, hCrc⟩ := hState
  cases hCase : s.state with
  | idle => exact absurd hCase hIdle
  | sof => exact absurd hCase hSof
  | crcWord => exact absurd hCase hCrc
  | ethHeader | subframeHeader | payload | padding | eof =>
    refine ⟨⟨?_, ?_, ?_, hBuffer⟩, ?_, rfl⟩ <;>
      simp [clock, pFsm, hDrain.1, hCase, hDreq, Transmitter.ethHeader, Transmitter.subframeHeader,
        Transmitter.payload, Transmitter.padding]

/-! ### The steps left -/

/-- What the subframes and the end of the frame take at most, from a subframe header on. -/
def startBudget : List (TxWord n) → Nat
  | [] => 35
  | _ :: rest => (n + 6) * rest.length + n + 38

def budget (s : Transmitter n) : Nat :=
  match s.state with
  | .idle => 0
  | .eof => 1
  | .padding => 2 + (31 - s.pCountWords.toNat)
  | .crcWord => (n + 6) * s.buffer.length + 34
  | .payload =>
    match s.buffer with
    | [] => 35
    | _ :: rest => (n + 6) * rest.length + (n - s.serCount.toNat) + 38
  | .subframeHeader => startBudget s.buffer + 1
  | .ethHeader => startBudget s.buffer + (10 - s.count.toNat)
  | .sof => startBudget s.buffer + 11

/-- A step towards the end of the frame, which settles nothing about the words to come. -/
structure Advance (cfg : TxConfig) (s' s : Transmitter n) : Prop where
  clear : s'.Clear cfg ↔ s.Clear cfg
  budget : s'.budget < s.budget

theorem advance_sof (hDrain : i.Draining) (hState : s.state = .sof) : Advance cfg (s.clock cfg i) s := by
  have hBuffer : (s.clock cfg i).buffer = s.buffer := by
    simp [bufferNext_of_draining hDrain, fifoRd, hState]
  have hNext : (s.clock cfg i).state = .ethHeader ∧ (s.clock cfg i).count = 0 := by
    simp [clock, pFsm, hDrain.1, hState]
  constructor
  · simp only [Clear, hNext.1, hState, hBuffer]
  · simp only [budget, hNext.1, hNext.2, hState, hBuffer]
    simp

theorem advance_ethHeader (hDrain : i.Draining) (hDreq : s.dreq i = true) (hFormed : s.Formed)
    (hState : s.state = .ethHeader) : Advance cfg (s.clock cfg i) s := by
  have hBuffer : (s.clock cfg i).buffer = s.buffer := by
    simp [bufferNext_of_draining hDrain, fifoRd, hState]
  have hCount := hFormed.header hState
  by_cases hMore : s.count.toNat < 8
  · have hNext : (s.clock cfg i).state = .ethHeader ∧ (s.clock cfg i).count = s.count + 1 := by
      simp [clock, pFsm, hDrain.1, hState, Transmitter.ethHeader, hDreq, hMore]
    have hSucc : (s.count + 1).toNat = s.count.toNat + 1 := by
      rw [BitVec.toNat_add]
      exact Nat.mod_eq_of_lt (by simp; omega)
    constructor
    · simp only [Clear, hNext.1, hState, hBuffer]
    · simp only [budget, hNext.1, hNext.2, hState, hBuffer, hSucc]
      omega
  · have hNext : (s.clock cfg i).state = .subframeHeader ∧ (s.clock cfg i).count = 0 := by
      simp [clock, pFsm, hDrain.1, hState, Transmitter.ethHeader, hDreq, show s.count.toNat = 8 by omega]
    constructor
    · simp only [Clear, hNext.1, hNext.2, hState, hBuffer]
    · simp only [budget, hNext.1, hState, hBuffer]
      omega

theorem advance_subframeHeader (hDrain : i.Draining) (hDreq : s.dreq i = true) (hFormed : s.Formed)
    (hState : s.state = .subframeHeader) : Advance cfg (s.clock cfg i) s := by
  have hBuffer : (s.clock cfg i).buffer = s.buffer := by
    simp [bufferNext_of_draining hDrain, fifoRd, hState]
  have hNext : (s.clock cfg i).state = .payload ∧ (s.clock cfg i).count = s.count ∧
      (s.clock cfg i).serCount = 0 := by
    simp [clock, pFsm, hDrain.1, hState, Transmitter.subframeHeader, hDreq, hFormed.start (.inr hState)]
  constructor
  · simp only [Clear, hNext.1, hNext.2.1, hState, hBuffer]
  · simp only [budget, hNext.1, hNext.2.2, hState, hBuffer]
    cases s.buffer with
    | nil => simp [startBudget]
    | cons w rest => simp [startBudget]

theorem advance_payload (hDrain : i.Draining) (hDreq : s.dreq i = true) (hn : 0 < n ∧ n ≤ 256)
    (hFormed : s.Formed) (hState : s.state = .payload) : Advance cfg (s.clock cfg i) s := by
  have hLess := hFormed.payload hState
  have hBuffer : (s.clock cfg i).buffer = if s.endsWord && !s.fifoEmpty then s.buffer.tail else s.buffer := by
    rw [bufferNext_of_draining hDrain]
    simp [fifoRd, hState, hDreq]
  have hNext : (s.clock cfg i).state =
        (if s.fifoEmpty || (s.endsWord && (s.fifoQ i).last) then .crcWord else .payload) ∧
      (s.clock cfg i).count = (if s.endsWord then s.count + 1 else s.count) ∧
      (s.clock cfg i).serCount = (if s.endsWord then 0 else s.serCount + 1) ∧
      (s.clock cfg i).data = field (16 * s.serCount.toNat) 16 (s.fifoQ i).data ∧
      (s.clock cfg i).dvalid = !s.fifoEmpty := by
    simp [clock, pFsm, hDrain.1, hState, Transmitter.payload, hDreq]
  obtain ⟨hNextState, hCount, hSer, hData, hValid⟩ := hNext
  cases hWords : s.buffer with
  | nil =>
    have hEmpty : s.fifoEmpty = true := by simp [fifoEmpty, hWords]
    rw [hEmpty, Bool.true_or, if_pos rfl] at hNextState
    rw [hEmpty, Bool.not_true] at hValid
    rw [hEmpty, Bool.not_true, Bool.and_false, if_neg (by decide), hWords] at hBuffer
    constructor
    · simp [Clear, hNextState, hState, hBuffer, hValid, hWords, blockEnds]
    · simp [budget, hNextState, hState, hBuffer, hWords]
  | cons w rest =>
    have hFull : s.fifoEmpty = false := by simp [fifoEmpty, hWords]
    have hWord : s.fifoQ i = w := by simp [fifoQ, hWords]
    rw [hFull, Bool.false_or, hWord] at hNextState
    rw [hFull, Bool.not_false] at hValid
    rw [hFull, Bool.not_false, Bool.and_true, hWords, List.tail_cons] at hBuffer
    rw [hWord] at hData
    cases hEnds : s.endsWord with
    | false =>
      simp only [hEnds, Bool.false_and, Bool.false_eq_true, if_false] at hNextState hCount hSer hBuffer
      obtain ⟨hSucc, hRoom⟩ := serCount_succ hn.2 hLess hEnds
      constructor
      · simp only [Clear, hNextState, hState, hBuffer, hCount, hWords]
      · simp only [budget, hNextState, hState, hBuffer, hSer, hWords, hSucc]
        omega
    | true =>
      have hLastHalf : s.serCount.toNat = n - 1 := by
        have : s.serCount.toNat + 1 = n := by simpa [endsWord] using hEnds
        omega
      simp only [hEnds, Bool.true_and, if_true] at hNextState hCount hSer hBuffer
      cases hLast : w.last with
      | false =>
        rw [hLast, if_neg (by decide)] at hNextState
        constructor
        · simp [Clear, hNextState, hState, hBuffer, hCount, hWords, blockEnds, hLast]
        · simp only [budget, hNextState, hState, hBuffer, hSer, hWords]
          cases rest with
          | nil => simp
          | cons v more => simp [Nat.mul_add]; omega
      | true =>
        rw [hLast, if_pos rfl] at hNextState
        rw [hLastHalf] at hData
        constructor
        · simp only [Clear, hNextState, hState, hBuffer, hCount, hWords, blockEnds, hLast, if_true, hValid, hData]
          cases hStop : rest.isEmpty || decide (cfg.txMaxWordsPerFrame ≤ (s.count + 1).toNat) <;>
            simp [eq_comm]
        · simp only [budget, hNextState, hState, hBuffer, hWords]
          omega

theorem advance_crcWord (hDrain : i.Draining) (hTwo : s.twoWords = false) (hState : s.state = .crcWord) : Advance cfg (s.clock cfg i) s := by
  have hDreq : s.dreq i = true := by rw [dreq_of_draining hDrain, hTwo]; rfl
  have hBuffer : (s.clock cfg i).buffer = s.buffer := by
    simp [bufferNext_of_draining hDrain, fifoRd, hState]
  have hNext : (s.clock cfg i).state =
        (if s.buffer.isEmpty || decide (cfg.txMaxWordsPerFrame ≤ s.count.toNat) then .padding
          else .subframeHeader) ∧ (s.clock cfg i).count = s.count := by
    simp [clock, pFsm, hDrain.1, hState, Transmitter.crcWord, hDreq, fifoEmpty]
  have hPassed : ¬(s.dvalid = true ∧ s.data = escapeCode) := by
    rintro ⟨hValid, hCode⟩
    simp [twoWords, hValid, hCode] at hTwo
  cases hStop : s.buffer.isEmpty || decide (cfg.txMaxWordsPerFrame ≤ s.count.toNat) with
  | true =>
    rw [hStop, if_pos rfl] at hNext
    constructor
    · simp [Clear, hNext.1, hState, hStop, hPassed]
    · simp only [budget, hNext.1, hState]
      omega
  | false =>
    rw [hStop, if_neg (by decide)] at hNext
    constructor
    · simp only [Clear, hNext.1, hNext.2, hState, hBuffer, hStop]
      simp [hPassed]
    · simp only [budget, hNext.1, hState, hBuffer]
      cases hWords : s.buffer with
      | nil => simp [hWords] at hStop
      | cons w rest => simp [startBudget, Nat.mul_add]; omega

theorem advance_padding (hDrain : i.Draining) (hDreq : s.dreq i = true) (hFormed : s.Formed)
    (hState : s.state = .padding) : Advance cfg (s.clock cfg i) s := by
  have hSof := hFormed.sof (by simp [hState])
  by_cases hEnough : 30 ≤ s.totalWords.toNat
  · have hNext : (s.clock cfg i).state = .eof := by
      simp [clock, pFsm, hDrain.1, hState, Transmitter.padding, hDreq, hEnough]
    constructor
    · simp [Clear, hNext, hState]
    · simp only [budget, hNext, hState]
      omega
  · have hNext : (s.clock cfg i).state = .padding ∧ (s.clock cfg i).dvalid = true ∧ (s.clock cfg i).sof = false ∧
        (s.clock cfg i).totalWords = s.pCountWords := by
      refine ⟨?_, ?_, ?_, rfl⟩ <;> simp [clock, pFsm, hDrain.1, hState, Transmitter.padding, hDreq, hEnough, hSof]
    have hShort : s.pCountWords.toNat ≤ 30 := by
      simp only [pCountWords, hSof, Bool.false_eq_true, if_false]
      split_ifs
      · rw [BitVec.toNat_add]
        exact Nat.le_trans (Nat.mod_le _ _) (by simp; omega)
      · omega
    have hCount : (s.clock cfg i).pCountWords.toNat = s.pCountWords.toNat + 1 := by
      rw [pCountWords, hNext.2.1, hNext.2.2.1, hNext.2.2.2, if_neg (by decide), if_pos rfl, BitVec.toNat_add]
      exact Nat.mod_eq_of_lt (by simp; omega)
    constructor
    · simp [Clear, hNext.1, hState]
    · simp only [budget, hNext.1, hState, hCount]
      omega

theorem advance_eof (hDrain : i.Draining) (hDreq : s.dreq i = true) (hState : s.state = .eof) :
    Advance cfg (s.clock cfg i) s := by
  have hNext : (s.clock cfg i).state = .idle := by
    simp [clock, pFsm, hDrain.1, hState, hDreq]
  constructor
  · simp [Clear, hNext, hState]
  · simp [budget, hNext, hState]

/-! ### The whole frame -/

def measure (s : Transmitter n) : Nat := 2 * s.budget + if s.twoWords then 1 else 0

/-- The cycles that a frame needs, by the number of buffered words. -/
def frameBound (n len : Nat) : Nat := 2 * ((n + 6) * len + 46) + 1

theorem measure_le (s : Transmitter n) : s.measure ≤ frameBound n s.buffer.length := by
  have hBudget : s.budget ≤ (n + 6) * s.buffer.length + 46 := by
    unfold budget
    cases s.state <;> cases s.buffer <;> simp [startBudget, Nat.mul_add] <;> omega
  unfold measure frameBound
  split_ifs <;> omega

theorem measure_of_advance {s' : Transmitter n} (h : Advance cfg s' s) : s'.measure < s.measure := by
  have := h.budget
  unfold measure
  split_ifs <;> omega

theorem measure_of_twoWords (cfg : TxConfig) (hFormed : s.Formed) (hDrain : i.Draining) (hn : 0 < n ∧ n ≤ 256)
    (hTwo : s.twoWords = true) (hState : s.state ≠ .idle ∧ s.state ≠ .sof ∧ s.state ≠ .crcWord) :
    ((s.clock cfg i).Clear cfg ↔ s.Clear cfg) ∧ (s.clock cfg i).measure < s.measure := by
  obtain ⟨⟨hSame, hCount, hSer, hBuffer⟩, hValid, hTotal⟩ := clock_of_twoWords cfg hDrain hTwo hState
  have hFormed' : (s.clock cfg i).Formed := hFormed.step hn i
  have hSof := hFormed'.sof (by rw [hSame]; exact hState.2.1)
  have hCounted : (s.clock cfg i).pCountWords = s.pCountWords := by
    rw [← hTotal, pCountWords, hSof, hValid]
    rfl
  have hBudget : (s.clock cfg i).budget = s.budget := by
    simp only [budget, hSame, hCount, hSer, hBuffer, hCounted]
  have hPassed : (s.clock cfg i).twoWords = false := by simp [twoWords, hValid]
  constructor
  · cases hCase : s.state with
    | crcWord => exact absurd hCase hState.2.2
    | _ => simp only [Clear, hSame, hCase, hCount, hBuffer]
  · simp [measure, hBudget, hPassed, hTwo]

theorem clear_of_stuck (hDrain : i.Draining) (hTwo : s.twoWords = true) (hState : s.state = .crcWord) :
    (s.clock cfg i).Clear cfg ↔ s.Clear cfg := by
  have hDreq : s.dreq i = false := by rw [dreq_of_draining hDrain, hTwo]; rfl
  have hBuffer : (s.clock cfg i).buffer = s.buffer := by
    simp [bufferNext_of_draining hDrain, fifoRd, hState]
  have hNext : (s.clock cfg i).state = .crcWord ∧ (s.clock cfg i).count = s.count ∧
      (s.clock cfg i).dvalid = s.dvalid ∧ (s.clock cfg i).data = s.data := by
    simp [clock, pFsm, hDrain.1, hState, Transmitter.crcWord, hDreq]
  simp only [Clear, hNext.1, hNext.2.1, hNext.2.2.1, hNext.2.2.2, hState, hBuffer]

theorem not_clear_of_stuck (hFormed : s.Formed) (hTwo : s.twoWords = true) (hState : s.state = .crcWord) :
    ¬s.Clear cfg := by
  simp only [twoWords, hFormed.crcWord hState, Bool.false_or, Bool.and_eq_true, beq_iff_eq] at hTwo
  simp [Clear, hState, hTwo]

theorem step_of_draining (hFormed : s.Formed) (hDrain : i.Draining) (hn : 0 < n ∧ n ≤ 256)
    (hBusy : s.state ≠ .idle) :
    ((s.clock cfg i).Clear cfg ↔ s.Clear cfg) ∧ (s.Clear cfg → (s.clock cfg i).measure < s.measure) := by
  have hAdvance : Advance cfg (s.clock cfg i) s →
      ((s.clock cfg i).Clear cfg ↔ s.Clear cfg) ∧ (s.Clear cfg → (s.clock cfg i).measure < s.measure) :=
    fun h => ⟨h.clear, fun _ => measure_of_advance h⟩
  by_cases hSof : s.state = .sof
  · exact hAdvance (advance_sof hDrain hSof)
  · cases hTwo : s.twoWords with
    | true =>
      by_cases hCrc : s.state = .crcWord
      · exact ⟨clear_of_stuck hDrain hTwo hCrc, fun h => absurd h (not_clear_of_stuck hFormed hTwo hCrc)⟩
      · obtain ⟨hClear, hLess⟩ := measure_of_twoWords cfg hFormed hDrain hn hTwo ⟨hBusy, hSof, hCrc⟩
        exact ⟨hClear, fun _ => hLess⟩
    | false =>
      have hDreq : s.dreq i = true := by rw [dreq_of_draining hDrain, hTwo]; rfl
      apply hAdvance
      cases hState : s.state with
      | idle => exact absurd hState hBusy
      | sof => exact absurd hState hSof
      | ethHeader => exact advance_ethHeader hDrain hDreq hFormed hState
      | subframeHeader => exact advance_subframeHeader hDrain hDreq hFormed hState
      | payload => exact advance_payload hDrain hDreq hn hFormed hState
      | crcWord => exact advance_crcWord hDrain hTwo hState
      | padding => exact advance_padding hDrain hDreq hFormed hState
      | eof => exact advance_eof hDrain hDreq hState

/-- The frame is over within its bound, whatever the words and the header. -/
def Finishes (cfg : TxConfig) (s : Transmitter n) : Prop :=
  ∀ more : List (TxIn n), frameBound n s.buffer.length ≤ more.length → (∀ i ∈ more, i.Draining) →
    ∃ before after, more = before ++ after ∧ (run (clock cfg) before s).state = .idle

theorem idle_of_measure (hFormed : s.Formed) (hZero : s.measure = 0) : s.state = .idle := by
  by_contra hBusy
  have hSome : 0 < s.budget := by
    have hHeader := hFormed.header
    unfold budget
    cases hState : s.state with
    | idle => exact absurd hState hBusy
    | payload => cases s.buffer <;> simp
    | sof | ethHeader | subframeHeader | crcWord | padding | eof => simp_all <;> omega
  unfold measure at hZero
  omega

theorem finishes_of_clear (hn : 0 < n ∧ n ≤ 256) (hFormed : s.Formed) (hClear : s.Clear cfg) : s.Finishes cfg := by
  intro more hEnough hDrain
  have hZero : ∀ s : Transmitter n, s.Formed ∧ s.Clear cfg → s.measure = 0 → s.state = .idle :=
    fun s h hZero => idle_of_measure h.1 hZero
  have hStep : ∀ i (s : Transmitter n), i.Draining → s.Formed ∧ s.Clear cfg → ¬s.state = .idle →
      ((s.clock cfg i).Formed ∧ (s.clock cfg i).Clear cfg) ∧ (s.clock cfg i).measure < s.measure := by
    rintro i s hDrain ⟨hFormed, hClear⟩ hBusy
    obtain ⟨hSame, hLess⟩ := step_of_draining hFormed hDrain hn hBusy
    exact ⟨⟨hFormed.step hn i, hSame.mpr hClear⟩, hLess hClear⟩
  exact reaches_of_decreasing measure hZero hStep more hDrain ⟨hFormed, hClear⟩
    (Nat.le_trans (measure_le s) hEnough)

theorem clear_of_idle (hState : s.state = .idle) : s.Clear cfg := by
  simp [Clear, hState]

def drainIn (n : Nat) : TxIn n := ⟨true, ⟨0, false⟩, false, false, false, true, true, 0, false, 0, ⟨0, false⟩, 0⟩

theorem clear_of_finishes (hn : 0 < n ∧ n ≤ 256) (hFormed : s.Formed) (hFinishes : s.Finishes cfg) :
    s.Clear cfg := by
  by_contra hDoomed
  obtain ⟨before, after, hSplit, hIdle⟩ := hFinishes (List.replicate (frameBound n s.buffer.length) (drainIn n))
    (by simp) (fun i hi => by rw [List.eq_of_mem_replicate hi]; exact ⟨rfl, rfl, rfl⟩)
  have hStep : ∀ i (s : Transmitter n), s.Formed ∧ ¬s.Clear cfg → i.Draining →
      (s.clock cfg i).Formed ∧ ¬(s.clock cfg i).Clear cfg := by
    rintro i s ⟨hFormed, hDoomed⟩ hDrain
    have hBusy : s.state ≠ .idle := fun hState => hDoomed (clear_of_idle hState)
    exact ⟨hFormed.step hn i, fun h => hDoomed ((step_of_draining hFormed hDrain hn hBusy).1.mp h)⟩
  have hDrain : ∀ i ∈ before, ∀ _ : Transmitter n, i.Draining := by
    intro i hMem _
    have hAll : i ∈ before ++ after := List.mem_append_left _ hMem
    rw [← hSplit] at hAll
    rw [List.eq_of_mem_replicate hAll]
    exact ⟨rfl, rfl, rfl⟩
  have hEnd := run_invariant hStep before ⟨hFormed, hDoomed⟩ (along_of_forall hDrain s)
  exact hEnd.2 (clear_of_idle hIdle)

theorem formed_run (cfg : TxConfig) (hn : 0 < n ∧ n ≤ 256) (hReset : s.state = .idle ∧ s.sof = false)
    (history : List (TxIn n)) : (run (clock cfg) history s).Formed := by
  have hStep : ∀ i (s : Transmitter n), s.Formed → True → (s.clock cfg i).Formed := fun i s h _ => h.step hn i
  exact run_invariant hStep history (Formed.of_idle hReset.1 hReset.2) (along_of_forall (fun _ _ _ => trivial) s)

/-- From every state that a run can reach, the frame is finished within its bound exactly when no
block still to be closed, nor the word that the CRC waits behind, ends in the escape code. -/
theorem frame_finishes_iff (cfg : TxConfig) (hn : 0 < n ∧ n ≤ 256) (s : Transmitter n)
    (hReset : s.state = .idle ∧ s.sof = false) (history : List (TxIn n)) :
    (run (clock cfg) history s).Finishes cfg ↔ (run (clock cfg) history s).Clear cfg :=
  ⟨clear_of_finishes hn (formed_run cfg hn hReset history), finishes_of_clear hn (formed_run cfg hn hReset history)⟩

/-! ### A frame that never ends -/

def txConfig : TxConfig := ⟨0, 0, 0xdbff, 4, 128, 64⟩

def blankTx : Transmitter 4 :=
  ⟨.idle, false, false, false, 0, false, false, 0, 0, 0, 0, false, false, false, 0, 0, false, false, [], ⟨.idle, 0, false⟩⟩

def txReset : TxIn 4 := { drainIn 4 with rstN := false }

/-- The word is pushed as a block of its own, and flushed. -/
def push (data : BitVec 64) : TxIn 4 := ⟨true, ⟨data, true⟩, true, true, false, true, true, 0, false, 0, ⟨0, false⟩, 0⟩

def afterBlock (data : BitVec 64) : Transmitter 4 :=
  run (clock txConfig) (push data :: List.replicate 20 (drainIn 4)) blankTx

theorem frame_finishes_iff_plain :
    ((afterBlock 1).Finishes txConfig ↔ (afterBlock 1).Clear txConfig) ∧
      (afterBlock 1).state = .padding ∧ (afterBlock 1).Clear txConfig := by
  have hState : (afterBlock 1).state = .padding := by decide +kernel
  have hClear : (afterBlock 1).Clear txConfig := by
    rw [Clear, hState]
    trivial
  exact ⟨frame_finishes_iff txConfig (by decide) blankTx ⟨rfl, rfl⟩ _, hState, hClear⟩

/-- The final half-word of the block is the escape code, and the CRC waits behind it for ever. -/
theorem frame_stuck :
    (afterBlock 0xcafe000000000000).state = .crcWord ∧ (afterBlock 0xcafe000000000000).data = escapeCode ∧
    ¬ ∀ history : List (TxIn 4), (run (clock txConfig) history blankTx).Finishes txConfig := by
  have hStuck : (afterBlock 0xcafe000000000000).state = .crcWord ∧
      (afterBlock 0xcafe000000000000).dvalid = true ∧ (afterBlock 0xcafe000000000000).data = escapeCode := by
    decide +kernel
  obtain ⟨hState, hValid, hCode⟩ := hStuck
  refine ⟨hState, hCode, fun h => ?_⟩
  have hClear := clear_of_finishes (by decide) (formed_run txConfig (by decide) ⟨rfl, rfl⟩ _)
    (h (push 0xcafe000000000000 :: List.replicate 20 (drainIn 4)))
  change (afterBlock 0xcafe000000000000).Clear txConfig at hClear
  rw [Clear, hState] at hClear
  exact hClear.1 ⟨hValid, hCode⟩

end Transmitter

end WrRfDemo.Streamer

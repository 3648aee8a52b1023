import Mathlib.Data.List.Forall2
import WrRfDemo.Dds.Snapshot
import WrRfDemo.Dds.Assembly

/-! # Master and slave on one channel

The two streamers and the network between them are a queue of words that keeps the block
boundaries. Both sample paths stay switched on; the master's two clocks and the slave's
system clock tick in any order.
-/

namespace WrRfDemo.Dds

open Clocked

structure StreamWord where
  data : BitVec 64
  first : Bool
  last : Bool
deriving DecidableEq

structure Link where
  node : TxNode
  channel : List StreamWord
  boundary : Bool
  rx : RxPath
deriving DecidableEq

/-- One clock edge. In a `slave` cycle without a word to take, `idle` stands on the outputs. -/
inductive LinkEvent
  | ref (i : TxRefIn)
  | master (deliver txDreq : Bool)
  | slave (take : Bool) (idle : StreamWord) (undriven : BitVec 128)
deriving DecidableEq

structure LinkLog where
  tx : TxLog
  rx : RxLog
deriving DecidableEq

namespace Link

/-- The word pushed to the streamer in this cycle, marked first if the one before was last. -/
def pushed (s : Link) : List StreamWord :=
  if s.node.path.txValid then [⟨s.node.path.txData, s.boundary, s.node.path.txLast⟩] else []

def rxIn (rxId : BitVec 16) (take : Bool) (idle : StreamWord) (s : Link) : RxIn :=
  match take, s.channel with
  | true, word :: _ => ⟨true, true, rxId, true, word.first, word.data, false⟩
  | _, _ => ⟨true, true, rxId, false, idle.first, idle.data, false⟩

variable (txId rxId : BitVec 16)

def step : LinkEvent → Link → Link
  | .ref i, s => { s with node := s.node.step (.ref i) }
  | .master deliver txDreq, s =>
    { s with node := s.node.step (.sys true true txId deliver txDreq), channel := s.channel ++ s.pushed,
             boundary := if s.node.path.txValid then s.node.path.txLast else s.boundary }
  | .slave take idle _, s =>
    { s with channel := if take then s.channel.tail else s.channel,
             rx := s.rx.pRxFsm (s.rxIn rxId take idle) }

def see (o : LinkLog) : LinkEvent → Link → LinkLog
  | .ref i, s => { o with tx := o.tx.see (.ref i) s.node }
  | .master deliver txDreq, s => { o with tx := o.tx.see (.sys true true txId deliver txDreq) s.node }
  | .slave take idle undriven, s => { o with rx := o.rx.see (s.rxIn rxId take idle, undriven) s.rx }

/-- Between samples on both sides, with nothing on the channel. -/
structure AfterReset (s : Link) : Prop where
  node : s.node.AfterReset
  channel : s.channel = []
  boundary : s.boundary = true
  rxState : s.rx.state = .waitSample
  newSampleSys : s.rx.newSampleSys = false

/-- Captures only while `p_tx_fsm` waits for a sample and no earlier pulse is on its way to it. -/
def Spaced : LinkEvent → Link → Prop
  | .ref i, s => s.node.path.captures i = true →
    s.node.path.state = .waitSample ∧ s.node.path.newSample = false ∧ s.node.pulses = 0
  | _, _ => True

instance (event : LinkEvent) (s : Link) : Decidable (Spaced event s) :=
  match event with
  | .ref _ => inferInstanceAs (Decidable (_ → _))
  | .master .. | .slave .. => isTrue trivial

end Link

def Sample.entry (sample : Sample) : Entry :=
  ⟨field 0 32 sample.tai, sample.cycles, sample.acc, sample.tune⟩

/-! ### The master's side: every sample, one block -/

/-- The words of a block agree with the sample, as far as they go. -/
structure Wrote (txId : BitVec 16) (sample : Sample) (block : List (BitVec 64)) : Prop where
  timestamp : ∀ w ∈ block[0]?, field 32 32 w = field 0 32 sample.tai ∧ field 0 28 w = sample.cycles
  acc : ∀ w ∈ block[1]?, field 0 43 w = sample.acc
  tune : ∀ w ∈ block[2]?, field 0 18 w = sample.tune ∧ field 32 16 w = txId

theorem mem_getElem_concat {block : List (BitVec 64)} {word w : BitVec 64} {k : Nat}
    (h : w ∈ (block ++ [word])[k]?) : w ∈ block[k]? ∨ block.length = k ∧ w = word := by
  rcases Nat.lt_trichotomy k block.length with hIn | hAt | hOut
  · exact .inl (by rwa [List.getElem?_append_left hIn] at h)
  · subst hAt
    rw [List.getElem?_concat_length] at h
    exact .inr ⟨rfl, (Option.mem_some_iff.mp h).symm⟩
  · have hShort : (block ++ [word]).length ≤ k := by
      rw [List.length_append, List.length_singleton]
      omega
    rw [List.getElem?_eq_none hShort] at h
    cases h

theorem Wrote.concat {txId : BitVec 16} {sample : Sample} {block : List (BitVec 64)}
    (h : Wrote txId sample block) (word : BitVec 64)
    (hTimestamp : block.length = 0 →
      field 32 32 word = field 0 32 sample.tai ∧ field 0 28 word = sample.cycles)
    (hAcc : block.length = 1 → field 0 43 word = sample.acc)
    (hTune : block.length = 2 → field 0 18 word = sample.tune ∧ field 32 16 word = txId) :
    Wrote txId sample (block ++ [word]) := by
  constructor <;> intro w hMem <;> rcases mem_getElem_concat hMem with hOld | ⟨hLength, rfl⟩
  · exact h.timestamp w hOld
  · exact hTimestamp hLength
  · exact h.acc w hOld
  · exact hAcc hLength
  · exact h.tune w hOld
  · exact hTune hLength

theorem Wrote.nil (txId : BitVec 16) (sample : Sample) : Wrote txId sample [] := by
  constructor <;> simp

namespace TxLog

variable {o : TxLog} {s : TxNode} {txId : BitVec 16}

/-- The finished blocks, the one whose last word is in `tx_data` included. -/
def allBlocks (o : TxLog) (s : TxPath) : List (List (BitVec 64)) :=
  o.blocks ++ if s.txValid && s.txLast then [o.loaded s] else []

/-- The sample captured but not yet sent as a whole block. -/
def underWay (s : TxNode) : List Sample :=
  if s.path.newSample = true ∨ s.pulses ≠ 0 ∨ s.path.state ≠ .waitSample then [s.path.snapshot] else []

/-- How many words of the open block are out in each state, `tx_data` included. -/
def OpenWords (o : TxLog) (s : TxPath) : Prop :=
  match s.state with
  | .waitSample => if s.txValid then s.txLast = true else o.opened = []
  | .txTimestamp => s.txValid = false ∧ o.opened = []
  | .txAcc => s.txLast = false ∧ (o.loaded s).length = 1
  | .txTune => s.txLast = false ∧ (o.loaded s).length = 2
  | .txPad => s.txLast = false ∧ (o.loaded s).length = 3

structure InOrder (txId : BitVec 16) (o : TxLog) (s : TxNode) : Prop where
  single : s.pulses ≤ 1 ∧ (s.path.newSample = true → s.pulses = 0) ∧
    (s.path.state ≠ .waitSample → s.path.newSample = false ∧ s.pulses = 0)
  blocks : ∃ done, List.Forall₂ (fun sample block => block.length = 4 ∧ Wrote txId sample block)
    done (o.allBlocks s.path) ∧ o.captured = done ++ underWay s
  openWords : o.OpenWords s.path
  wrote : s.path.state ≠ .waitSample → Wrote txId s.path.snapshot (o.loaded s.path)

theorem InOrder.ref {i : TxRefIn} (h : InOrder txId o s)
    (hSpaced : s.path.captures i = true →
      s.path.state = .waitSample ∧ s.path.newSample = false ∧ s.pulses = 0) :
    InOrder txId (o.see (.ref i) s) (TxNode.step (.ref i) s) := by
  obtain ⟨⟨hPulses, hOne, hIdle⟩, ⟨done, hForms, hCaptured⟩, hOpen, hWrote⟩ := h
  have hAll : (o.see (.ref i) s).allBlocks (s.path.pTakeTags i) = o.allBlocks s.path := by
    simp [allBlocks, loaded, see]
  have hOpen' : (o.see (.ref i) s).OpenWords (s.path.pTakeTags i) := by
    simpa [OpenWords, loaded, see] using hOpen
  cases hCaptures : s.path.captures i with
  | false =>
    have hSame : (s.path.pTakeTags i).snapshot = s.path.snapshot := by
      simp [TxPath.snapshot_pTakeTags, hCaptures]
    have hUnder : underWay (TxNode.step (.ref i) s) = underWay s := by
      cases hNew : s.path.newSample <;>
        simp [underWay, TxNode.step, TxPath.newSample_pTakeTags, hCaptures, hSame, hNew]
    refine ⟨⟨?_, ?_, ?_⟩, ⟨done, by rwa [TxNode.step, hAll], ?_⟩, hOpen', ?_⟩
    · cases hNew : s.path.newSample with
      | false => simpa [TxNode.step, hNew] using hPulses
      | true => simp [TxNode.step, hNew, hOne hNew]
    · simp [TxNode.step, TxPath.newSample_pTakeTags, hCaptures]
    · intro hState
      obtain ⟨hNew, hNone⟩ := hIdle (by simpa [TxNode.step] using hState)
      simp [TxNode.step, TxPath.newSample_pTakeTags, hCaptures, hNew, hNone]
    · rw [hUnder, ← hCaptured]
      simp [see, hCaptures]
    · intro hState
      rw [TxNode.step, hSame, loaded_ref]
      exact hWrote (by simpa [TxNode.step] using hState)
  | true =>
    obtain ⟨hState, hNew, hNone⟩ := hSpaced hCaptures
    have hTaken : (s.path.pTakeTags i).snapshot = TxPath.sampleIn i := by
      simp [TxPath.snapshot_pTakeTags, hCaptures]
    refine ⟨⟨?_, ?_, ?_⟩, ⟨done, by rwa [TxNode.step, hAll], ?_⟩, hOpen', ?_⟩
    · simp [TxNode.step, hNew, hNone]
    · simp [TxNode.step, hNew, hNone]
    · simp [TxNode.step, hState]
    · simp [underWay, TxNode.step, TxPath.newSample_pTakeTags, hCaptures, hTaken, see, hCaptured,
        hState, hNew, hNone]
    · simp [TxNode.step, hState]

theorem allBlocks_sys {rstN crMaster deliver txDreq : Bool} {crClkId : BitVec 16} (path : TxPath)
    (hLoaded : path.txValid = true → path.txLast = false) :
    (o.see (.sys rstN crMaster crClkId deliver txDreq) s).allBlocks path = o.allBlocks s.path := by
  have hNone : (path.txValid && path.txLast) = false := by
    cases hValid : path.txValid with
    | false => rfl
    | true => simp [hLoaded hValid]
  rw [allBlocks, blocks_sys, hNone, allBlocks, if_neg (by decide : ¬false = true), List.append_nil]

theorem underWay_eq_of_busy (h : s.path.state ≠ .waitSample) : underWay s = [s.path.snapshot] :=
  if_pos (.inr (.inr h))

theorem InOrder.wait {deliver txDreq : Bool} (h : InOrder txId o s) (hState : s.path.state = .waitSample) :
    InOrder txId (o.see (.sys true true txId deliver txDreq) s)
      (TxNode.step (.sys true true txId deliver txDreq) s) := by
  obtain ⟨⟨hPulses, hOne, hIdle⟩, ⟨done, hForms, hCaptured⟩, hOpen, hWrote⟩ := h
  set event := TxEvent.sys true true txId deliver txDreq
  have hNext : TxNode.step event s = ⟨{ s.path with
      txValid := false, txLast := false,
      state := if s.newSampleSys deliver then .txTimestamp else .waitSample },
      if s.newSampleSys deliver then s.pulses - 1 else s.pulses⟩ := by
    simp [event, TxNode.step, TxPath.pTxFsm, hState]
  have hOpened : (o.see event s).opened = [] := by
    simp only [OpenWords, hState] at hOpen
    rw [opened_sys]
    cases hValid : s.path.txValid <;> simp_all [loaded]
  have hArrived : s.newSampleSys deliver = true → s.pulses = 1 := by
    intro hNew
    have hSome : s.pulses ≠ 0 := by simpa [TxNode.newSampleSys] using (Bool.and_eq_true_iff.mp hNew).2
    omega
  rw [hNext]
  refine ⟨?_, ⟨done, ?_, ?_⟩, ?_, ?_⟩
  · cases hNew : s.newSampleSys deliver with
    | false => exact ⟨hPulses, hOne, by simp⟩
    | true =>
      have hOnly := hArrived hNew
      have hQuiet : s.path.newSample = false := by
        cases hRaised : s.path.newSample with
        | false => rfl
        | true => simp [hOne hRaised] at hOnly
      simp [hOnly, hQuiet]
  · rwa [allBlocks_sys _ (by simp)]
  · rw [captured_sys, hCaptured]
    cases hNew : s.newSampleSys deliver with
    | false => simp [underWay, TxPath.snapshot, hState]
    | true => simp [underWay, TxPath.snapshot, hArrived hNew]
  · cases s.newSampleSys deliver <;> simp [OpenWords, hOpened]
  · intro _
    simp [loaded, hOpened, Wrote.nil]

section Busy

variable {deliver txDreq : Bool} {next : TxPath}

theorem InOrder.of_busy (h : InOrder txId o s) (hBusy : s.path.state ≠ .waitSample)
    (hNext : TxNode.step (.sys true true txId deliver txDreq) s = ⟨next, s.pulses⟩)
    (hStill : next.state ≠ .waitSample) (hLast : next.txValid = true → next.txLast = false)
    (hOpen : (o.see (.sys true true txId deliver txDreq) s).OpenWords next)
    (hWrote : Wrote txId s.path.snapshot ((o.see (.sys true true txId deliver txDreq) s).loaded next)) :
    InOrder txId (o.see (.sys true true txId deliver txDreq) s)
      (TxNode.step (.sys true true txId deliver txDreq) s) := by
  obtain ⟨⟨hPulses, hOne, hIdle⟩, ⟨done, hForms, hCaptured⟩, -, -⟩ := h
  obtain ⟨hNew, hNone⟩ := hIdle hBusy
  have hPath : next = s.path.pTxFsm ⟨true, true, txId, s.newSampleSys deliver, txDreq⟩ :=
    (congrArg TxNode.path hNext).symm
  obtain ⟨hSnap, hNewNext⟩ := snapshot_pTxFsm ⟨true, true, txId, s.newSampleSys deliver, txDreq⟩ s.path
  rw [← hPath] at hSnap hNewNext
  rw [hNext]
  refine ⟨⟨hPulses, by simp [hNone], fun _ => ⟨hNewNext.trans hNew, hNone⟩⟩, ⟨done, ?_, ?_⟩, hOpen, ?_⟩
  · rwa [allBlocks_sys _ hLast]
  · rw [captured_sys, hCaptured, underWay_eq_of_busy hBusy, underWay_eq_of_busy hStill, hSnap]
  · intro _
    rwa [hSnap]

theorem InOrder.of_pad (h : InOrder txId o s) (hState : s.path.state = .txPad) :
    InOrder txId (o.see (.sys true true txId deliver true) s)
      (TxNode.step (.sys true true txId deliver true) s) := by
  obtain ⟨⟨-, -, hIdle⟩, ⟨done, hForms, hCaptured⟩, hOpen, hWrote⟩ := h
  have hBusy : s.path.state ≠ .waitSample := by simp [hState]
  obtain ⟨hNew, hNone⟩ := hIdle hBusy
  simp only [OpenWords, hState] at hOpen
  obtain ⟨hLast, hLength⟩ := hOpen
  have hNext : TxNode.step (.sys true true txId deliver true) s = ⟨{ s.path with
      txValid := true, txLast := true, state := .waitSample }, s.pulses⟩ := by
    simp [TxNode.step, TxPath.pTxFsm, TxNode.newSampleSys, hState, hNone]
  rw [hNext]
  refine ⟨by simp [hNew, hNone], ⟨done ++ [s.path.snapshot], ?_, ?_⟩, by simp [OpenWords], by simp⟩
  · simp only [allBlocks, Bool.and_self, if_true]
    rw [blocks_sys, loaded_sys (.inl hLast), hLast, Bool.and_false, if_neg (by decide), List.append_nil]
    simp only [allBlocks, hLast, Bool.and_false, Bool.false_eq_true, if_false, List.append_nil] at hForms
    refine List.rel_append hForms (List.Forall₂.cons ⟨?_, ?_⟩ List.Forall₂.nil)
    · simp [hLength]
    · exact (hWrote hBusy).concat _ (by simp [hLength]) (by simp [hLength]) (by simp [hLength])
  · rw [captured_sys, hCaptured, underWay_eq_of_busy hBusy]
    simp [underWay, hNew, hNone]

theorem InOrder.busy (h : InOrder txId o s) (hBusy : s.path.state ≠ .waitSample) :
    InOrder txId (o.see (.sys true true txId deliver txDreq) s)
      (TxNode.step (.sys true true txId deliver txDreq) s) := by
  obtain ⟨-, hNone⟩ := h.single.2.2 hBusy
  have hWrote := h.wrote hBusy
  have hOpen := h.openWords
  have hQuiet : s.newSampleSys deliver = false := by simp [TxNode.newSampleSys, hNone]
  have hStep : TxNode.step (.sys true true txId deliver txDreq) s =
      ⟨s.path.pTxFsm ⟨true, true, txId, false, txDreq⟩, s.pulses⟩ := by
    simp [TxNode.step, hQuiet]
  cases hState : s.path.state with
  | waitSample => exact absurd hState hBusy
  | txTimestamp =>
    simp only [OpenWords, hState] at hOpen
    obtain ⟨hValid, hEmpty⟩ := hOpen
    have hNil : o.loaded s.path = [] := by simp [loaded, hValid, hEmpty]
    apply h.of_busy hBusy hStep <;> cases txDreq <;>
      simp [TxPath.pTxFsm, hState, OpenWords, loaded_sys (.inr hValid), opened_sys, hValid, hNil,
        Wrote.nil]
    exact (Wrote.nil _ _).concat _ (fun _ => ⟨s.path.tai_timestampWord, s.path.cycles_timestampWord⟩)
      (by simp) (by simp)
  | txAcc =>
    simp only [OpenWords, hState] at hOpen
    obtain ⟨hLast, hLength⟩ := hOpen
    apply h.of_busy hBusy hStep <;> cases txDreq <;>
      simp [TxPath.pTxFsm, hState, OpenWords, loaded_sys (.inl hLast), hLast, hLength, hWrote]
    exact hWrote.concat _ (by simp [hLength]) (fun _ => s.path.acc_accWord) (by simp [hLength])
  | txTune =>
    simp only [OpenWords, hState] at hOpen
    obtain ⟨hLast, hLength⟩ := hOpen
    apply h.of_busy hBusy hStep <;> cases txDreq <;>
      simp [TxPath.pTxFsm, hState, OpenWords, loaded_sys (.inl hLast), hLast, hLength, hWrote]
    exact hWrote.concat _ (by simp [hLength]) (by simp [hLength])
      (fun _ => ⟨s.path.tune_tuneWord txId, s.path.clkId_tuneWord txId⟩)
  | txPad =>
    cases txDreq with
    | true => exact h.of_pad hState
    | false =>
      simp only [OpenWords, hState] at hOpen
      obtain ⟨hLast, hLength⟩ := hOpen
      apply h.of_busy hBusy hStep <;>
        simp [TxPath.pTxFsm, hState, OpenWords, loaded_sys (.inl hLast), hLast, hLength, hWrote]

end Busy

theorem InOrder.sys {deliver txDreq : Bool} (h : InOrder txId o s) :
    InOrder txId (o.see (.sys true true txId deliver txDreq) s)
      (TxNode.step (.sys true true txId deliver txDreq) s) := by
  by_cases hState : s.path.state = .waitSample
  · exact h.wait hState
  · exact h.busy hState

theorem inOrder_afterReset (h : s.AfterReset) : InOrder txId empty s := by
  obtain ⟨hState, hValid, hLast, hNew, hPulses⟩ := h
  exact ⟨by simp [hState, hNew, hPulses], ⟨[], by simp [allBlocks, empty, hValid],
    by simp [underWay, empty, hState, hNew, hPulses]⟩, by simp [OpenWords, empty, hState, hValid],
    by simp [hState]⟩

end TxLog

end WrRfDemo.Dds

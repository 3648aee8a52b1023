import WrRfDemo.Dds.Counted
import WrRfDemo.Dds.Link

/-! # The slave writes what the master captured

Each word position of a block is written and read with the same bit ranges, so the entries
written are, at every moment, the first of the captured samples, and all of them once the
words under way have arrived.
-/

namespace WrRfDemo.Dds

open Clocked

/-! ### What is on the channel -/

/-- The slave's view of the blocks once every word on the channel has arrived. -/
def arrive (rxId : BitVec 16) (channel : List StreamWord) (o : RxLog) : RxLog :=
  channel.foldl (fun o word => o.receive ⟨word.data, rxId⟩ word.first) o

def asReceived (rxId : BitVec 16) (block : List (BitVec 64)) : List RxWord := block.map (⟨·, rxId⟩)

theorem arrive_concat (rxId : BitVec 16) (channel : List StreamWord) (word : StreamWord) (o : RxLog) :
    arrive rxId (channel ++ [word]) o = (arrive rxId channel o).receive ⟨word.data, rxId⟩ word.first := by
  simp [arrive]

theorem arrive_isPrefix (rxId : BitVec 16) (channel : List StreamWord) (o : RxLog) :
    RxLog.due o.blocks <+: RxLog.due (arrive rxId channel o).blocks := by
  induction channel generalizing o with
  | nil => exact List.prefix_refl _
  | cons word rest ih => exact (RxLog.due_receive_isPrefix _ _ o).trans (ih _)

theorem closed_receive_isPrefix (word : RxWord) (first : Bool) (o : RxLog) :
    o.closed <+: (o.receive word first).closed := by
  unfold RxLog.receive
  split_ifs
  · exact List.prefix_append _ _
  · exact List.prefix_refl _
  · exact List.prefix_refl _

theorem arrive_closed_isPrefix (rxId : BitVec 16) (channel : List StreamWord) (o : RxLog) :
    o.closed <+: (arrive rxId channel o).closed := by
  induction channel generalizing o with
  | nil => exact List.prefix_refl _
  | cons word rest ih => exact (closed_receive_isPrefix _ _ o).trans (ih _)

theorem arrive_congr (rxId : BitVec 16) (channel : List StreamWord) {o o' : RxLog}
    (hClosed : o.closed = o'.closed) (hOpened : o.opened = o'.opened) :
    (arrive rxId channel o).closed = (arrive rxId channel o').closed ∧
      (arrive rxId channel o).opened = (arrive rxId channel o').opened := by
  induction channel generalizing o o' with
  | nil => exact ⟨hClosed, hOpened⟩
  | cons word rest ih =>
    apply ih
    · cases hFirst : word.first <;> simp [RxLog.receive, hFirst, hClosed, hOpened]
    · cases hFirst : word.first <;> simp [RxLog.receive, hFirst, hOpened]

/-- The blocks that have arrived, when all words have, are the blocks sent; the list begins
with the empty block before the first. -/
structure Conveyed (rxId : BitVec 16) (o : LinkLog) (s : Link) : Prop where
  boundary : s.boundary = o.tx.opened.isEmpty
  whole : o.tx.opened = [] →
    (arrive rxId s.channel o.rx).blocks = ([] :: o.tx.blocks).map (asReceived rxId)
  part : o.tx.opened ≠ [] →
    (arrive rxId s.channel o.rx).closed = ([] :: o.tx.blocks).map (asReceived rxId) ∧
      (arrive rxId s.channel o.rx).opened = asReceived rxId o.tx.opened

namespace Conveyed

variable {txId rxId : BitVec 16} {o : LinkLog} {s : Link}

theorem blocks (h : Conveyed rxId o s) : RxLog.due (arrive rxId s.channel o.rx).blocks =
    RxLog.due ((o.tx.blocks ++ [o.tx.opened]).map (asReceived rxId)) := by
  by_cases hEmpty : o.tx.opened = []
  · rw [h.whole hEmpty, hEmpty]
    simp [RxLog.due, asReceived, entryOf, List.filterMap_cons]
  · obtain ⟨hClosed, hOpened⟩ := h.part hEmpty
    rw [RxLog.blocks, hClosed, hOpened]
    simp [RxLog.due, asReceived, entryOf, List.filterMap_cons]

theorem closed (h : Conveyed rxId o s) :
    ∀ block ∈ (arrive rxId s.channel o.rx).closed, block = [] ∨ ∃ sent ∈ o.tx.blocks, block = asReceived rxId sent := by
  have hAll : ∀ block ∈ ([] :: o.tx.blocks).map (asReceived rxId),
      block = [] ∨ ∃ sent ∈ o.tx.blocks, block = asReceived rxId sent := by
    intro block hBlock
    obtain ⟨sent, hSent, rfl⟩ := List.mem_map.mp hBlock
    rcases List.mem_cons.mp hSent with rfl | hSent
    · exact .inl rfl
    · exact .inr ⟨sent, hSent, rfl⟩
  intro block hBlock
  by_cases hEmpty : o.tx.opened = []
  · apply hAll
    rw [← h.whole hEmpty]
    exact List.mem_append_left _ hBlock
  · apply hAll
    rwa [← (h.part hEmpty).1]

theorem ref {i : TxRefIn} (h : Conveyed rxId o s) :
    Conveyed rxId (Link.see txId rxId o (.ref i) s) (Link.step txId rxId (.ref i) s) := by
  obtain ⟨hBoundary, hWhole, hPart⟩ := h
  exact ⟨hBoundary, hWhole, hPart⟩

theorem master {deliver txDreq : Bool} (h : Conveyed rxId o s) :
    Conveyed rxId (Link.see txId rxId o (.master deliver txDreq) s)
      (Link.step txId rxId (.master deliver txDreq) s) := by
  obtain ⟨hBoundary, hWhole, hPart⟩ := h
  cases hValid : s.node.path.txValid with
  | false =>
    constructor <;> simp_all [Link.see, Link.step, Link.pushed, TxLog.see]
  | true =>
    have hChannel : (Link.step txId rxId (.master deliver txDreq) s).channel =
        s.channel ++ [⟨s.node.path.txData, s.boundary, s.node.path.txLast⟩] := by
      simp [Link.step, Link.pushed, hValid]
    have hBlocks : (arrive rxId (Link.step txId rxId (.master deliver txDreq) s).channel o.rx).closed =
        ([] :: o.tx.blocks).map (asReceived rxId) ∧
        (arrive rxId (Link.step txId rxId (.master deliver txDreq) s).channel o.rx).opened =
          asReceived rxId (o.tx.opened ++ [s.node.path.txData]) := by
      rw [hChannel, arrive_concat, hBoundary]
      by_cases hEmpty : o.tx.opened = []
      · rw [← hWhole hEmpty]
        simp [RxLog.receive, hEmpty, asReceived, RxLog.blocks]
      · obtain ⟨hClosed, hOpened⟩ := hPart hEmpty
        simp [RxLog.receive, hEmpty, asReceived, hClosed, hOpened]
    obtain ⟨hClosed, hOpened⟩ := hBlocks
    cases hLast : s.node.path.txLast with
    | true =>
      refine ⟨by simp [Link.step, Link.see, TxLog.see, TxLog.push, hValid, hLast], fun _ => ?_, ?_⟩
      · rw [RxLog.blocks, Link.see, hClosed, hOpened]
        simp [TxLog.see, TxLog.push, hValid, hLast]
      · simp [Link.see, TxLog.see, TxLog.push, hValid, hLast]
    | false =>
      refine ⟨by simp [Link.step, Link.see, TxLog.see, TxLog.push, hValid, hLast], ?_, fun _ => ?_⟩
      · simp [Link.see, TxLog.see, TxLog.push, hValid, hLast]
      · rw [Link.see, hClosed, hOpened]
        simp [TxLog.see, TxLog.push, hValid, hLast]

theorem slave {take : Bool} {idle : StreamWord} {undriven : BitVec 128} (h : Conveyed rxId o s) :
    Conveyed rxId (Link.see txId rxId o (.slave take idle undriven) s)
      (Link.step txId rxId (.slave take idle undriven) s) := by
  obtain ⟨hBoundary, hWhole, hPart⟩ := h
  have hSame : ∀ channel, channel = (Link.step txId rxId (.slave take idle undriven) s).channel →
      (arrive rxId channel (o.rx.see (s.rxIn rxId take idle, undriven) s.rx)).closed =
        (arrive rxId s.channel o.rx).closed ∧
      (arrive rxId channel (o.rx.see (s.rxIn rxId take idle, undriven) s.rx)).opened =
        (arrive rxId s.channel o.rx).opened := by
    rintro channel rfl
    cases take with
    | false =>
      apply arrive_congr
      · simp [Link.rxIn, RxLog.closed_see]
      · simp [Link.rxIn, RxLog.opened_see]
    | true =>
      cases hChannel : s.channel with
      | nil =>
        simp only [Link.step, hChannel]
        apply arrive_congr
        · simp [Link.rxIn, RxLog.closed_see, hChannel]
        · simp [Link.rxIn, RxLog.opened_see, hChannel]
      | cons word rest =>
        simp only [Link.step, hChannel]
        apply arrive_congr
        · simp [Link.rxIn, RxLog.closed_see, hChannel]
        · simp [Link.rxIn, RxLog.opened_see, hChannel]
  obtain ⟨hClosed, hOpened⟩ := hSame _ rfl
  refine ⟨hBoundary, fun hEmpty => ?_, fun hSome => ?_⟩
  · rw [RxLog.blocks, Link.see, hClosed, hOpened]
    exact hWhole hEmpty
  · rw [Link.see, hClosed, hOpened]
    exact hPart hSome

end Conveyed

/-! ### The whole link -/

structure Link.Drained (s : Link) : Prop where
  newSample : s.node.path.newSample = false
  pulses : s.node.pulses = 0
  state : s.node.path.state = .waitSample
  txValid : s.node.path.txValid = false
  channel : s.channel = []
  newSampleSys : s.rx.newSampleSys = false

structure LinkInv (txId rxId : BitVec 16) (o : LinkLog) (s : Link) : Prop where
  inOrder : TxLog.InOrder txId o.tx s.node
  assembled : o.rx.Assembled s.rx
  counted : o.rx.Counted s.rx
  conveyed : Conveyed rxId o s

namespace LinkInv

variable {txId rxId : BitVec 16} {o : LinkLog} {s : Link}

theorem length_block (h : LinkInv txId rxId o s) : ∀ block ∈ o.tx.blocks, block.length = 4 := by
  obtain ⟨done, hForms, -⟩ := h.inOrder.blocks
  have hAll : ∀ block ∈ o.tx.allBlocks s.node.path, block.length = 4 := by
    generalize o.tx.allBlocks s.node.path = sent at hForms
    induction hForms with
    | nil => simp
    | cons hHead _ ih => exact List.forall_mem_cons.mpr ⟨hHead.1, ih⟩
  exact fun block hBlock => hAll block (List.mem_append_left _ hBlock)

theorem undisturbed (h : LinkInv txId rxId o s) (take : Bool) (idle : StreamWord)
    (undriven : BitVec 128) : RxPath.Undisturbed (s.rxIn rxId take idle, undriven) s.rx := by
  intro _
  have hOn : (s.rxIn rxId take idle).crSlave = true := by
    unfold Link.rxIn
    split <;> rfl
  refine ⟨by simp [hOn], fun _ => ?_⟩
  cases take with
  | false => exact .inr (.inl rfl)
  | true =>
    cases hChannel : s.channel with
    | nil => exact .inr (.inl (by simp [Link.rxIn, hChannel]))
    | cons word rest =>
      cases hFirst : word.first with
      | false => exact .inr (.inr (by simp [Link.rxIn, hChannel, hFirst]))
      | true =>
        have hMem : o.rx.opened ∈ (arrive rxId s.channel o.rx).closed := by
          rw [hChannel]
          refine (arrive_closed_isPrefix rxId rest (o.rx.receive ⟨word.data, rxId⟩ word.first)).subset ?_
          simp [RxLog.receive, hFirst]
        have hLength : o.rx.opened.length = 0 ∨ o.rx.opened.length = 4 := by
          rcases h.conveyed.closed _ hMem with hNone | ⟨sent, hSent, hEq⟩
          · exact .inl (by rw [hNone]; rfl)
          · exact .inr (by rw [hEq, asReceived, List.length_map, h.length_block sent hSent])
        obtain ⟨hAcc, hTune⟩ := h.assembled.length_opened
        cases hState : s.rx.state with
        | waitSample => exact .inl rfl
        | acc =>
          have := (hAcc hState).1
          omega
        | tune =>
          have := (hTune hState).1
          omega

theorem step {event : LinkEvent} (h : LinkInv txId rxId o s) (hSpaced : Link.Spaced event s) :
    LinkInv txId rxId (Link.see txId rxId o event s) (Link.step txId rxId event s) := by
  cases event with
  | ref i => exact ⟨h.inOrder.ref hSpaced, h.assembled, h.counted, h.conveyed.ref⟩
  | master deliver txDreq => exact ⟨h.inOrder.sys, h.assembled, h.counted, h.conveyed.master⟩
  | slave take idle undriven =>
    have hOk := h.undisturbed take idle undriven
    have hServing : RxLog.Serving (s.rxIn rxId take idle) := by
      unfold Link.rxIn
      split <;> exact ⟨rfl, rfl, rfl⟩
    exact ⟨h.inOrder, h.assembled.step hOk, h.counted.step h.assembled hServing hOk, h.conveyed.slave⟩

theorem of_afterReset (txId rxId : BitVec 16) (h : s.AfterReset) : LinkInv txId rxId ⟨TxLog.empty, RxLog.empty⟩ s := by
  obtain ⟨hNode, hChannel, hBoundary, hState, hNone⟩ := h
  refine ⟨TxLog.inOrder_afterReset hNode, ?_, ⟨?_, ?_⟩, ⟨?_, ?_, ?_⟩⟩
  · simp [RxLog.Assembled, hState, hNone, RxLog.entries, RxLog.empty]
  · simp [hNone, RxLog.entries, RxLog.empty, RxLog.due, RxLog.blocks, entryOf, List.filterMap_cons]
  · simp [RxLog.empty]
  · simp [hBoundary, TxLog.empty]
  · simp [hChannel, arrive, RxLog.blocks, RxLog.empty, TxLog.empty, asReceived]
  · simp [TxLog.empty]

end LinkInv

/-- The entries that captured samples should become. -/
def expected (txId rxId : BitVec 16) (samples : List Sample) : List Entry :=
  if txId = rxId then samples.map Sample.entry else []

theorem expected_append (txId rxId : BitVec 16) (before after : List Sample) :
    expected txId rxId (before ++ after) = expected txId rxId before ++ expected txId rxId after := by
  unfold expected
  split_ifs <;> simp

theorem due_of_wrote {txId rxId : BitVec 16} {sample : Sample} {block : List (BitVec 64)}
    (h : Wrote txId sample block) (hLength : 3 ≤ block.length) :
    RxLog.due [asReceived rxId block] = expected txId rxId [sample] := by
  match block with
  | w1 :: w2 :: w3 :: rest =>
    obtain ⟨hTai, hCycles⟩ := h.timestamp w1 rfl
    have hAcc := h.acc w2 rfl
    obtain ⟨hTune, hId⟩ := h.tune w3 rfl
    by_cases hSame : txId = rxId <;>
      simp [RxLog.due, asReceived, entryOf, expected, Sample.entry, hTai, hCycles, hAcc, hTune, hId, hSame]

theorem due_of_short {rxId : BitVec 16} {block : List (BitVec 64)} (hLength : block.length < 3) :
    RxLog.due [asReceived rxId block] = [] := by
  match block with
  | [] | [_] | [_, _] => simp [RxLog.due, asReceived, entryOf, List.filterMap_cons]

theorem due_of_forms (rxId : BitVec 16) {txId : BitVec 16} {done : List Sample} {blocks : List (List (BitVec 64))}
    (h : List.Forall₂ (fun sample block => block.length = 4 ∧ Wrote txId sample block) done blocks) :
    RxLog.due (blocks.map (asReceived rxId)) = expected txId rxId done := by
  induction h with
  | nil => simp [RxLog.due, expected]
  | @cons sample block samples blocks hHead _ ih =>
    rw [List.map_cons, ← List.singleton_append, RxLog.due_append, ih,
      due_of_wrote hHead.2 (by omega), ← expected_append, List.singleton_append]

namespace LinkInv

variable {txId rxId : BitVec 16} {o : LinkLog} {s : Link}

/-- The open block, its word in `tx_data` included, adds no more than the sample under way. -/
theorem due_loaded_isPrefix (h : TxLog.InOrder txId o.tx s.node) :
    RxLog.due ((o.tx.blocks ++ [o.tx.loaded s.node.path]).map (asReceived rxId)) <+:
      expected txId rxId o.tx.captured := by
  obtain ⟨-, ⟨done, hForms, hCaptured⟩, hOpen, hWrote⟩ := h
  have hDone := due_of_forms rxId hForms
  rw [hCaptured, expected_append, ← hDone, List.map_append, RxLog.due_append, List.map_singleton]
  cases hLast : s.node.path.txValid && s.node.path.txLast with
  | true =>
    rw [TxLog.allBlocks, hLast, if_pos rfl, List.map_append, RxLog.due_append, List.map_singleton]
    exact List.prefix_append _ _
  | false =>
    rw [TxLog.allBlocks, hLast, if_neg (by decide), List.append_nil]
    apply (List.prefix_append_right_inj _).mpr
    by_cases hState : s.node.path.state = .waitSample
    · have hNone : o.tx.loaded s.node.path = [] := by
        simp only [TxLog.OpenWords, hState] at hOpen
        cases hValid : s.node.path.txValid <;> simp_all [TxLog.loaded]
      rw [hNone, due_of_short (by decide)]
      exact List.nil_prefix
    · rw [TxLog.underWay_eq_of_busy hState]
      by_cases hLength : 3 ≤ (o.tx.loaded s.node.path).length
      · rw [due_of_wrote (hWrote hState) hLength]
      · rw [due_of_short (by omega)]
        exact List.nil_prefix

theorem due_isPrefix (h : LinkInv txId rxId o s) :
    RxLog.due o.rx.blocks <+: expected txId rxId o.tx.captured := by
  apply (arrive_isPrefix rxId s.channel o.rx).trans
  rw [h.conveyed.blocks]
  refine List.IsPrefix.trans ?_ (due_loaded_isPrefix h.inOrder)
  rw [List.map_append, RxLog.due_append, List.map_append, RxLog.due_append]
  apply (List.prefix_append_right_inj _).mpr
  simp only [List.map_singleton, TxLog.loaded, asReceived, List.map_append]
  exact RxLog.due_extend_isPrefix _ _

theorem entries_isPrefix (h : LinkInv txId rxId o s) :
    o.rx.entries <+: expected txId rxId o.tx.captured := by
  refine List.IsPrefix.trans ?_ h.due_isPrefix
  rw [← h.counted.entries h.assembled]
  exact List.prefix_append _ _

theorem entries_of_drained (h : LinkInv txId rxId o s) (hDrained : s.Drained) :
    o.rx.entries = expected txId rxId o.tx.captured := by
  obtain ⟨hNew, hPulses, hState, hValid, hChannel, hStrobe⟩ := hDrained
  have hWritten := h.counted.entries h.assembled
  have hArrived := h.conveyed.blocks
  have hEmpty : o.tx.opened = [] := by
    simpa only [TxLog.OpenWords, hState, hValid, Bool.false_eq_true, if_false] using h.inOrder.openWords
  obtain ⟨done, hForms, hCaptured⟩ := h.inOrder.blocks
  have hDone := due_of_forms rxId hForms
  simp only [hStrobe, Bool.false_eq_true, if_false, List.append_nil] at hWritten
  simp only [TxLog.allBlocks, hValid, Bool.false_and, Bool.false_eq_true, if_false, List.append_nil] at hDone
  simp only [TxLog.underWay, hNew, hPulses, hState, Bool.false_eq_true, ne_eq, not_true_eq_false, or_self,
    if_false, List.append_nil] at hCaptured
  rw [hWritten, hCaptured, ← hDone]
  rw [hChannel, hEmpty, List.map_append, RxLog.due_append, List.map_singleton,
    due_of_short (by decide), List.append_nil] at hArrived
  exact hArrived

end LinkInv

end WrRfDemo.Dds

import Mathlib.Algebra.Group.Nat.Defs
import WrRfDemo.Dds.TxPath

/-! # What the transmit counter counts

`tx_cnt` goes on in every cycle that the state machine spends in `TX_TIMESTAMP`. It counts the blocks and, with them,
the cycles in which the streamer does not ask for the first word of a block.
-/

namespace WrRfDemo.Dds

open Clocked

/-- Since master mode was enabled: the words of the block that is being pushed, the blocks of four words that have been,
and the cycles that their timestamps have waited. -/
structure PushLog where
  words : Nat
  blocks : Nat
  waits : Nat
deriving DecidableEq

namespace PushLog

def empty : PushLog := ⟨0, 0, 0⟩

def push (last : Bool) (o : PushLog) : PushLog :=
  if last then { o with words := 0, blocks := if o.words = 3 then o.blocks + 1 else o.blocks }
  else { o with words := o.words + 1 }

def wait (i : TxSysIn) (s : TxPath) (o : PushLog) : PushLog :=
  if s.state = .txTimestamp ∧ i.txDreq = false then { o with waits := o.waits + 1 } else o

def seeSys (o : PushLog) (i : TxSysIn) (s : TxPath) : PushLog :=
  if !i.rstN || !i.crMaster then empty
  else if (s.pTxFsm i).txValid then (o.wait i s).push (s.pTxFsm i).txLast
  else o.wait i s

def see (o : PushLog) : TxEvent → TxNode → PushLog
  | .ref _, _ => o
  | .sys rstN crMaster crClkId deliver txDreq, s =>
    o.seeSys ⟨rstN, crMaster, crClkId, s.newSampleSys deliver, txDreq⟩ s.path

end PushLog

def TxEvent.MasterOn : TxEvent → Prop
  | .ref _ => True
  | .sys rstN crMaster .. => rstN = true ∧ crMaster = true

instance : DecidablePred TxEvent.MasterOn
  | .ref _ => isTrue trivial
  | .sys rstN crMaster .. => inferInstanceAs (Decidable (rstN = true ∧ crMaster = true))

/-- The words of a block that have been pushed when a state is reached. -/
def TxState.pushed : TxState → Nat
  | .waitSample | .txTimestamp => 0
  | .txAcc => 1
  | .txTune => 2
  | .txPad => 3

namespace PushLog

variable {o : PushLog} {s : TxPath} {i : TxSysIn}

/-- A block is counted when its first word is pushed. -/
structure Counts (o : PushLog) (s : TxPath) : Prop where
  words : o.words = s.state.pushed
  txCnt : s.txCnt = BitVec.ofNat 24 (o.blocks + o.waits + if s.state.pushed = 0 then 0 else 1)

theorem ofNat_succ (n : Nat) : BitVec.ofNat 24 n + 1 = BitVec.ofNat 24 (n + 1) := (BitVec.ofNat_add n 1).symm

theorem Counts.off (hOff : (!i.rstN || !i.crMaster) = true) (s : TxPath) : Counts empty (s.pTxFsm i) := by
  constructor <;> simp [TxPath.pTxFsm, hOff, empty, TxState.pushed]

theorem Counts.sys (h : Counts o s) : Counts (o.seeSys i s) (s.pTxFsm i) := by
  obtain ⟨hWords, hCnt⟩ := h
  cases hOff : !i.rstN || !i.crMaster with
  | true =>
    rw [seeSys, hOff, if_pos rfl]
    exact Counts.off hOff s
  | false =>
    cases hState : s.state with
    | waitSample =>
      rw [hState] at hWords hCnt
      cases hNew : i.newSampleSys <;>
        exact ⟨by simp [seeSys, wait, TxPath.pTxFsm, hOff, hState, hNew, hWords, TxState.pushed],
          by simpa [seeSys, wait, TxPath.pTxFsm, hOff, hState, hNew, TxState.pushed] using hCnt⟩
    | txTimestamp =>
      rw [hState] at hWords hCnt
      cases hDreq : i.txDreq with
      | false =>
        refine ⟨by simp [seeSys, wait, TxPath.pTxFsm, hOff, hState, hDreq, hWords, TxState.pushed], ?_⟩
        simp only [seeSys, wait, TxPath.pTxFsm, hOff, hState, hDreq, hCnt, TxState.pushed]
        exact ofNat_succ _
      | true =>
        refine ⟨by simp [seeSys, push, wait, TxPath.pTxFsm, hOff, hState, hDreq, hWords, TxState.pushed], ?_⟩
        simp only [seeSys, push, wait, TxPath.pTxFsm, hOff, hState, hDreq, hCnt, TxState.pushed]
        exact ofNat_succ _
    | txAcc | txTune =>
      rw [hState] at hWords hCnt
      cases hDreq : i.txDreq <;>
        exact ⟨by simp [seeSys, push, wait, TxPath.pTxFsm, hOff, hState, hDreq, hWords, TxState.pushed],
          by simpa [seeSys, push, wait, TxPath.pTxFsm, hOff, hState, hDreq, TxState.pushed] using hCnt⟩
    | txPad =>
      rw [hState] at hWords hCnt
      cases hDreq : i.txDreq with
      | false =>
        exact ⟨by simp [seeSys, wait, TxPath.pTxFsm, hOff, hState, hDreq, hWords, TxState.pushed],
          by simpa [seeSys, wait, TxPath.pTxFsm, hOff, hState, hDreq, TxState.pushed] using hCnt⟩
      | true =>
        refine ⟨by simp [seeSys, push, wait, TxPath.pTxFsm, hOff, hState, hDreq, TxState.pushed], ?_⟩
        simpa [seeSys, push, wait, TxPath.pTxFsm, hOff, hState, hDreq, hWords, TxState.pushed, Nat.add_right_comm] using hCnt

theorem pTakeTags_counter (i : TxRefIn) (s : TxPath) : (s.pTakeTags i).state = s.state ∧ (s.pTakeTags i).txCnt = s.txCnt := by
  rw [TxPath.pTakeTags]
  split_ifs <;> exact ⟨rfl, rfl⟩

theorem Counts.step {n : TxNode} (h : Counts o n.path) (e : TxEvent) : Counts (o.see e n) (n.step e).path := by
  cases e with
  | ref i =>
    obtain ⟨hState, hCnt⟩ := pTakeTags_counter i n.path
    refine ⟨?_, ?_⟩
    · rw [see, TxNode.step, hState]
      exact h.words
    · rw [see, TxNode.step, hState, hCnt]
      exact h.txCnt
  | sys rstN crMaster crClkId deliver txDreq => exact h.sys

theorem ofNat_add_eq_iff (blocks waits : Nat) :
    BitVec.ofNat 24 (blocks + waits) = BitVec.ofNat 24 blocks ↔ 2 ^ 24 ∣ waits := by
  rw [← BitVec.toNat_inj, BitVec.toNat_ofNat, BitVec.toNat_ofNat]
  omega

end PushLog

namespace TxNode

open PushLog

/-- The counter shows the number of blocks since master mode was enabled, whenever the state machine waits for a sample,
if and only if the cycles that the timestamps have waited are then a multiple of its range. -/
theorem txCnt_blocks_iff {off : TxEvent} (hOff : ¬off.MasterOn) (s : TxNode) (events : List TxEvent) :
    let watched (before : List TxEvent) := run (watch step PushLog.see) before (PushLog.empty, s.step off)
    (∀ before after, events = before ++ after → (watched before).2.path.state = .waitSample →
      (watched before).2.path.txCnt = BitVec.ofNat 24 (watched before).1.blocks) ↔
    ∀ before after, events = before ++ after → (watched before).2.path.state = .waitSample →
      2 ^ 24 ∣ (watched before).1.waits := by
  intro watched
  have hFirst : Counts PushLog.empty (s.step off).path := by
    cases off with
    | ref i => exact absurd trivial hOff
    | sys rstN crMaster crClkId deliver txDreq =>
      refine Counts.off ?_ s.path
      simp only [TxEvent.MasterOn] at hOff
      revert hOff
      cases rstN <;> cases crMaster <;> simp
  have hCounts : ∀ before, Counts (watched before).1 (watched before).2.path := fun before =>
    run_keeps (fun p : PushLog × TxNode => Counts p.1 p.2.path) (fun e p h => h.step e) before hFirst
  refine forall_congr' fun before => forall_congr' fun after => forall_congr' fun _ => forall_congr' fun hWaits => ?_
  rw [(hCounts before).txCnt, hWaits, TxState.pushed, if_pos rfl, Nat.add_zero]
  exact ofNat_add_eq_iff _ _

def sysEdge (deliver txDreq : Bool) : TxEvent := .sys true true 0 deliver txDreq

def blankNode : TxNode :=
  ⟨⟨false, false, 0, 0, 0, 0, .waitSample, 0, false, false, 0⟩, 1⟩

theorem txCnt_blocks_iff_noWait :
    let watched := run (watch step PushLog.see) (sysEdge true true :: List.replicate 4 (sysEdge false true))
      (PushLog.empty, blankNode.step (.sys true false 0 false false))
    watched.2.path.txCnt = BitVec.ofNat 24 watched.1.blocks := by
  intro watched
  have hNone : ∀ before ∈ (sysEdge true true :: List.replicate 4 (sysEdge false true)).inits,
      2 ^ 24 ∣ (run (watch step PushLog.see) before (PushLog.empty, blankNode.step (.sys true false 0 false false))).1.waits := by
    decide +kernel
  refine (txCnt_blocks_iff (by decide) blankNode _).mpr (fun before after hSplit _ => ?_) _ [] (List.append_nil _).symm
    (by decide)
  exact hNone before ((List.mem_inits _ _).mpr ⟨after, hSplit.symm⟩)

/-- The streamer does not ask in the first cycle of a block, and the block is counted twice. -/
theorem txCnt_ahead :
    let start := blankNode.step (.sys true false 0 false false)
    let events := [sysEdge true false, sysEdge false false, sysEdge false true, sysEdge false true, sysEdge false true,
      sysEdge false true]
    let watched := run (watch step PushLog.see) events (PushLog.empty, start)
    watched.2.path.state = .waitSample ∧ watched.1.blocks = 1 ∧ watched.2.path.txCnt = 2 ∧
      ¬ ∀ (s : TxNode) (off : TxEvent) (events : List TxEvent), ¬off.MasterOn → (∀ e ∈ events, e.MasterOn) →
        let watched := run (watch step PushLog.see) events (PushLog.empty, s.step off)
        watched.2.path.state = .waitSample → watched.2.path.txCnt = BitVec.ofNat 24 watched.1.blocks := by
  intro start events watched
  have hState : watched.2.path.state = .waitSample := by decide
  have hBlocks : watched.1.blocks = 1 := by decide
  have hCnt : watched.2.path.txCnt = 2 := by decide
  refine ⟨hState, hBlocks, hCnt, ?_⟩
  intro hAlways
  have hEqual := hAlways blankNode (.sys true false 0 false false) events (by decide) (by decide) hState
  rw [show run (watch step PushLog.see) events (PushLog.empty, start) = watched from rfl, hBlocks, hCnt] at hEqual
  exact absurd hEqual (by decide)

end TxNode

end WrRfDemo.Dds

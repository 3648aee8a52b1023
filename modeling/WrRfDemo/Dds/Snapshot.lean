import WrRfDemo.Dds.TxPath

/-! # One block, one sample

The four words of a block are read out of the snapshot registers in three different cycles.
Nothing holds a new capture off meanwhile, so a block is torn exactly when a capture falls
between the reading of its timestamp and the reading of its tuning word.
-/

namespace WrRfDemo.Dds

open Clocked

/-- What the reference clock captured, and the blocks that the streamer was handed. -/
structure TxLog where
  captured : List Sample
  blocks : List (List (BitVec 64))
  opened : List (BitVec 64)
deriving DecidableEq

namespace TxLog

def empty : TxLog := ⟨[], [], []⟩

def push (data : BitVec 64) (last : Bool) (o : TxLog) : TxLog :=
  if last then { o with blocks := o.blocks ++ [o.opened ++ [data]], opened := [] }
  else { o with opened := o.opened ++ [data] }

def see (o : TxLog) : TxEvent → TxNode → TxLog
  | .ref i, s =>
    { o with captured := o.captured ++ if s.path.captures i then [TxPath.sampleIn i] else [] }
  | .sys .., s => if s.path.txValid then o.push s.path.txData s.path.txLast else o

end TxLog

/-- The timestamp, accumulator and tuning fields of the three data words of a block. -/
structure Carries (sample : Sample) (w1 w2 w3 : BitVec 64) : Prop where
  tai : field 32 32 w1 = field 0 32 sample.tai
  cycles : field 0 28 w1 = sample.cycles
  acc : field 0 43 w2 = sample.acc
  tune : field 0 18 w3 = sample.tune

/-- The block closes with four words that carry one captured sample. What stands before them
was left behind when master mode was switched off inside an earlier block. -/
def OneSample (captured : List Sample) (block : List (BitVec 64)) : Prop :=
  ∃ abandoned w1 w2 w3 w4, block = abandoned ++ [w1, w2, w3, w4] ∧
    ∃ sample ∈ captured, Carries sample w1 w2 w3

/-- No capture between the reading of the timestamp and the reading of the tuning word. -/
def HeldOff : TxEvent → TxNode → Prop
  | .ref i, s => s.path.captures i = true → s.path.state ≠ .txAcc ∧ s.path.state ≠ .txTune
  | .sys .., _ => True

structure TxNode.AfterReset (s : TxNode) : Prop where
  state : s.path.state = .waitSample
  txValid : s.path.txValid = false
  txLast : s.path.txLast = false
  newSample : s.path.newSample = false
  pulses : s.pulses = 0

/-! ### The words of a block -/

namespace TxPath

variable (s : TxPath)

theorem tai_timestampWord : field 32 32 s.timestampWord = field 0 32 s.taiSnap :=
  field_setField_same _ _ (by decide)

theorem cycles_timestampWord : field 0 28 s.timestampWord = s.cyclesSnap := by
  rw [timestampWord, field_setField_of_disjoint _ _ (by decide), field_setField_same _ _ (by decide)]

theorem acc_accWord : field 0 43 s.accWord = s.accSnap := field_setField_same _ _ (by decide)

theorem tune_tuneWord (crClkId : BitVec 16) : field 0 18 (s.tuneWord crClkId) = s.tuneSnap := by
  rw [tuneWord, field_setField_of_disjoint _ _ (by decide), field_setField_same _ _ (by decide)]

theorem clkId_tuneWord (crClkId : BitVec 16) : field 32 16 (s.tuneWord crClkId) = crClkId :=
  field_setField_same _ _ (by decide)

end TxPath

namespace TxLog

def loaded (o : TxLog) (s : TxPath) : List (BitVec 64) :=
  o.opened ++ if s.txValid then [s.txData] else []

/-- How much of the snapshot the open block already carries in each state. -/
def Phase (o : TxLog) (s : TxPath) : Prop :=
  match s.state with
  | .waitSample => s.txValid = true → s.txLast = true ∧ OneSample o.captured (o.opened ++ [s.txData])
  | .txTimestamp => s.txValid = false
  | .txAcc => s.txLast = false ∧ ∃ abandoned w1, o.loaded s = abandoned ++ [w1] ∧
    field 32 32 w1 = field 0 32 s.taiSnap ∧ field 0 28 w1 = s.cyclesSnap
  | .txTune => s.txLast = false ∧ ∃ abandoned w1 w2, o.loaded s = abandoned ++ [w1, w2] ∧
    field 32 32 w1 = field 0 32 s.taiSnap ∧ field 0 28 w1 = s.cyclesSnap ∧ field 0 43 w2 = s.accSnap
  | .txPad => s.txLast = false ∧ ∃ abandoned w1 w2 w3, o.loaded s = abandoned ++ [w1, w2, w3] ∧
    ∃ sample ∈ o.captured, Carries sample w1 w2 w3

structure Untorn (o : TxLog) (s : TxNode) : Prop where
  blocks : ∀ block ∈ o.blocks, OneSample o.captured block
  snapshot : s.path.newSample = true ∨ s.pulses ≠ 0 ∨ s.path.state ≠ .waitSample →
    s.path.snapshot ∈ o.captured
  phase : o.Phase s.path

end TxLog

theorem OneSample.mono {captured more : List Sample} {block : List (BitVec 64)}
    (h : OneSample captured block) : OneSample (captured ++ more) block := by
  obtain ⟨abandoned, w1, w2, w3, w4, hBlock, sample, hMem, hCarries⟩ := h
  exact ⟨abandoned, w1, w2, w3, w4, hBlock, sample, List.mem_append_left _ hMem, hCarries⟩

/-! ### A step of the reference clock -/

namespace TxPath

variable (i : TxRefIn) (s : TxPath)

@[simp] theorem pTakeTags_state : (s.pTakeTags i).state = s.state := by
  unfold pTakeTags
  split_ifs <;> rfl

@[simp] theorem pTakeTags_txData : (s.pTakeTags i).txData = s.txData := by
  unfold pTakeTags
  split_ifs <;> rfl

@[simp] theorem pTakeTags_txValid : (s.pTakeTags i).txValid = s.txValid := by
  unfold pTakeTags
  split_ifs <;> rfl

@[simp] theorem pTakeTags_txLast : (s.pTakeTags i).txLast = s.txLast := by
  unfold pTakeTags
  split_ifs <;> rfl

theorem newSample_pTakeTags : (s.pTakeTags i).newSample = s.captures i := by
  unfold pTakeTags captures
  cases i.rstN <;> cases s.tuneValid <;> cases i.tmTimeValid <;> rfl

theorem snapshot_pTakeTags :
    (s.pTakeTags i).snapshot = if s.captures i then sampleIn i else s.snapshot := by
  unfold pTakeTags captures
  cases i.rstN <;> cases s.tuneValid <;> cases i.tmTimeValid <;> rfl

end TxPath

namespace TxLog

variable {o : TxLog} {s : TxNode}

theorem loaded_ref (i : TxRefIn) : (o.see (.ref i) s).loaded (s.path.pTakeTags i) = o.loaded s.path := by
  simp [loaded, see]

theorem Phase.of_unchanged {i : TxRefIn} (h : o.Phase s.path)
    (hSnap : s.path.state = .txAcc ∨ s.path.state = .txTune →
      (s.path.pTakeTags i).snapshot = s.path.snapshot) :
    (o.see (.ref i) s).Phase (s.path.pTakeTags i) := by
  unfold Phase at h ⊢
  rw [TxPath.pTakeTags_state]
  cases hState : s.path.state with
  | waitSample =>
    simp only [hState, TxPath.pTakeTags_txValid, TxPath.pTakeTags_txLast, TxPath.pTakeTags_txData] at h ⊢
    exact fun hValid => ⟨(h hValid).1, (h hValid).2.mono⟩
  | txTimestamp => simpa [hState] using h
  | txAcc =>
    have hSame := hSnap (.inl hState)
    simp only [TxPath.snapshot, Sample.mk.injEq] at hSame
    obtain ⟨hTai, hCycles, -, -⟩ := hSame
    simpa only [hState, loaded_ref, TxPath.pTakeTags_txLast, hTai, hCycles] using h
  | txTune =>
    have hSame := hSnap (.inr hState)
    simp only [TxPath.snapshot, Sample.mk.injEq] at hSame
    obtain ⟨hTai, hCycles, hAcc, -⟩ := hSame
    simpa only [hState, loaded_ref, TxPath.pTakeTags_txLast, hTai, hCycles, hAcc] using h
  | txPad =>
    simp only [hState, loaded_ref, TxPath.pTakeTags_txLast] at h ⊢
    obtain ⟨hLast, abandoned, w1, w2, w3, hLoaded, sample, hMem, hCarries⟩ := h
    exact ⟨hLast, abandoned, w1, w2, w3, hLoaded, sample, List.mem_append_left _ hMem, hCarries⟩

theorem Untorn.ref {i : TxRefIn} (h : Untorn o s) (hHeld : HeldOff (.ref i) s) :
    Untorn (o.see (.ref i) s) (TxNode.step (.ref i) s) := by
  obtain ⟨hBlocks, hSnapshot, hPhase⟩ := h
  cases hCaptures : s.path.captures i with
  | false =>
    have hSame : (s.path.pTakeTags i).snapshot = s.path.snapshot := by
      simp [TxPath.snapshot_pTakeTags, hCaptures]
    refine ⟨fun block hBlock => (hBlocks block hBlock).mono, ?_, hPhase.of_unchanged fun _ => hSame⟩
    intro hUsed
    simp only [TxNode.step, TxPath.pTakeTags_state, TxPath.newSample_pTakeTags, hCaptures] at hUsed
    rw [TxNode.step, hSame]
    refine List.mem_append_left _ (hSnapshot ?_)
    cases hNew : s.path.newSample with
    | true => exact .inl rfl
    | false => simpa [hNew] using hUsed
  | true =>
    have hTaken : (s.path.pTakeTags i).snapshot = TxPath.sampleIn i := by
      simp [TxPath.snapshot_pTakeTags, hCaptures]
    obtain ⟨hNotAcc, hNotTune⟩ := hHeld hCaptures
    refine ⟨fun block hBlock => (hBlocks block hBlock).mono, ?_, hPhase.of_unchanged ?_⟩
    · intro _
      simp [TxNode.step, hTaken, see, hCaptures]
    · rintro (hState | hState)
      · exact absurd hState hNotAcc
      · exact absurd hState hNotTune

/-! ### A step of the system clock -/

variable {rstN crMaster deliver txDreq : Bool} {crClkId : BitVec 16}

theorem blocks_sys : (o.see (.sys rstN crMaster crClkId deliver txDreq) s).blocks =
    o.blocks ++ if s.path.txValid && s.path.txLast then [o.loaded s.path] else [] := by
  cases hValid : s.path.txValid <;> cases hLast : s.path.txLast <;>
    simp [see, push, loaded, hValid, hLast]

theorem opened_sys : (o.see (.sys rstN crMaster crClkId deliver txDreq) s).opened =
    if s.path.txValid && s.path.txLast then [] else o.loaded s.path := by
  cases hValid : s.path.txValid <;> cases hLast : s.path.txLast <;>
    simp [see, push, loaded, hValid, hLast]

theorem captured_sys : (o.see (.sys rstN crMaster crClkId deliver txDreq) s).captured = o.captured := by
  cases hValid : s.path.txValid <;> cases hLast : s.path.txLast <;> simp [see, push, hValid, hLast]

theorem Phase.lasting (h : o.Phase s.path) (hValid : s.path.txValid = true)
    (hLast : s.path.txLast = true) : OneSample o.captured (o.loaded s.path) := by
  unfold Phase at h
  cases hState : s.path.state with
  | waitSample =>
    simp only [hState] at h
    simpa [loaded, hValid] using (h hValid).2
  | txTimestamp => simp [hState, hValid] at h
  | txAcc | txTune | txPad => simp [hState, hLast] at h

theorem Untorn.blocks_sys (h : Untorn o s) :
    ∀ block ∈ (o.see (.sys rstN crMaster crClkId deliver txDreq) s).blocks, OneSample o.captured block := by
  intro block hBlock
  rw [TxLog.blocks_sys, List.mem_append] at hBlock
  rcases hBlock with hOld | hNew
  · exact h.blocks block hOld
  · split_ifs at hNew with hDone
    · obtain ⟨hValid, hLast⟩ := Bool.and_eq_true_iff.mp hDone
      rw [List.mem_singleton] at hNew
      exact hNew ▸ h.phase.lasting hValid hLast
    · cases hNew

theorem loaded_sys (hOpen : s.path.txLast = false ∨ s.path.txValid = false) (path : TxPath) :
    (o.see (.sys rstN crMaster crClkId deliver txDreq) s).loaded path =
      o.loaded s.path ++ if path.txValid then [path.txData] else [] := by
  rw [loaded, opened_sys, if_neg]
  rcases hOpen with h | h <;> simp [h]

variable {path : TxPath} {words : List (BitVec 64)}

theorem loaded_waits (hLast : s.path.txLast = false) (hLoaded : o.loaded s.path = words) (hValid : path.txValid = false) :
    (o.see (.sys rstN crMaster crClkId deliver txDreq) s).loaded path = words := by
  rw [loaded_sys (.inl hLast), hLoaded, hValid]
  exact List.append_nil words

theorem loaded_pushes (hLast : s.path.txLast = false) (hLoaded : o.loaded s.path = words) (hValid : path.txValid = true) :
    (o.see (.sys rstN crMaster crClkId deliver txDreq) s).loaded path = words ++ [path.txData] := by
  rw [loaded_sys (.inl hLast), hLoaded, hValid]
  rfl

theorem snapshot_pTxFsm (i : TxSysIn) (s : TxPath) :
    (s.pTxFsm i).snapshot = s.snapshot ∧ (s.pTxFsm i).newSample = s.newSample := by
  unfold TxPath.pTxFsm
  split
  · exact ⟨rfl, rfl⟩
  · split <;> (try split) <;> exact ⟨rfl, rfl⟩

theorem state_pTxFsm {i : TxSysIn} {s : TxPath} (h : (s.pTxFsm i).state ≠ .waitSample) :
    s.state ≠ .waitSample ∨ i.newSampleSys = true := by
  by_contra hNone
  obtain ⟨hState, hNew⟩ := not_or.mp hNone
  rw [not_not] at hState
  rw [Bool.not_eq_true] at hNew
  apply h
  unfold TxPath.pTxFsm
  rw [hState, hNew]
  split <;> rfl

theorem Untorn.snapshot_sys (h : Untorn o s) :
    let next := TxNode.step (.sys rstN crMaster crClkId deliver txDreq) s
    next.path.newSample = true ∨ next.pulses ≠ 0 ∨ next.path.state ≠ .waitSample →
      next.path.snapshot ∈ o.captured := by
  intro next hUsed
  obtain ⟨hSnap, hNewSample⟩ :=
    snapshot_pTxFsm ⟨rstN, crMaster, crClkId, s.newSampleSys deliver, txDreq⟩ s.path
  have hArrived : s.newSampleSys deliver = true → s.pulses ≠ 0 := by
    simp [TxNode.newSampleSys]
  change (s.path.pTxFsm _).snapshot ∈ _
  rw [hSnap]
  apply h.snapshot
  rcases hUsed with hNew | hPulses | hState
  · exact .inl (hNewSample ▸ hNew)
  · refine .inr (.inl fun hNone => hPulses ?_)
    simp [next, TxNode.step, hNone]
  · rcases state_pTxFsm hState with hBusy | hSync
    · exact .inr (.inr hBusy)
    · exact .inr (.inl (hArrived hSync))

theorem Phase.sys (hUntorn : Untorn o s) :
    (o.see (.sys rstN crMaster crClkId deliver txDreq) s).Phase
      (s.path.pTxFsm ⟨rstN, crMaster, crClkId, s.newSampleSys deliver, txDreq⟩) := by
  have h := hUntorn.phase
  have hMem := hUntorn.snapshot
  unfold Phase at h
  cases hOff : !rstN || !crMaster with
  | true => simp [Phase, TxPath.pTxFsm, hOff]
  | false =>
    cases hState : s.path.state with
    | waitSample =>
      simp only [TxPath.pTxFsm, hOff, hState]
      cases s.newSampleSys deliver <;> simp [Phase]
    | txTimestamp =>
      simp only [hState] at h
      cases txDreq with
      | false => simp [Phase, TxPath.pTxFsm, hOff, hState]
      | true =>
        simp only [TxPath.pTxFsm, hOff, hState]
        refine ⟨rfl, o.loaded s.path, s.path.timestampWord, ?_, ?_, ?_⟩
        · rw [loaded_sys (.inr h)]
          rfl
        · exact s.path.tai_timestampWord
        · exact s.path.cycles_timestampWord
    | txAcc =>
      simp only [hState] at h
      obtain ⟨hLast, abandoned, w1, hLoaded, hTai, hCycles⟩ := h
      cases txDreq with
      | false =>
        simp only [TxPath.pTxFsm, hOff, hState]
        exact ⟨hLast, abandoned, w1, loaded_waits hLast hLoaded rfl, hTai, hCycles⟩
      | true =>
        simp only [TxPath.pTxFsm, hOff, hState]
        refine ⟨rfl, abandoned, w1, s.path.accWord, ?_, hTai, hCycles, s.path.acc_accWord⟩
        exact (loaded_pushes hLast hLoaded rfl).trans (List.append_assoc _ _ _)
    | txTune =>
      simp only [hState] at h
      obtain ⟨hLast, abandoned, w1, w2, hLoaded, hTai, hCycles, hAcc⟩ := h
      cases txDreq with
      | false =>
        simp only [TxPath.pTxFsm, hOff, hState]
        exact ⟨hLast, abandoned, w1, w2, loaded_waits hLast hLoaded rfl, hTai, hCycles, hAcc⟩
      | true =>
        simp only [TxPath.pTxFsm, hOff, hState]
        refine ⟨rfl, abandoned, w1, w2, s.path.tuneWord crClkId, ?_, s.path.snapshot, ?_, ?_⟩
        · exact (loaded_pushes hLast hLoaded rfl).trans (List.append_assoc _ _ _)
        · rw [captured_sys]
          exact hMem (.inr (.inr (by simp [hState])))
        · exact ⟨hTai, hCycles, hAcc, s.path.tune_tuneWord crClkId⟩
    | txPad =>
      simp only [hState] at h
      obtain ⟨hLast, abandoned, w1, w2, w3, hLoaded, sample, hSample, hCarries⟩ := h
      cases txDreq with
      | false =>
        simp only [TxPath.pTxFsm, hOff, hState]
        exact ⟨hLast, abandoned, w1, w2, w3, loaded_waits hLast hLoaded rfl, sample, by rwa [captured_sys], hCarries⟩
      | true =>
        simp only [TxPath.pTxFsm, hOff, hState]
        refine fun _ => ⟨rfl, abandoned, w1, w2, w3, s.path.txData, ?_, sample, ?_, hCarries⟩
        · rw [opened_sys, hLast, Bool.and_false, if_neg (by decide), hLoaded]
          simp
        · rwa [captured_sys]

theorem Untorn.step {event : TxEvent} (h : Untorn o s) (hHeld : HeldOff event s) :
    Untorn (o.see event s) (TxNode.step event s) := by
  cases event with
  | ref i => exact h.ref hHeld
  | sys rstN crMaster crClkId deliver txDreq =>
    refine ⟨?_, ?_, Phase.sys h⟩
    · rw [captured_sys]
      exact h.blocks_sys
    · rw [captured_sys]
      exact h.snapshot_sys

theorem untorn_afterReset (h : s.AfterReset) : Untorn TxLog.empty s := by
  obtain ⟨hState, hValid, hLast, hNew, hPulses⟩ := h
  refine ⟨by simp [empty], ?_, ?_⟩
  · simp [hState, hNew, hPulses]
  · simp [Phase, hState, hValid]

end TxLog

/-- While no capture falls between the reading of a block's timestamp and that of its tuning
word, every block is made of one captured sample. -/
theorem blocks_untorn (s : TxNode) (hReset : s.AfterReset) (events : List TxEvent)
    (hAlong : Along TxNode.step HeldOff events s) :
    let log := (run (watch TxNode.step TxLog.see) events (TxLog.empty, s)).1
    ∀ block ∈ log.blocks, OneSample log.captured block := by
  have hStep : ∀ o event s, TxLog.Untorn o s → HeldOff event s →
      TxLog.Untorn (o.see event s) (TxNode.step event s) := fun _ _ _ h hHeld => h.step hHeld
  exact (watch_invariant hStep events (TxLog.untorn_afterReset hReset) hAlong).blocks

/-! ### A capture under back-pressure -/

def idleNode : TxNode := ⟨⟨false, false, 0, 0, 0, 0, .waitSample, 0, false, false, 0⟩, 0⟩

def refQuiet (cicCe : Bool) : TxEvent := .ref ⟨true, cicCe, true, 0, 0, 0, 0⟩

def refSample (value : Nat) : TxEvent :=
  .ref ⟨true, false, true, BitVec.ofNat 43 value, BitVec.ofNat 18 value, BitVec.ofNat 40 value,
    BitVec.ofNat 28 value⟩

def sysStep (deliver txDreq : Bool) : TxEvent := .sys true true 7 deliver txDreq

/-- A sample is captured and its pulse crosses to the system clock domain. -/
def firstSample : List TxEvent := [refQuiet true, refSample 1, refQuiet true, sysStep true true]

def secondSample : List TxEvent := [refSample 2, refQuiet false]

def blockEvents (stalled : List TxEvent) : List TxEvent :=
  firstSample ++ sysStep false true :: stalled ++ List.replicate 4 (sysStep false true)

instance (event : TxEvent) (s : TxNode) : Decidable (HeldOff event s) :=
  match event with
  | .ref _ => inferInstanceAs (Decidable (_ → _))
  | .sys .. => isTrue trivial

def blocksOf (events : List TxEvent) : List (List (BitVec 64)) :=
  (run (watch TxNode.step TxLog.see) events (TxLog.empty, idleNode)).1.blocks

theorem blocks_untorn_oneBlock :
    (∀ block ∈ blocksOf (blockEvents []), OneSample
      (run (watch TxNode.step TxLog.see) (blockEvents []) (TxLog.empty, idleNode)).1.captured block) ∧
    blocksOf (blockEvents []) = [[0x100000001, 1, 0x700000001, 0x700000001]] :=
  ⟨blocks_untorn idleNode ⟨rfl, rfl, rfl, rfl, rfl⟩ (blockEvents []) (by decide +kernel),
    by decide +kernel⟩

/-- A second sample captured while the streamer holds the block after its timestamp: the block
carries the first sample's time and the second sample's phase. -/
theorem block_torn : blocksOf (blockEvents secondSample) = [[0x100000001, 2, 0x700000002, 0x700000002]] ∧
    ¬ ∀ events : List TxEvent,
      let log := (run (watch TxNode.step TxLog.see) events (TxLog.empty, idleNode)).1
      ∀ block ∈ log.blocks, OneSample log.captured block := by
  have hBlocks : blocksOf (blockEvents secondSample) =
    [[0x100000001, 2, 0x700000002, 0x700000002]] := by decide +kernel
  refine ⟨hBlocks, fun h => ?_⟩
  have hCaptured : (run (watch TxNode.step TxLog.see) (blockEvents secondSample)
    (TxLog.empty, idleNode)).1.captured = [⟨1, 1, 1, 1⟩, ⟨2, 2, 2, 2⟩] := by decide +kernel
  obtain ⟨abandoned, w1, w2, w3, w4, hBlock, sample, hMem, hCarries⟩ :=
    h (blockEvents secondSample) [0x100000001, 2, 0x700000002, 0x700000002]
      (by rw [← blocksOf, hBlocks]; exact List.mem_singleton.mpr rfl)
  have hAbandoned : abandoned = [] := by
    have hLength := congrArg List.length hBlock
    simpa using hLength
  subst hAbandoned
  obtain ⟨rfl, rfl, rfl, rfl, -⟩ : _ = w1 ∧ _ = w2 ∧ _ = w3 ∧ _ = w4 ∧ True := by simpa using hBlock
  rw [hCaptured] at hMem
  obtain ⟨-, hCycles, hAcc, -⟩ := hCarries
  rcases List.mem_pair.mp hMem with rfl | rfl
  · exact absurd hAcc (by decide)
  · exact absurd hCycles (by decide)

end WrRfDemo.Dds

import WrRfDemo.Dds.Drive

/-! # Every sample of a session is resolved

The state machine never misses a sample that comes in time, applies each one three ticks
after its due tick, and so never waits for a time that has gone by.
-/

namespace WrRfDemo.Dds

open Clocked Timing

namespace DriveLog

variable {delay : BitVec 16} {o : DriveLog} {i : SessionIn} {s : Session}

/-! ### The state machine in a session -/

theorem fsm_waitSample (delay : BitVec 16) (hState : s.path.state = .waitSample) :
    s.path.pDriveFsm (s.driveIn delay i) = { s.path with
      accLoadO := false, compareEnable := false, fifoRd := s.path.fifoRd || !s.path.fifoEmpty,
      state := if s.path.fifoEmpty then .waitSample else .readSample } := by
  cases hEmpty : s.path.fifoEmpty <;>
    simp [DrivePath.pDriveFsm, DrivePath.on, Session.driveIn, hState, hEmpty]

theorem fsm_readSample (delay : BitVec 16) (hState : s.path.state = .readSample) :
    s.path.pDriveFsm (s.driveIn delay i) = { s.path with
      compareEnable := true, fifoRd := false, newSampleRef := true, state := .adjust } := by
  simp [DrivePath.pDriveFsm, DrivePath.on, Session.driveIn, hState]

theorem fsm_adjust (delay : BitVec 16) (hState : s.path.state = .adjust) (hMiss : s.path.tsMiss = false) :
    s.path.pDriveFsm (s.driveIn delay i) = { s.path with
      newSampleRef := false, state := if s.path.compareDone then .waitTrigger else .adjust } := by
  cases hDone : s.path.compareDone <;>
    simp [DrivePath.pDriveFsm, DrivePath.on, Session.driveIn, hState, hMiss, hDone]

theorem fsm_waitTrigger (delay : BitVec 16) (hState : s.path.state = .waitTrigger) (hHit : s.path.tsHit = false) :
    s.path.pDriveFsm (s.driveIn delay i) = { s.path with accLoadO := false } := by
  simp [DrivePath.pDriveFsm, DrivePath.on, Session.driveIn, hState, hHit]

theorem fsm_trigger (delay : BitVec 16) (hState : s.path.state = .waitTrigger) (hHit : s.path.tsHit = true) :
    s.path.pDriveFsm (s.driveIn delay i) = { s.path with
      accLoadO := false, accO := s.path.ref.acc, tuneO := s.path.ref.tune, state := .waitSample,
      hitCnt := s.path.hitCnt + 1 } := by
  simp [DrivePath.pDriveFsm, DrivePath.on, Session.driveIn, hState, hHit]

/-! ### What holds between the steps -/

structure Applied (delay : BitVec 16) (o : DriveLog) (s : Session) : Prop where
  order : o.popped = o.verdicts.map Verdict.sample ++ if s.path.busy then [s.path.ref] else []
  right : ∀ v ∈ o.verdicts, v.Right delay ∧ v.appliedAt.isSome = true
  hitCnt : s.path.hitCnt = BitVec.ofNat 24 o.verdicts.length
  missCnt : s.path.missCnt = 0
  applied : ∀ v ∈ o.verdicts.getLast?, s.path.accO = v.sample.acc ∧ s.path.tuneO = v.sample.tune

def Phase (delay : BitVec 16) (o : DriveLog) (s : Session) : Prop :=
  match s.path.state with
  | .waitSample => s.path.fifoRd = false ∧ (o.verdicts ≠ [] → s.OnTime ∧ s.Behind delay)
  | .readSample => s.path.fifoRd = true ∧ s.path.fifo ≠ [] ∧ s.OnTime ∧
    (o.verdicts ≠ [] → s.Behind delay)
  | .adjust => s.path.compareEnable = true ∧ ∃ k ≤ 3, s.InHand delay k ∧
    (2 ≤ k → s.path.compare.stage1 = true) ∧ (3 ≤ k → s.path.compareDone = true)
  | .waitTrigger => o.checkedAt < s.dueTick delay ∧ ∃ k ≥ 2, s.InHand delay k

theorem Applied.of_silent (h : Applied delay o s) (hVerdict : o.verdictAt s = [])
    (hOrder : o.popped ++ popAt s.path = o.verdicts.map Verdict.sample ++
      if (s.step delay i).path.busy then [(s.step delay i).path.ref] else [])
    (hSame : (s.step delay i).path.hitCnt = s.path.hitCnt ∧ (s.step delay i).path.missCnt = s.path.missCnt ∧
      (s.step delay i).path.accO = s.path.accO ∧ (s.step delay i).path.tuneO = s.path.tuneO) :
    Applied delay (o.see i s) (s.step delay i) := by
  obtain ⟨hHit, hMiss, hAcc, hTune⟩ := hSame
  have hVerdicts : (o.see i s).verdicts = o.verdicts := by simp [see, hVerdict]
  constructor
  · rw [hVerdicts]
    exact hOrder
  · rw [hVerdicts]
    exact h.right
  · rw [hVerdicts, hHit]
    exact h.hitCnt
  · rw [hMiss]
    exact h.missCnt
  · rw [hVerdicts, hAcc, hTune]
    exact h.applied

theorem step_waitSample (hApplied : Applied delay o s) (hPhase : Phase delay o s)
    (hState : s.path.state = .waitSample) (hWrap : s.now / refClkRate < 2 ^ 32) :
    Applied delay (o.see i s) (s.step delay i) ∧ Phase delay (o.see i s) (s.step delay i) := by
  simp only [Phase, hState] at hPhase
  obtain ⟨hRd, hSettled⟩ := hPhase
  have hFsm := fsm_waitSample delay (i := i) hState
  have hVerdict : o.verdictAt s = [] := by simp [verdictAt, hState]
  have hVerdicts : (o.see i s).verdicts = o.verdicts := by simp [see, hVerdict]
  have hNotBusy : (s.step delay i).path.busy = false := by
    cases hEmpty : s.path.fifoEmpty <;>
      simp [DrivePath.busy, Session.step, DrivePath.clock, hFsm, hEmpty]
  have hBefore : s.path.busy = false := by simp [DrivePath.busy, hState]
  constructor
  · refine hApplied.of_silent hVerdict ?_ ?_
    · have hOrder := hApplied.order
      rw [hNotBusy, hOrder, hBefore]
      simp [popAt, hRd]
    · simp [Session.step, DrivePath.clock, hFsm]
  · cases hEmpty : s.path.fifoEmpty with
    | true =>
      have hNext : (s.step delay i).path.state = .waitSample := by
        simp [Session.step, DrivePath.clock, hFsm, hEmpty]
      simp only [Phase, hNext, hVerdicts]
      refine ⟨by simp [Session.step, DrivePath.clock, hFsm, hEmpty, hRd], fun hSome => ?_⟩
      obtain ⟨hOn, hBehind⟩ := hSettled hSome
      exact ⟨Session.onTime_step, hBehind.step hOn hWrap hRd⟩
    | false =>
      have hNext : (s.step delay i).path.state = .readSample := by
        simp [Session.step, DrivePath.clock, hFsm, hEmpty]
      simp only [Phase, hNext, hVerdicts]
      refine ⟨by simp [Session.step, DrivePath.clock, hFsm, hEmpty], ?_, Session.onTime_step,
        fun hSome => ?_⟩
      · intro hNone
        have hFifo : s.path.fifo = [] := by
          have : s.path.fifo ++ i.arrivals = [] := by
            simpa [Session.step, DrivePath.clock, Session.driveIn, hRd] using hNone
          exact (List.append_eq_nil_iff.mp this).1
        simp [DrivePath.fifoEmpty, hFifo] at hEmpty
      · obtain ⟨hOn, hBehind⟩ := hSettled hSome
        exact hBehind.step hOn hWrap hRd

theorem step_readSample (hApplied : Applied delay o s) (hPhase : Phase delay o s)
    (hState : s.path.state = .readSample) (hOk : Session.InTime delay i (o, s)) :
    Applied delay (o.see i s) (s.step delay i) ∧ Phase delay (o.see i s) (s.step delay i) := by
  simp only [Phase, hState] at hPhase
  obtain ⟨hRd, hSome, hOn, hSettled⟩ := hPhase
  obtain ⟨hWrap, hRead⟩ := hOk
  obtain ⟨hTimely, hFirst⟩ := hRead hState
  obtain ⟨w, rest, hFifo⟩ := List.exists_cons_of_ne_nil hSome
  have hHead : s.path.fifo.head? = some w := by rw [hFifo]; rfl
  have hFsm := fsm_readSample delay (i := i) hState
  have hVerdict : o.verdictAt s = [] := by simp [verdictAt, hState]
  have hBehind : s.Behind delay := by
    by_cases hNone : o.verdicts = []
    · exact hFirst hNone
    · exact hSettled hNone
  have hNext : (s.step delay i).path.fifoRd = false := by simp [Session.step, DrivePath.clock, hFsm]
  have hHand := Session.InHand.of_read hRd hNext hTimely hBehind hOn hWrap
  have hBusy : (s.step delay i).path.state = .adjust := by simp [Session.step, DrivePath.clock, hFsm]
  constructor
  · refine hApplied.of_silent hVerdict ?_ ?_
    · have hOrder := hApplied.order
      have hRef : (s.step delay i).path.ref = unpack w := by
        simp [DrivePath.ref, Session.fifoOut_step, hRd, hFifo]
      have hBefore : s.path.busy = false := by simp [DrivePath.busy, hState]
      rw [hOrder, hBefore, DrivePath.busy, hBusy, hRef]
      simp [popAt, hRd, hHead]
    · simp [Session.step, DrivePath.clock, hFsm]
  · simp only [Phase, hBusy]
    refine ⟨by simp [Session.step, DrivePath.clock, hFsm], 1, by decide, hHand, ?_, ?_⟩
    · omega
    · omega

/-- With no miss flag up, the check always sends the sample on to wait for its time. -/
theorem step_adjust (hApplied : Applied delay o s) (hPhase : Phase delay o s)
    (hState : s.path.state = .adjust) (hWrap : s.now / refClkRate < 2 ^ 32) :
    Applied delay (o.see i s) (s.step delay i) ∧ Phase delay (o.see i s) (s.step delay i) := by
  simp only [Phase, hState] at hPhase
  obtain ⟨hEnable, k, hk, hHand, hStage1, hDone⟩ := hPhase
  have hAhead := hHand.ahead
  have hRead := hHand.read
  have hMiss : s.path.tsMiss = false := hHand.aGreatO hk
  have hFsm := fsm_adjust delay (i := i) hState hMiss
  have hVerdict : o.verdictAt s = [] := by simp [verdictAt, hState, hMiss]
  have hRd : (s.step delay i).path.fifoRd = false := by
    simp [Session.step, DrivePath.clock, hFsm, hHand.fifoRd]
  have hLatency : triggerLatency = 3 := rfl
  have hNext := hHand.step hWrap hRd (by omega)
  have hRef := Session.ref_step delay (i := i) hHand.fifoRd
  have hBusy : (s.step delay i).path.busy = true ∧ s.path.busy = true := by
    cases hValid : s.path.compareDone <;>
      simp [DrivePath.busy, Session.step, DrivePath.clock, hFsm, hValid, hState]
  constructor
  · refine hApplied.of_silent hVerdict ?_ ?_
    · have hOrder := hApplied.order
      rw [hBusy.1, hRef, hOrder, hBusy.2]
      simp [popAt, hHand.fifoRd]
    · simp [Session.step, DrivePath.clock, hFsm]
  · cases hValid : s.path.compareDone with
    | true =>
      have hTrigger : (s.step delay i).path.state = .waitTrigger := by
        simp [Session.step, DrivePath.clock, hFsm, hValid]
      simp only [Phase, hTrigger]
      refine ⟨?_, k + 1, by omega, hNext⟩
      simp only [see, checkedAtStep, hState, hValid, true_and, if_true, Session.dueTick, hRef]
      simp only [Session.dueTick] at hAhead
      omega
    | false =>
      have hAdjust : (s.step delay i).path.state = .adjust := by
        simp [Session.step, DrivePath.clock, hFsm, hValid]
      have hEarly : k ≤ 2 := by
        by_contra hLate
        exact absurd (hDone (by omega)) (by simp [hValid])
      simp only [Phase, hAdjust]
      refine ⟨?_, k + 1, by omega, hNext, ?_, ?_⟩
      · simp [Session.step, DrivePath.clock, hFsm, hEnable]
      · exact fun _ => hEnable
      · exact fun hTwo => hStage1 (by omega)

theorem step_waitTrigger (hApplied : Applied delay o s) (hPhase : Phase delay o s)
    (hState : s.path.state = .waitTrigger) (hWrap : s.now / refClkRate < 2 ^ 32) :
    Applied delay (o.see i s) (s.step delay i) ∧ Phase delay (o.see i s) (s.step delay i) := by
  simp only [Phase, hState] at hPhase
  obtain ⟨hChecked, k, hk, hHand⟩ := hPhase
  have hRef := Session.ref_step delay (i := i) hHand.fifoRd
  have hEqual := hHand.equalO hk
  have hBefore : s.path.busy = true := by simp [DrivePath.busy, hState]
  by_cases hTime : s.now = s.dueTick delay + triggerLatency
  · have hHit : s.path.tsHit = true := by rw [DrivePath.tsHit, hEqual, decide_eq_true hTime]
    have hFsm := fsm_trigger delay (i := i) hState hHit
    have hVerdicts : (o.see i s).verdicts = o.verdicts ++ [⟨s.path.ref, o.checkedAt, some s.now⟩] := by
      simp [see, verdictAt, hState, hHit]
    have hNotBusy : (s.step delay i).path.busy = false := by
      simp [DrivePath.busy, Session.step, DrivePath.clock, hFsm]
    have hWait : (s.step delay i).path.state = .waitSample := by
      simp [Session.step, DrivePath.clock, hFsm]
    constructor
    · constructor
      · have hOrder := hApplied.order
        simp [see, popAt, verdictAt, hState, hHit, hNotBusy, hHand.fifoRd, hOrder, hBefore]
      · rw [hVerdicts]
        intro v hv
        rcases List.mem_append.mp hv with hOld | hNew
        · exact hApplied.right v hOld
        · rw [List.mem_singleton.mp hNew]
          simp only [Session.dueTick] at hChecked hTime
          exact ⟨by rw [Verdict.Right, if_pos hChecked, hTime], rfl⟩
      · rw [hVerdicts, List.length_append, List.length_singleton, BitVec.ofNat_add, ← hApplied.hitCnt]
        simp [Session.step, DrivePath.clock, hFsm]
      · simpa [Session.step, DrivePath.clock, hFsm] using hApplied.missCnt
      · rw [hVerdicts]
        simp [Session.step, DrivePath.clock, hFsm]
    · simp only [Phase, hWait]
      exact ⟨by simp [Session.step, DrivePath.clock, hFsm, hHand.fifoRd],
        fun _ => ⟨Session.onTime_step, hHand.behind_of_hit hWrap hTime⟩⟩
  · have hHit : s.path.tsHit = false := by rw [DrivePath.tsHit, hEqual, decide_eq_false hTime]
    have hFsm := fsm_waitTrigger delay (i := i) hState hHit
    have hVerdict : o.verdictAt s = [] := by simp [verdictAt, hState, hHit]
    have hRd : (s.step delay i).path.fifoRd = false := by
      simp [Session.step, DrivePath.clock, hFsm, hHand.fifoRd]
    have hTrigger : (s.step delay i).path.state = .waitTrigger := by
      simp [Session.step, DrivePath.clock, hFsm, hState]
    have hBusy : (s.step delay i).path.busy = true := by simp [DrivePath.busy, hTrigger]
    constructor
    · refine hApplied.of_silent hVerdict ?_ ?_
      · have hOrder := hApplied.order
        rw [hBusy, hRef, hOrder, hBefore]
        simp [popAt, hHand.fifoRd]
      · simp [Session.step, DrivePath.clock, hFsm]
    · simp only [Phase, hTrigger]
      refine ⟨?_, k + 1, by omega, hHand.step hWrap hRd hTime⟩
      simpa [see, checkedAtStep, hState, Session.dueTick, hRef] using hChecked

theorem step (hApplied : Applied delay o s) (hPhase : Phase delay o s)
    (hOk : Session.InTime delay i (o, s)) :
    Applied delay (o.see i s) (s.step delay i) ∧ Phase delay (o.see i s) (s.step delay i) := by
  cases hState : s.path.state with
  | waitSample => exact step_waitSample hApplied hPhase hState hOk.1
  | readSample => exact step_readSample hApplied hPhase hState hOk
  | adjust => exact step_adjust hApplied hPhase hState hOk.1
  | waitTrigger => exact step_waitTrigger hApplied hPhase hState hOk.1

theorem resolved (hApplied : Applied delay o s) (hPhase : Phase delay o s) : o.Resolved delay s := by
  have hHits : o.hits = o.verdicts := List.filter_eq_self.mpr fun v hv => (hApplied.right v hv).2
  have hMisses : o.misses = [] := by
    refine List.filter_eq_nil_iff.mpr fun v hv => ?_
    have hSome := (hApplied.right v hv).2
    cases hAt : v.appliedAt with
    | none => simp [hAt] at hSome
    | some tick => simp
  constructor
  · exact hApplied.order
  · exact fun v hv => (hApplied.right v hv).1
  · rw [hHits]
    exact hApplied.hitCnt
  · rw [hMisses]
    exact hApplied.missCnt
  · rw [hHits]
    exact hApplied.applied
  · intro hState
    simp only [Phase, hState] at hPhase
    obtain ⟨-, k, -, hHand⟩ := hPhase
    exact hHand.notLate

theorem applied_off (j : DriveIn) (hOff : DrivePath.on j = false) (path : DrivePath) (now : Nat) :
    Applied delay empty ⟨path.clock j, now⟩ ∧ Phase delay empty ⟨path.clock j, now⟩ := by
  have hFsm : path.pDriveFsm j = { path with
      accLoadO := false, state := .waitSample, fifoRd := false, compareEnable := false,
      newSampleRef := false, hitCnt := 0, missCnt := 0 } := by
    simp [DrivePath.pDriveFsm, hOff]
  constructor
  · constructor <;> simp [empty, DrivePath.clock, hFsm, DrivePath.busy]
  · simp [Phase, empty, DrivePath.clock, hFsm]

end DriveLog

/-- From the last cycle with slave mode off on, whatever came before, while every sample is read
at least four ticks ahead of its due tick and the first one finds nothing ahead of the WR time
in the pipeline, every sample is resolved rightly. -/
theorem samples_resolved (delay : BitVec 16) (path : DrivePath) (j : DriveIn)
    (hOff : DrivePath.on j = false) (now : Nat) (inputs : List SessionIn)
    (hAlong : Along (watch (Session.step delay) DriveLog.see) (Session.InTime delay) inputs
      (DriveLog.empty, ⟨path.clock j, now⟩)) :
    let last := run (watch (Session.step delay) DriveLog.see) inputs (DriveLog.empty, ⟨path.clock j, now⟩)
    last.1.Resolved delay last.2 := by
  have hStep : ∀ i (p : DriveLog × Session), p.1.Applied delay p.2 ∧ p.1.Phase delay p.2 →
      Session.InTime delay i p → (watch (Session.step delay) DriveLog.see i p).1.Applied delay
        (watch (Session.step delay) DriveLog.see i p).2 ∧
      (watch (Session.step delay) DriveLog.see i p).1.Phase delay
        (watch (Session.step delay) DriveLog.see i p).2 :=
    fun _ _ h hOk => DriveLog.step h.1 h.2 hOk
  obtain ⟨hApplied, hPhase⟩ := run_invariant hStep inputs (DriveLog.applied_off j hOff path now) hAlong
  exact DriveLog.resolved hApplied hPhase

/-! ### A sample that comes late, and one that is due later than the last -/

def driveOff : DriveIn := ⟨true, false, true, 0, 0, 0, false, []⟩

def emptySum : TsSum 2 28 32 := ⟨0, 0, 0⟩

def drivePowerUp : DrivePath where
  fifo := []
  fifoOut := 0
  adder := ⟨false, false, false, false, emptySum, emptySum, emptySum, ⟨false, 0⟩, emptySum⟩
  tmD0 := ⟨0, 0⟩
  compare := ⟨false, false, false, false, false, false, false, false, false⟩
  state := .waitSample
  fifoRd := false
  compareEnable := false
  newSampleRef := false
  hitCnt := 0
  missCnt := 0
  accO := 0
  tuneO := 0
  accLoadO := false

def sampleWord (cycles : Nat) : BitVec 128 := setField 64 (BitVec.ofNat 28 cycles) (0 : BitVec 128)

def quietCycles (k : Nat) : List SessionIn := List.replicate k ⟨[], false⟩

def sessionRun (inputs : List SessionIn) : DriveLog × Session :=
  run (watch (Session.step 10) DriveLog.see) inputs
    (DriveLog.empty, ⟨drivePowerUp.clock driveOff, 1000⟩)

def twoSamples : List SessionIn :=
  quietCycles 2 ++ [⟨[sampleWord 1000, sampleWord 1020], false⟩] ++ quietCycles 40

theorem samples_resolved_twoSamples :
    (sessionRun twoSamples).1.Resolved 10 (sessionRun twoSamples).2 ∧
    (sessionRun twoSamples).1.verdicts.map Verdict.appliedAt = [some 1013, some 1033] :=
  ⟨samples_resolved 10 drivePowerUp driveOff rfl 1000 twoSamples (by decide +kernel), by decide +kernel⟩

def lateSample : List SessionIn := ⟨[sampleWord 900], false⟩ :: quietCycles 20

/-- A sample due at tick 910 is read at tick 1002: it is neither applied nor counted as missed,
and the state machine waits for it ever after. -/
theorem sample_never_resolved :
    (sessionRun lateSample).2.path.state = .waitTrigger ∧ (sessionRun lateSample).2.path.missCnt = 0 ∧
    (sessionRun lateSample).1.verdicts = [] ∧
    ¬ ∀ inputs : List SessionIn, (sessionRun inputs).1.Resolved 10 (sessionRun inputs).2 := by
  have hState : (sessionRun lateSample).2.path.state = .waitTrigger := by decide +kernel
  refine ⟨hState, by decide +kernel, by decide +kernel, fun h => ?_⟩
  have hLate := (h lateSample).notLate hState
  revert hLate
  decide +kernel

end WrRfDemo.Dds

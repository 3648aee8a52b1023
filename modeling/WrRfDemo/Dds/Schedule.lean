import WrRfDemo.Dds.DriveRun

/-! # Samples that are supplied in time

A master takes its samples 1024 ticks apart. If each of them is in the slave's FIFO six ticks before it is due, then each is read in
time, and they are applied 1024 ticks apart.
-/

namespace WrRfDemo.Dds

open Clocked Timing

theorem DrivePath.accLoadO_clock {s : DrivePath} (i : DriveIn) (h : s.accLoadO = false) : (s.clock i).accLoadO = false := by
  change (s.pDriveFsm i).accLoadO = false
  rw [DrivePath.pDriveFsm]
  by_cases hOff : (!DrivePath.on i) = true
  · rw [if_pos hOff]
  · rw [if_neg hOff]
    cases s.state with
    | waitSample | waitTrigger =>
      dsimp only
      split_ifs <;> rfl
    | readSample => exact h
    | adjust =>
      dsimp only
      split_ifs <;> exact h

namespace DriveLog

variable {delay : BitVec 16} {first : Nat} {o : DriveLog} {i : SessionIn} {s : Session}

def arrived (o : DriveLog) (s : Session) : List Entry := o.popped ++ s.path.fifo.map unpack

theorem arrived_step (delay : BitVec 16) (o : DriveLog) (i : SessionIn) (s : Session) :
    (o.see i s).arrived (s.step delay i) = o.arrived s ++ i.arrivals.map unpack := by
  have hFifo : (s.step delay i).path.fifo = (if s.path.fifoRd then s.path.fifo.tail else s.path.fifo) ++ i.arrivals := rfl
  have hPopped : (o.see i s).popped = o.popped ++ popAt s.path := rfl
  rw [arrived, hPopped, hFifo, arrived, popAt]
  cases s.path.fifoRd with
  | false => simp
  | true => cases s.path.fifo <;> simp

/-- The samples are due 1024 ticks apart from the first one on, and come six ticks before. -/
structure Supplied (delay : BitVec 16) (first : Nat) (o : DriveLog) (s : Session) : Prop where
  running : s.now / refClkRate < 2 ^ 32
  due : ∀ n e, (o.arrived s)[n]? = some e → e.due delay = first + 1024 * n
  plain : ∀ e ∈ o.arrived s, e.cycles.toNat < 2 ^ 27 ∧ e.due delay / refClkRate < 2 ^ 32
  ahead : s.now + 6 < first + 1024 * (o.arrived s).length

/-- Where a session stands in its schedule: the next sample to be applied is due at the next tick of it. -/
structure Scheduled (delay : BitVec 16) (first : Nat) (o : DriveLog) (s : Session) : Prop where
  applied : Applied delay o s
  phase : Phase delay o s
  onTime : s.OnTime
  behind : s.path.busy = false → s.Behind delay
  waiting : s.path.state = .waitSample → s.now + 6 ≤ first + 1024 * o.verdicts.length
  reading : s.path.state = .readSample → s.now + 5 ≤ first + 1024 * o.verdicts.length
  inHand : s.path.busy = true → s.dueTick delay = first + 1024 * o.verdicts.length
  past : o.verdicts ≠ [] → first + 1024 * o.verdicts.length ≤ s.now + 1020

theorem Scheduled.popped (h : Scheduled delay first o s) (hBusy : s.path.busy = false) :
    o.popped = o.verdicts.map Verdict.sample := by
  have hOrder := h.applied.order
  rwa [hBusy, if_neg Bool.false_ne_true, List.append_nil] at hOrder

theorem Scheduled.head (h : Scheduled delay first o s) (hBusy : s.path.busy = false) {w : BitVec 128} {rest : List (BitVec 128)}
    (hFifo : s.path.fifo = w :: rest) : (o.arrived s)[o.verdicts.length]? = some (unpack w) := by
  rw [arrived, h.popped hBusy, hFifo]
  simp

theorem Scheduled.inTime (h : Scheduled delay first o s) (hSupplied : Supplied delay first o s) :
    Session.InTime delay i (o, s) := by
  refine ⟨hSupplied.running, fun (hState : s.path.state = .readSample) => ?_⟩
  have hBusy : s.path.busy = false := by rw [DrivePath.busy, hState]; rfl
  have hPhase := h.phase
  simp only [Phase, hState] at hPhase
  obtain ⟨w, rest, hFifo⟩ := List.exists_cons_of_ne_nil hPhase.2.1
  have hHead := h.head hBusy hFifo
  have hDue := hSupplied.due _ _ hHead
  obtain ⟨hCycles, hWrap⟩ := hSupplied.plain _ (List.mem_of_getElem? hHead)
  have hReading := h.reading hState
  refine ⟨?_, fun _ => h.behind hBusy⟩
  change s.Timely delay (unpack (s.path.fifo.headD s.path.fifoOut))
  rw [hFifo, List.headD_cons]
  exact ⟨hCycles, hWrap, by omega⟩

/-! ### One step of the schedule -/

theorem verdicts_see (o : DriveLog) (i : SessionIn) (s : Session) : (o.see i s).verdicts = o.verdicts ++ o.verdictAt s := rfl

theorem Scheduled.step_waitSample (h : Scheduled delay first o s) (hSupplied : Supplied delay first o s)
    (hState : s.path.state = .waitSample) : Scheduled delay first (o.see i s) (s.step delay i) := by
  obtain ⟨hApplied, hPhase⟩ := DriveLog.step (i := i) h.applied h.phase (h.inTime hSupplied)
  have hBusy : s.path.busy = false := by rw [DrivePath.busy, hState]; rfl
  have hRd : s.path.fifoRd = false := by
    have hNow := h.phase
    simp only [Phase, hState] at hNow
    exact hNow.1
  have hFsm := fsm_waitSample delay (i := i) hState
  have hSame : (o.see i s).verdicts = o.verdicts := by simp [see, verdictAt, hState]
  have hNext : (s.step delay i).path.state = if s.path.fifoEmpty then .waitSample else .readSample := by
    simp [Session.step, DrivePath.clock, hFsm]
  have hWaiting := h.waiting hState
  have hAhead := hSupplied.ahead
  have hArrived : (o.arrived s).length = o.verdicts.length + s.path.fifo.length := by
    rw [arrived, h.popped hBusy, List.length_append, List.length_map, List.length_map]
  have hStays : (s.step delay i).path.busy = false := by
    rw [DrivePath.busy, hNext]
    cases s.path.fifoEmpty <;> rfl
  constructor
  · exact hApplied
  · exact hPhase
  · exact Session.onTime_step
  · exact fun _ => (h.behind hBusy).step h.onTime hSupplied.running hRd
  · intro hWait
    rw [hNext] at hWait
    have hEmpty : s.path.fifo = [] := by
      cases hFifo : s.path.fifo with
      | nil => rfl
      | cons w rest =>
        simp [DrivePath.fifoEmpty, hFifo] at hWait
    rw [hEmpty, List.length_nil] at hArrived
    rw [hSame, Session.now_step]
    omega
  · intro _
    rw [hSame, Session.now_step]
    omega
  · intro hInHand
    exact absurd hInHand (by rw [hStays]; decide)
  · intro hSome
    rw [hSame] at hSome ⊢
    exact Nat.le_succ_of_le (h.past hSome)

theorem Scheduled.step_readSample (h : Scheduled delay first o s) (hSupplied : Supplied delay first o s)
    (hState : s.path.state = .readSample) : Scheduled delay first (o.see i s) (s.step delay i) := by
  obtain ⟨hApplied, hPhase⟩ := DriveLog.step (i := i) h.applied h.phase (h.inTime hSupplied)
  have hBusy : s.path.busy = false := by rw [DrivePath.busy, hState]; rfl
  obtain ⟨hRd, hSome, -⟩ : s.path.fifoRd = true ∧ s.path.fifo ≠ [] ∧ True := by
    have hNow := h.phase
    simp only [Phase, hState] at hNow
    exact ⟨hNow.1, hNow.2.1, trivial⟩
  obtain ⟨w, rest, hFifo⟩ := List.exists_cons_of_ne_nil hSome
  have hFsm := fsm_readSample delay (i := i) hState
  have hSame : (o.see i s).verdicts = o.verdicts := by simp [see, verdictAt, hState]
  have hNext : (s.step delay i).path.state = .adjust := by simp [Session.step, DrivePath.clock, hFsm]
  have hTaken : (s.step delay i).path.busy = true := by rw [DrivePath.busy, hNext]; rfl
  constructor
  · exact hApplied
  · exact hPhase
  · exact Session.onTime_step
  · intro hIdle
    exact absurd hIdle (by rw [hTaken]; decide)
  · intro hWait
    exact absurd (hNext.symm.trans hWait) (by decide)
  · intro hRead
    exact absurd (hNext.symm.trans hRead) (by decide)
  · intro _
    have hRef : (s.step delay i).path.ref = unpack w := by simp [DrivePath.ref, Session.fifoOut_step, hRd, hFifo]
    rw [Session.dueTick, hRef, hSame]
    exact hSupplied.due _ _ (h.head hBusy hFifo)
  · intro hPast
    rw [hSame] at hPast ⊢
    exact Nat.le_succ_of_le (h.past hPast)

theorem Scheduled.step_inHand (h : Scheduled delay first o s) (hSupplied : Supplied delay first o s)
    (hBusy : s.path.busy = true) (hNext : (s.step delay i).path.busy = true) (hRd : s.path.fifoRd = false)
    (hSame : (o.see i s).verdicts = o.verdicts) : Scheduled delay first (o.see i s) (s.step delay i) := by
  obtain ⟨hApplied, hPhase⟩ := DriveLog.step (i := i) h.applied h.phase (h.inTime hSupplied)
  constructor
  · exact hApplied
  · exact hPhase
  · exact Session.onTime_step
  · intro hIdle
    exact absurd hIdle (by rw [hNext]; decide)
  · intro hWait
    rw [DrivePath.busy, hWait] at hNext
    exact absurd hNext (by decide)
  · intro hRead
    rw [DrivePath.busy, hRead] at hNext
    exact absurd hNext (by decide)
  · intro _
    rw [Session.dueTick, Session.ref_step delay hRd, hSame]
    exact h.inHand hBusy
  · intro hPast
    rw [hSame] at hPast ⊢
    exact Nat.le_succ_of_le (h.past hPast)

theorem Scheduled.step_adjust (h : Scheduled delay first o s) (hSupplied : Supplied delay first o s)
    (hState : s.path.state = .adjust) : Scheduled delay first (o.see i s) (s.step delay i) := by
  obtain ⟨-, k, hk, hHand, -⟩ : s.path.compareEnable = true ∧ ∃ k ≤ 3, s.InHand delay k ∧ True := by
    have hNow := h.phase
    simp only [Phase, hState] at hNow
    obtain ⟨hEnable, k, hk, hHand, -⟩ := hNow
    exact ⟨hEnable, k, hk, hHand, trivial⟩
  have hMiss : s.path.tsMiss = false := hHand.aGreatO hk
  have hFsm := fsm_adjust delay (i := i) hState hMiss
  have hSame : (o.see i s).verdicts = o.verdicts := by simp [see, verdictAt, hState, hMiss]
  refine h.step_inHand hSupplied (by rw [DrivePath.busy, hState]; rfl) ?_ hHand.fifoRd hSame
  cases hDone : s.path.compareDone <;> simp [DrivePath.busy, Session.step, DrivePath.clock, hFsm, hDone]

/-- The sample in hand is applied three ticks after it was due, with most of the time to the next still to come. -/
theorem Scheduled.step_waitTrigger (h : Scheduled delay first o s) (hSupplied : Supplied delay first o s)
    (hState : s.path.state = .waitTrigger) : Scheduled delay first (o.see i s) (s.step delay i) := by
  obtain ⟨k, hk, hHand⟩ : ∃ k ≥ 2, s.InHand delay k := by
    have hNow := h.phase
    simp only [Phase, hState] at hNow
    exact hNow.2
  have hBusy : s.path.busy = true := by rw [DrivePath.busy, hState]; rfl
  have hEqual := hHand.equalO hk
  have hDue := h.inHand hBusy
  by_cases hTime : s.now = s.dueTick delay + triggerLatency
  · obtain ⟨hApplied, hPhase⟩ := DriveLog.step (i := i) h.applied h.phase (h.inTime hSupplied)
    have hHit : s.path.tsHit = true := by rw [DrivePath.tsHit, hEqual, decide_eq_true hTime]
    have hFsm := fsm_trigger delay (i := i) hState hHit
    have hVerdicts : (o.see i s).verdicts.length = o.verdicts.length + 1 := by simp [see, verdictAt, hState, hHit]
    have hNext : (s.step delay i).path.state = .waitSample := by simp [Session.step, DrivePath.clock, hFsm]
    rw [triggerLatency, hDue] at hTime
    constructor
    · exact hApplied
    · exact hPhase
    · exact Session.onTime_step
    · exact fun _ => hHand.behind_of_hit hSupplied.running (by rw [triggerLatency, hDue, hTime])
    · intro _
      rw [hVerdicts, Session.now_step]
      omega
    · intro hRead
      exact absurd (hNext.symm.trans hRead) (by decide)
    · intro hInHand
      rw [DrivePath.busy, hNext] at hInHand
      exact absurd hInHand (by decide)
    · intro _
      rw [hVerdicts, Session.now_step]
      omega
  · have hHit : s.path.tsHit = false := by rw [DrivePath.tsHit, hEqual, decide_eq_false hTime]
    have hFsm := fsm_waitTrigger delay (i := i) hState hHit
    have hSame : (o.see i s).verdicts = o.verdicts := by simp [see, verdictAt, hState, hHit]
    refine h.step_inHand hSupplied hBusy ?_ hHand.fifoRd hSame
    simp [DrivePath.busy, Session.step, DrivePath.clock, hFsm, hState]

theorem Scheduled.step (h : Scheduled delay first o s) (hSupplied : Supplied delay first o s) :
    Scheduled delay first (o.see i s) (s.step delay i) := by
  cases hState : s.path.state with
  | waitSample => exact h.step_waitSample hSupplied hState
  | readSample => exact h.step_readSample hSupplied hState
  | adjust => exact h.step_adjust hSupplied hState
  | waitTrigger => exact h.step_waitTrigger hSupplied hState

/-- From the last cycle without slave mode on. -/
theorem scheduled_off {j : DriveIn} (hOff : DrivePath.on j = false) {path : DrivePath} {now : Nat}
    (hOnTime : (⟨path.clock j, now⟩ : Session).OnTime) (hBehind : (⟨path.clock j, now⟩ : Session).Behind delay)
    (hEarly : now + 6 ≤ first) : Scheduled delay first empty ⟨path.clock j, now⟩ := by
  obtain ⟨hApplied, hPhase⟩ : Applied delay empty ⟨path.clock j, now⟩ ∧ Phase delay empty ⟨path.clock j, now⟩ :=
    applied_off j hOff path now
  have hState : (path.clock j).state = .waitSample := by simp [DrivePath.clock, DrivePath.pDriveFsm, hOff]
  constructor
  · exact hApplied
  · exact hPhase
  · exact hOnTime
  · exact fun _ => hBehind
  · exact fun _ => hEarly
  · intro hRead
    exact absurd (hState.symm.trans hRead) (by decide)
  · intro hInHand
    rw [DrivePath.busy] at hInHand
    simp [hState] at hInHand
  · exact fun hSome => absurd rfl hSome

/-! ### What is applied when -/

theorem exists_inHand (h : Phase delay o s) (hBusy : s.path.busy = true) : ∃ k, s.InHand delay k := by
  cases hState : s.path.state with
  | waitSample | readSample => simp [DrivePath.busy, hState] at hBusy
  | adjust =>
    simp only [Phase, hState] at h
    obtain ⟨-, k, -, hHand, -⟩ := h
    exact ⟨k, hHand⟩
  | waitTrigger =>
    simp only [Phase, hState] at h
    obtain ⟨-, k, -, hHand⟩ := h
    exact ⟨k, hHand⟩

theorem Scheduled.notLate (h : Scheduled delay first o s) : s.now ≤ first + 1024 * o.verdicts.length + triggerLatency := by
  cases hState : s.path.state with
  | waitSample =>
    have hWaiting := h.waiting hState
    omega
  | readSample =>
    have hReading := h.reading hState
    omega
  | adjust | waitTrigger =>
    have hBusy : s.path.busy = true := by rw [DrivePath.busy, hState]; rfl
    obtain ⟨k, hHand⟩ := exists_inHand h.phase hBusy
    rw [← h.inHand hBusy]
    exact hHand.notLate

/-- The only verdicts are samples that are applied at their time. -/
theorem Scheduled.verdictAt_eq_nil_iff (h : Scheduled delay first o s) :
    o.verdictAt s = [] ↔ ¬(s.path.state = .waitTrigger ∧ s.path.tsHit = true) := by
  cases hState : s.path.state with
  | waitSample | readSample => simp [verdictAt, hState]
  | adjust =>
    have hNow := h.phase
    simp only [Phase, hState] at hNow
    obtain ⟨-, k, hk, hHand, -⟩ := hNow
    have hMiss : s.path.tsMiss = false := hHand.aGreatO hk
    simp [verdictAt, hState, hMiss]
  | waitTrigger => cases hHit : s.path.tsHit <;> simp [verdictAt, hState, hHit]

theorem Scheduled.hit (h : Scheduled delay first o s) (hState : s.path.state = .waitTrigger) (hHit : s.path.tsHit = true) :
    s.now = first + 1024 * o.verdicts.length + triggerLatency := by
  have hNow := h.phase
  simp only [Phase, hState] at hNow
  obtain ⟨-, k, hk, hHand⟩ := hNow
  have hTime := of_decide_eq_true ((hHand.equalO hk).symm.trans hHit)
  rwa [h.inHand (by rw [DrivePath.busy, hState]; rfl)] at hTime

/-- Four ticks after a sample was due it is the last one applied. -/
theorem Scheduled.count (h : Scheduled delay first o s) {k : Nat} (hNow : s.now = first + 4 + 1024 * k) :
    o.verdicts.length = k + 1 := by
  have hNotLate := h.notLate
  rw [triggerLatency] at hNotLate
  have hSome : o.verdicts ≠ [] := by
    intro hNone
    rw [hNone, List.length_nil] at hNotLate
    omega
  have hPast := h.past hSome
  omega

theorem Scheduled.tuneO (h : Scheduled delay first o s) {k : Nat} (hNow : s.now = first + 4 + 1024 * k) :
    (o.arrived s)[k]?.map Entry.tune = some s.path.tuneO := by
  have hCount := h.count hNow
  obtain ⟨v, hV⟩ : ∃ v, o.verdicts[k]? = some v := ⟨_, List.getElem?_eq_getElem (by omega)⟩
  have hLast : o.verdicts.getLast? = some v := by rw [List.getLast?_eq_getElem?, hCount, Nat.add_sub_cancel, hV]
  obtain ⟨-, hTune⟩ := h.applied.applied v hLast
  have hArrived : (o.arrived s)[k]? = (o.verdicts.map Verdict.sample)[k]? := by
    rw [arrived, h.applied.order, List.append_assoc, List.getElem?_append_left]
    rw [List.length_map]
    omega
  rw [hArrived, List.getElem?_map, hV, hTune]
  rfl

end DriveLog

end WrRfDemo.Dds

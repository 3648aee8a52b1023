import WrRfDemo.Core.History
import WrRfDemo.Dds.CicReset
import WrRfDemo.Dds.Schedule

/-! # A slave

The drive path gives the core its tuning word, and starts the interpolator with the first sample. From then on the interpolator takes
the word of each sample once, in turn.
-/

namespace WrRfDemo.Network

open Clocked Timing WrRfDemo.Core Cic Dds

/-- What varies in a cycle of a slave. The wires that come from its drive path are not among it. -/
structure SlaveIn where
  session : SessionIn
  core : CoreIn

/-- The drive path, the state machine of the interpolator's reset, and the core, in a session of slave mode. -/
structure Slave where
  session : Session
  cicState : CicState
  core : DdsCore

namespace Slave

variable (delay : BitVec 16) (i : SlaveIn) (s : Slave)

def cicPath : CicPath := ⟨s.session.path, s.cicState⟩

/-- The ports of `U_Rx_path` at the core. -/
def coreIn : CoreIn :=
  { i.core with
    slaveTune := s.session.path.tuneO
    slaveCicRst := s.cicPath.cicResetO (s.session.driveIn delay i.session)
    synthAccIn := s.session.path.accO
    synthAccLoad := s.session.path.accLoadO }

def step : Slave :=
  ⟨s.session.step delay i.session, s.cicPath.pCicResetFsm (s.session.driveIn delay i.session), s.core.clock (s.coreIn delay i)⟩

end Slave

def seeSlave (o : DriveLog) (i : SlaveIn) (s : Slave) : DriveLog := o.see i.session s.session

/-- A running cycle at this centre frequency and gain, in slave mode. -/
structure Enslaved (bias : BitVec 43) (gain : BitVec 16) (i : CoreIn) : Prop where
  runs : Runs bias gain i
  notMaster : i.crMaster = false
  slave : i.crSlave = true

/-- The interpolator has been fed since the first sample was applied, and was given each sample in its turn. -/
structure Fed (bias : BitVec 43) (gain : BitVec 16) (first : Nat) (o : DriveLog) (s : Slave) (fed : List (BitVec 18)) : Prop where
  made : Made bias gain fed s.core
  since : s.session.now = first + 4 + fed.length
  words : ∀ n, 1024 * n < fed.length → (o.arrived s.session)[n]?.map Entry.tune = some (fed.getD (1024 * n) 0)

structure Tracking (delay : BitVec 16) (bias : BitVec 43) (gain : BitVec 16) (first : Nat) (o : DriveLog) (s : Slave) :
    Prop where
  scheduled : o.Scheduled delay first s.session
  waits : s.cicState = .wait ↔ o.verdicts = []
  fed : o.verdicts ≠ [] → ∃ fed, Fed bias gain first o s fed
  unloaded : s.session.path.accLoadO = false

variable {delay : BitVec 16} {bias : BitVec 43} {gain : BitVec 16} {first : Nat} {o : DriveLog} {i : SlaveIn} {s : Slave}

theorem Enslaved.runs_coreIn (h : Enslaved bias gain i.core) (delay : BitVec 16) (s : Slave) : Runs bias gain (s.coreIn delay i) :=
  ⟨h.runs.rstNRef, h.runs.centre, h.runs.scale⟩

theorem on_driveIn (delay : BitVec 16) (i : SessionIn) (s : Session) : DrivePath.on (s.driveIn delay i) = true := rfl

theorem Tracking.cicResetO_iff (h : Tracking delay bias gain first o s) :
    (s.coreIn delay i).slaveCicRst = true ↔ s.session.path.tsHit = true ∧ o.verdicts = [] := by
  rw [← h.waits]
  exact (CicPath.cicResetO_iff rfl s.cicPath).trans (and_iff_right (on_driveIn delay i.session s.session))

/-- The reset of the interpolator is released when the first sample is applied. -/
theorem Tracking.waits_step (h : Tracking delay bias gain first o s) :
    (s.step delay i).cicState = .wait ↔ (seeSlave o i s).verdicts = [] := by
  have hFsm : (s.step delay i).cicState = s.cicPath.pCicResetFsm (s.session.driveIn delay i.session) := rfl
  rw [hFsm, CicPath.pCicResetFsm_eq (on_driveIn delay i.session s.session), seeSlave, DriveLog.verdicts_see, List.append_eq_nil_iff,
    h.scheduled.verdictAt_eq_nil_iff, ← h.waits]
  have hApplies : s.cicPath.Applies (s.session.driveIn delay i.session) ↔
      s.session.path.state = .waitTrigger ∧ s.session.path.tsHit = true :=
    and_iff_right (on_driveIn delay i.session s.session)
  rw [← hApplies]
  split_ifs with hWait
  · exact iff_of_true rfl hWait
  · exact iff_of_false (by decide) hWait

theorem cic_step (delay : BitVec 16) (i : SlaveIn) (s : Slave) :
    (s.step delay i).core.cic = s.core.cic.clock (s.core.cicIn (s.coreIn delay i)) := cic_clock _ _

/-- The first sample: the interpolator starts from its reset. -/
theorem Tracking.fed_first (h : Tracking delay bias gain first o s) (hNone : o.verdicts = [])
    (hSome : (seeSlave o i s).verdicts ≠ []) : Fed bias gain first (seeSlave o i s) (s.step delay i) [] := by
  obtain ⟨hState, hHit⟩ : s.session.path.state = .waitTrigger ∧ s.session.path.tsHit = true := by
    rw [seeSlave, DriveLog.verdicts_see, hNone, List.nil_append, ne_eq, h.scheduled.verdictAt_eq_nil_iff, not_not] at hSome
    exact hSome
  have hNow := h.scheduled.hit hState hHit
  rw [hNone, List.length_nil, triggerLatency] at hNow
  constructor
  · apply made_reset
    rw [cic_step, Cic1024x.clock]
    exact if_pos (h.cicResetO_iff.mpr ⟨hHit, hNone⟩)
  · change s.session.now + 1 = _
    rw [hNow, List.length_nil]
  · rintro n hn
    exact absurd hn (Nat.not_lt_zero _)

theorem Tracking.fed_next (h : Tracking delay bias gain first o s) (hSome : o.verdicts ≠ []) {fed : List (BitVec 18)}
    (hFed : Fed bias gain first o s fed) (hEnslaved : Enslaved bias gain i.core) :
    Fed bias gain first (seeSlave o i s) (s.step delay i) (fed ++ [s.session.path.tuneO]) := by
  have hKeeps : (s.coreIn delay i).slaveCicRst = false := by
    rw [← Bool.not_eq_true, h.cicResetO_iff]
    exact fun hReset => hSome hReset.2
  have hInput : s.core.cicInput (s.coreIn delay i) = s.session.path.tuneO := by
    rw [DdsCore.cicInput, if_neg (by simp [Slave.coreIn, hEnslaved.notMaster]), if_pos (by exact hEnslaved.slave)]
    rfl
  constructor
  · rw [← hInput]
    exact hFed.made.step (hEnslaved.runs_coreIn delay s) hKeeps
  · change s.session.now + 1 = _
    rw [hFed.since, List.length_append, List.length_singleton]
    rfl
  · rintro n hn
    have hArrived : (o.arrived s.session)[n]?.map Entry.tune = some ((fed ++ [s.session.path.tuneO]).getD (1024 * n) 0) := by
      rw [List.length_append, List.length_singleton] at hn
      rcases Nat.lt_or_eq_of_le (Nat.le_of_lt_succ hn) with hBefore | hNow
      · rw [List.getD_append _ _ _ _ hBefore]
        exact hFed.words n hBefore
      · rw [List.getD_append_right _ _ _ _ (by omega), hNow, Nat.sub_self]
        exact h.scheduled.tuneO (by rw [hFed.since, hNow])
    have hStill : ((seeSlave o i s).arrived (s.step delay i).session)[n]? = (o.arrived s.session)[n]? := by
      change ((o.see i.session s.session).arrived (s.session.step delay i.session))[n]? = _
      rw [DriveLog.arrived_step, List.getElem?_append_left]
      by_contra hPast
      rw [List.getElem?_eq_none (by omega)] at hArrived
      exact absurd hArrived (by simp)
    rw [hStill]
    exact hArrived

theorem Tracking.step (h : Tracking delay bias gain first o s) (hSupplied : o.Supplied delay first s.session)
    (hEnslaved : Enslaved bias gain i.core) : Tracking delay bias gain first (seeSlave o i s) (s.step delay i) := by
  constructor
  · exact h.scheduled.step hSupplied
  · exact h.waits_step
  · intro hSome
    by_cases hNone : o.verdicts = []
    · exact ⟨[], h.fed_first hNone hSome⟩
    · obtain ⟨fed, hFed⟩ := h.fed hNone
      exact ⟨_, h.fed_next hNone hFed hEnslaved⟩
  · exact DrivePath.accLoadO_clock _ h.unloaded

end WrRfDemo.Network

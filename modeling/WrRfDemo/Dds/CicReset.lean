import WrRfDemo.Dds.DrivePath

/-! # The reset of the slave's CIC filter

`cic_reset_o` follows the comparator's `equal_o` as long as the state machine beside it waits, and
that one is released by a sample that is applied. The comparator works all the time, on what
the FIFO shows.
-/

namespace WrRfDemo.Dds

open Clocked Timing

inductive CicState
  | wait | done
deriving DecidableEq

structure CicPath where
  path : DrivePath
  cicState : CicState
deriving DecidableEq

namespace CicPath

def pCicResetFsm (i : DriveIn) (s : CicPath) : CicState :=
  if !i.rstN || !i.tmTimeValid || !i.slaveModeOn then .wait
  else match s.cicState with
  | .wait => if s.path.state = .waitTrigger ∧ s.path.tsHit = true ∧ i.tmTimeValid = true then .done else .wait
  | .done => if i.tmTimeValid then .done else .wait

def clock (i : DriveIn) (s : CicPath) : CicPath := ⟨s.path.clock i, s.pCicResetFsm i⟩

def cicResetO (i : DriveIn) (s : CicPath) : Bool :=
  !i.rstN || (i.tmTimeValid && s.path.tsHit && s.cicState == .wait && i.slaveModeOn)

/-- `p_drive_fsm` puts out a sample at the end of this cycle. -/
def Applies (i : DriveIn) (s : CicPath) : Prop :=
  DrivePath.on i = true ∧ s.path.state = .waitTrigger ∧ s.path.tsHit = true

instance (i : DriveIn) (s : CicPath) : Decidable (s.Applies i) := inferInstanceAs (Decidable (_ ∧ _))

end CicPath

/-! ### What the inputs say -/

/-- The comparison of a sample's time with the WR time. -/
structure Judgement where
  due : Bool
  ahead : Bool
deriving DecidableEq

def Judgement.at (sample now : Stamp 32 28) : Judgement := ⟨decide (sample = now), decide (now.Earlier sample)⟩

/-- The words that the FIFO has shown in the last four cycles outside reset, each with the delay of then, the latest first; the WR
time of the cycle before; and the judgement on earlier words. -/
structure Sight where
  shown0 : Stamp 32 28
  shown1 : Stamp 32 28
  shown2 : Stamp 32 28
  shown3 : Stamp 32 28
  time : Stamp 32 28
  last : Judgement
  now : Judgement
deriving DecidableEq

namespace Sight

def see (o : Sight) (i : DriveIn) (s : DrivePath) : Sight :=
  let time : Stamp 32 28 := ⟨field 0 32 i.tmTai, i.tmCycles⟩
  if i.rstN then
    ⟨TsAdder.sumOf refClkRate (s.adderIn i), o.shown0, o.shown1, o.shown2, time, .at o.shown3 o.time, o.last⟩
  else { o with time := time }

/-- What a state has kept of its past. -/
def of (s : DrivePath) : Sight where
  shown0 := s.adder.result0 refClkRate
  shown1 := s.adder.result1 refClkRate
  shown2 := s.adder.result2 refClkRate
  shown3 := s.adj
  time := s.tmD0
  last := ⟨s.compare.equalNext, s.compare.aGreatNext⟩
  now := ⟨s.tsHit, s.tsMiss⟩

theorem of_clock (i : DriveIn) (s : DrivePath) : of (s.clock i) = (of s).see i s := by
  cases hRst : i.rstN with
  | true =>
    have h0 : (s.clock i).adder.result0 refClkRate = _ := TsAdder.result0_clock refClkRate hRst rfl
    have h1 : (s.clock i).adder.result1 refClkRate = _ := TsAdder.result1_clock refClkRate hRst
    have h2 : (s.clock i).adder.result2 refClkRate = _ := TsAdder.result2_clock refClkRate hRst
    have h3 : (s.clock i).adj = _ := TsAdder.q_clock refClkRate hRst
    have hEqual : (s.clock i).compare.equalNext = _ := TsCompare.equalNext_clock hRst
    have hGreat : (s.clock i).compare.aGreatNext = _ := TsCompare.aGreatNext_clock hRst
    have hHit : (s.clock i).tsHit = _ := TsCompare.equalO_clock hRst
    have hMiss : (s.clock i).tsMiss = _ := TsCompare.aGreatO_clock hRst
    rw [of, h0, h1, h2, h3, hEqual, hGreat, hHit, hMiss, see, if_pos hRst]
    rfl
  | false =>
    obtain ⟨h0, h1, h2, h3⟩ := TsAdder.results_held refClkRate (s := s.adder) (i := s.adderIn i) hRst
    obtain ⟨hEqual, hGreat, hHit, hMiss⟩ := TsCompare.flags_held (s := s.compare) (i := s.compareIn i) hRst
    rw [see, if_neg (by simp [hRst])]
    simp only [of, DrivePath.clock, DrivePath.adj, DrivePath.tsHit, DrivePath.tsMiss, h0, h1, h2, h3, hEqual, hGreat, hHit, hMiss]

end Sight

/-- Whose turn it is in a session, by the words and the times alone. A word that the FIFO has is taken, and judged four cycles later,
or two if it was there right after the word before was turned down. It is turned down if the word that the comparator has come to by
then is ahead of time, and else kept until the time of a word comes. -/
inductive Turn
  | vacant (again : Bool)
  | taken (left : Nat)
  | kept
  | served
deriving DecidableEq

namespace Turn

def next (fifoEmpty : Bool) (judgement : Judgement) : Turn → Turn
  | vacant again => if fifoEmpty then vacant false else taken (if again then 1 else 3)
  | taken 0 => if judgement.ahead then vacant true else kept
  | taken (left + 1) => taken left
  | kept => if judgement.due then served else kept
  | served => served

end Turn

/-- What has happened since slave mode was last off, or without valid time. -/
structure CicLog where
  resets : Nat
  applied : Nat
  turn : Turn
  sight : Sight
deriving DecidableEq

namespace CicLog

def start (s : DrivePath) : CicLog := ⟨0, 0, .vacant false, .of s⟩

def see (o : CicLog) (i : DriveIn) (s : CicPath) : CicLog :=
  let sight := o.sight.see i s.path
  if DrivePath.on i then
    ⟨o.resets + if s.cicResetO i then 1 else 0, o.applied + if s.Applies i then 1 else 0,
      o.turn.next s.path.fifoEmpty o.sight.now, sight⟩
  else ⟨0, 0, .vacant false, sight⟩

end CicLog

/-- A reset outside `rst_n_ref_i` is the only one of its session, in the cycle of the first sample. -/
def ResetOnce (i : DriveIn) (p : CicLog × CicPath) : Prop :=
  i.rstN = true → p.2.cicResetO i = true → p.1.resets = 0 ∧ p.2.Applies i ∧ p.1.applied = 0

/-- Before the first sample of a session is served, the only word whose time comes is the one kept: none that is left from before
the session, and none that was turned down in it. -/
def Undisturbed (i : DriveIn) (p : CicLog × CicPath) : Prop :=
  DrivePath.on i = true → p.1.turn ≠ .served → p.1.sight.now.due = true → p.1.turn = .kept

instance (i : DriveIn) (p : CicLog × CicPath) : Decidable (ResetOnce i p) := inferInstanceAs (Decidable (_ → _))

instance (i : DriveIn) (p : CicLog × CicPath) : Decidable (Undisturbed i p) := inferInstanceAs (Decidable (_ → _))

namespace DrivePath

/-- The state machine has a word in its hands, to be judged in so many cycles. -/
def Judging (left : Nat) (s : DrivePath) : Prop :=
  s.state = .readSample ∧ s.compareEnable = false ∧ (left = 3 ∧ s.compare.stage1 = false ∨ left = 1 ∧ s.compare.stage1 = true) ∨
  s.state = .adjust ∧ s.compareEnable = true ∧ (left = 0 ∧ s.compareDone = true ∨
    s.compareDone = false ∧ (left = 1 ∧ s.compare.stage1 = true ∨ left = 2 ∧ s.compare.stage1 = false))

/-- The state machine is where the turn puts it, until the first sample is served. -/
def Follows (s : DrivePath) : Turn → Prop
  | .vacant again => s.state = .waitSample ∧ s.compareEnable = again
  | .taken left => s.Judging left
  | .kept => s.state = .waitTrigger
  | .served => True

variable {i : DriveIn} {s : DrivePath} {turn : Turn}

theorem on_iff : on i = true ↔ i.rstN = true ∧ i.slaveModeOn = true ∧ i.tmTimeValid = true := by
  simp [on, and_assoc]

theorem follows_off (hOff : on i = false) (s : DrivePath) : (s.clock i).Follows (.vacant false) := by
  simp [Follows, clock, pDriveFsm, hOff]

theorem stage1_clock (hOn : on i = true) : (s.clock i).compare.stage1 = s.compareEnable := by
  simp [clock, TsCompare.clock, compareIn, (on_iff.mp hOn).1]

theorem compareDone_clock (hOn : on i = true) : (s.clock i).compareDone = s.compare.stage1 := by
  simp [clock, compareDone, TsCompare.clock, compareIn, (on_iff.mp hOn).1]

theorem Judging.step {left : Nat} (h : s.Judging (left + 1)) (hOn : on i = true) : (s.clock i).Judging left := by
  have hStage := stage1_clock (s := s) hOn
  have hDone := compareDone_clock (s := s) hOn
  rcases h with ⟨hState, hEnable, hLeft⟩ | ⟨hState, hEnable, hLeft⟩
  · refine .inr ⟨?_, ?_, ?_⟩
    · simp [clock, pDriveFsm, hOn, hState]
    · simp [clock, pDriveFsm, hOn, hState]
    · rw [hStage, hDone, hEnable]
      rcases hLeft with ⟨hThree, hLow⟩ | ⟨hOne, hHigh⟩
      · exact .inr ⟨hLow, .inr ⟨by omega, rfl⟩⟩
      · exact .inl ⟨by omega, hHigh⟩
  · rcases hLeft with ⟨hNone, -⟩ | ⟨hWait, hLeft⟩
    · exact absurd hNone (Nat.succ_ne_zero left)
    · refine .inr ⟨?_, ?_, ?_⟩
      · simp [clock, pDriveFsm, hOn, hState, hWait]
      · simp [clock, pDriveFsm, hOn, hState, hWait, hEnable]
      · rw [hStage, hDone, hEnable]
        rcases hLeft with ⟨hOne, hHigh⟩ | ⟨hTwo, hLow⟩
        · exact .inl ⟨by omega, hHigh⟩
        · exact .inr ⟨hLow, .inl ⟨by omega, rfl⟩⟩

theorem Judging.done (h : s.Judging 0) : s.state = .adjust ∧ s.compareEnable = true ∧ s.compareDone = true := by
  simpa [Judging] using h

theorem Follows.step (h : s.Follows turn) (hOn : on i = true) {judgement : Judgement} (hNow : judgement = ⟨s.tsHit, s.tsMiss⟩) :
    (s.clock i).Follows (turn.next s.fifoEmpty judgement) := by
  subst hNow
  cases turn with
  | vacant again =>
    obtain ⟨hState, hEnable⟩ := h
    cases hEmpty : s.fifoEmpty with
    | true => simp [Turn.next, Follows, clock, pDriveFsm, hOn, hState, hEmpty]
    | false =>
      refine .inl ⟨?_, ?_, ?_⟩
      · simp [clock, pDriveFsm, hOn, hState, hEmpty]
      · simp [clock, pDriveFsm, hOn, hState, hEmpty]
      · rw [stage1_clock hOn, hEnable]
        cases again <;> simp
  | taken left =>
    cases left with
    | zero =>
      obtain ⟨hState, hEnable, hDone⟩ := Judging.done h
      cases hMiss : s.tsMiss <;> simp [Turn.next, Follows, clock, pDriveFsm, hOn, hState, hDone, hMiss, hEnable]
    | succ left => exact Judging.step h hOn
  | kept =>
    have hState : s.state = .waitTrigger := h
    cases hHit : s.tsHit <;> simp [Turn.next, Follows, clock, pDriveFsm, hOn, hState, hHit]
  | served => trivial

/-- Until the first sample is served, only a kept word is waited for. -/
theorem Follows.waits_iff (h : s.Follows turn) (hTurn : turn ≠ .served) : s.state = .waitTrigger ↔ turn = .kept := by
  cases turn with
  | vacant again => simp [h.1]
  | taken left => rcases h with ⟨hState, -⟩ | ⟨hState, -⟩ <;> simp [hState]
  | kept => exact iff_of_true h rfl
  | served => exact absurd rfl hTurn

end DrivePath

namespace CicPath

structure Tracks (p : CicLog × CicPath) : Prop where
  waits : p.2.cicState = .wait ↔ p.1.turn ≠ .served
  applied : p.1.applied = 0 ↔ p.1.turn ≠ .served
  fresh : p.1.applied = 0 → p.1.resets = 0
  sight : p.1.sight = .of p.2.path
  follows : p.2.path.Follows p.1.turn

variable {i : DriveIn} {p : CicLog × CicPath}

theorem cicResetO_iff (hRst : i.rstN = true) (s : CicPath) :
    s.cicResetO i = true ↔ DrivePath.on i = true ∧ s.path.tsHit = true ∧ s.cicState = .wait := by
  simp only [cicResetO, hRst, DrivePath.on_iff, Bool.not_true, Bool.false_or, Bool.and_eq_true, beq_iff_eq, true_and]
  constructor
  · rintro ⟨⟨⟨hTime, hHit⟩, hWait⟩, hSlave⟩
    exact ⟨⟨hSlave, hTime⟩, hHit, hWait⟩
  · rintro ⟨⟨hSlave, hTime⟩, hHit, hWait⟩
    exact ⟨⟨⟨hTime, hHit⟩, hWait⟩, hSlave⟩

theorem Tracks.now (h : Tracks p) : p.1.sight.now = ⟨p.2.path.tsHit, p.2.path.tsMiss⟩ := by
  rw [h.sight]
  rfl

theorem Tracks.applies_iff (h : Tracks p) (hOn : DrivePath.on i = true) (hTurn : p.1.turn ≠ .served) :
    p.2.Applies i ↔ p.1.turn = .kept ∧ p.1.sight.now.due = true := by
  rw [Applies, h.follows.waits_iff hTurn, h.now]
  exact and_iff_right hOn

theorem resetOnce_iff (h : Tracks p) : ResetOnce i p ↔ Undisturbed i p := by
  constructor
  · intro hOnce hOn hTurn hDue
    have hRst := (DrivePath.on_iff.mp hOn).1
    rw [h.now] at hDue
    have hReset := (cicResetO_iff hRst p.2).mpr ⟨hOn, hDue, h.waits.mpr hTurn⟩
    exact ((h.applies_iff hOn hTurn).mp (hOnce hRst hReset).2.1).1
  · intro hClear hRst hReset
    obtain ⟨hOn, hHit, hWait⟩ := (cicResetO_iff hRst p.2).mp hReset
    have hTurn := h.waits.mp hWait
    have hFirst := h.applied.mpr hTurn
    have hDue : p.1.sight.now.due = true := by
      rw [h.now]
      exact hHit
    exact ⟨h.fresh hFirst, (h.applies_iff hOn hTurn).mpr ⟨hClear hOn hTurn hDue, hDue⟩, hFirst⟩

theorem pCicResetFsm_eq (hOn : DrivePath.on i = true) (s : CicPath) :
    s.pCicResetFsm i = if s.cicState = .wait ∧ ¬s.Applies i then .wait else .done := by
  obtain ⟨hRst, hSlave, hTime⟩ := DrivePath.on_iff.mp hOn
  simp only [pCicResetFsm, Applies, hRst, hSlave, hTime, hOn]
  cases s.cicState with
  | wait => rcases em (s.path.state = .waitTrigger ∧ s.path.tsHit = true) with hHit | hMiss <;> simp_all
  | done => simp

theorem tracks_off (hOff : DrivePath.on i = false) (s : CicPath) : Tracks (CicLog.start (s.path.clock i), s.clock i) := by
  have hWait : s.pCicResetFsm i = .wait := by
    rw [pCicResetFsm, if_pos]
    rw [DrivePath.on] at hOff
    revert hOff
    cases i.rstN <;> cases i.slaveModeOn <;> cases i.tmTimeValid <;> simp
  refine ⟨?_, ?_, fun _ => rfl, rfl, DrivePath.follows_off hOff s.path⟩ <;> simp [clock, hWait, CicLog.start]

/-- The first sample is served when it is applied. -/
theorem Tracks.served_iff (h : Tracks p) (hOn : DrivePath.on i = true) :
    p.1.turn.next p.2.path.fifoEmpty p.1.sight.now ≠ .served ↔ p.1.turn ≠ .served ∧ ¬p.2.Applies i := by
  by_cases hTurn : p.1.turn = .served
  · simp [hTurn, Turn.next]
  · rw [h.applies_iff hOn hTurn]
    cases hNow : p.1.turn with
    | vacant again => cases p.2.path.fifoEmpty <;> simp [Turn.next]
    | taken left => cases left <;> cases hAhead : p.1.sight.now.ahead <;> simp [Turn.next, hAhead]
    | kept => cases hDue : p.1.sight.now.due <;> simp [Turn.next, hDue]
    | served => exact absurd hNow hTurn

theorem tracks_step (h : Tracks p) (hOnce : ResetOnce i p) : Tracks (watch clock CicLog.see i p) := by
  obtain ⟨o, s⟩ := p
  have hSight : o.sight.see i s.path = .of (s.path.clock i) := by
    rw [Sight.of_clock, ← h.sight]
  cases hOn : DrivePath.on i with
  | false =>
    have hOff := tracks_off hOn s
    rw [watch, CicLog.see, if_neg (by simp [hOn]), hSight]
    exact hOff
  | true =>
    have hNext : s.pCicResetFsm i = .wait ↔ s.cicState = .wait ∧ ¬s.Applies i := by
      rw [pCicResetFsm_eq hOn]
      split_ifs with hWait
      · exact iff_of_true rfl hWait
      · exact iff_of_false (by decide) hWait
    rw [watch, CicLog.see, if_pos hOn, hSight]
    refine ⟨?_, ?_, ?_, rfl, h.follows.step hOn h.now⟩
    · exact hNext.trans ((and_congr_left' h.waits).trans (h.served_iff hOn).symm)
    · rw [Nat.add_eq_zero_iff, h.served_iff hOn, h.applied]
      exact and_congr_right' (by split_ifs with hApplies <;> simp [hApplies])
    · simp only [Nat.add_eq_zero_iff]
      rintro ⟨hFirst, hNone⟩
      have hNot : ¬s.Applies i := by
        intro hApplies
        simp [hApplies] at hNone
      refine ⟨h.fresh hFirst, if_neg ?_⟩
      exact fun hReset => hNot (hOnce (DrivePath.on_iff.mp hOn).1 hReset).2.1

def powerUp : CicPath :=
  let zero : TsSum 2 28 32 := ⟨0, 0, 0⟩
  ⟨⟨[], 0, ⟨false, false, false, false, zero, zero, zero, ⟨false, 0⟩, zero⟩, ⟨0, 0⟩,
    ⟨false, false, false, false, false, false, false, false, false⟩, .waitSample, false, false, false, 0, 0, 0, 0, false⟩, .wait⟩

def tick (cycles : BitVec 28) (slave : Bool) (arrivals : List (BitVec 128)) : DriveIn :=
  ⟨true, slave, true, 7, cycles, 0, false, arrivals⟩

end CicPath

end WrRfDemo.Dds

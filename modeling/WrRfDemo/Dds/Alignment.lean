import WrRfDemo.Clocked.Pipeline
import WrRfDemo.Dds.DriveRun

/-! # Which sample a comparison is about

A sample takes six cycles from the FIFO output through the adder and the comparator. The state machine
leaves `DRV_ADJUST` before that, always, and leaves `DRV_WAIT_TRIGGER` on a comparison of the sample at
hand exactly when that has been on show for six cycles.
-/

namespace WrRfDemo.Dds

open Clocked Timing

structure Origin where
  sample : Nat
  adjusted : Stamp 32 28
deriving DecidableEq

structure Comparison where
  origin : Origin
  time : Stamp 32 28
deriving DecidableEq

/-- The sample on `fifo_out`, and what the stages of the adder and of the comparator were computed from,
if they have been filled. -/
structure Provenance where
  source : Source
  sum0 : Option Origin
  sum1 : Option Origin
  sum2 : Option Origin
  sum3 : Option Origin
  flags : Option Comparison
  outputs : Option Comparison
deriving DecidableEq

namespace Provenance

def unfilled : Provenance := ⟨⟨0, 0⟩, none, none, none, none, none, none⟩

def see (o : Provenance) (i : DriveIn) (s : DrivePath) : Provenance :=
  let source := o.source.next s.fifoRd i.rstN
  if i.rstN then
    { source := source
      sum0 := some ⟨o.source.item, TsAdder.sumOf refClkRate (s.adderIn i)⟩
      sum1 := o.sum0
      sum2 := o.sum1
      sum3 := o.sum2
      flags := o.sum3.map fun origin => ⟨origin, s.tmD0⟩
      outputs := o.flags }
  else { o with source := source }

/-- The comparator's outputs are about the sample on `fifo_out`. -/
def Current (o : Provenance) : Prop := o.outputs.map (fun c => c.origin.sample) = some o.source.item

instance (o : Provenance) : Decidable o.Current := inferInstanceAs (Decidable (_ = _))

/-- The registers hold what they are said to be computed from. -/
structure Explains (o : Provenance) (s : DrivePath) : Prop where
  sum0 : ∀ origin ∈ o.sum0, s.adder.result0 refClkRate = origin.adjusted
  sum1 : ∀ origin ∈ o.sum1, s.adder.result1 refClkRate = origin.adjusted
  sum2 : ∀ origin ∈ o.sum2, s.adder.result2 refClkRate = origin.adjusted
  sum3 : ∀ origin ∈ o.sum3, s.adj = origin.adjusted
  flags : ∀ c ∈ o.flags, s.compare.equalNext = decide (c.origin.adjusted = c.time) ∧
    s.compare.aGreatNext = decide (c.time.Earlier c.origin.adjusted)
  outputs : ∀ c ∈ o.outputs, s.tsHit = decide (c.origin.adjusted = c.time) ∧
    s.tsMiss = decide (c.time.Earlier c.origin.adjusted)

structure Placed (o : Provenance) : Prop where
  sum0 : o.source.Feeds 1 (o.sum0.map Origin.sample)
  sum1 : o.source.Feeds 2 (o.sum1.map Origin.sample)
  sum2 : o.source.Feeds 3 (o.sum2.map Origin.sample)
  sum3 : o.source.Feeds 4 (o.sum3.map Origin.sample)
  flags : o.source.Feeds 5 (o.flags.map fun c => c.origin.sample)
  outputs : o.source.Feeds 6 (o.outputs.map fun c => c.origin.sample)

variable {i : DriveIn} {s : DrivePath} {o : Provenance}

theorem explains_unfilled (s : DrivePath) : unfilled.Explains s := by
  constructor <;> simp [unfilled]

theorem placed_unfilled : unfilled.Placed := by
  constructor <;> exact Source.feeds_none (by decide)

theorem see_on (hRst : i.rstN = true) : o.see i s =
    ⟨o.source.next s.fifoRd true, some ⟨o.source.item, TsAdder.sumOf refClkRate (s.adderIn i)⟩, o.sum0, o.sum1, o.sum2,
      o.sum3.map fun origin => ⟨origin, s.tmD0⟩, o.flags⟩ := by
  rw [see, hRst, if_pos rfl]

theorem see_held (hRst : i.rstN = false) : o.see i s = { o with source := o.source.next s.fifoRd false } := by
  simp [see, hRst]

theorem Explains.step (h : o.Explains s) : (o.see i s).Explains (s.clock i) := by
  cases hRst : i.rstN with
  | true =>
    rw [see_on hRst]
    constructor
    · intro origin hMem
      rw [← Option.mem_some_iff.mp hMem]
      exact TsAdder.result0_clock refClkRate hRst rfl
    · intro origin hMem
      exact (TsAdder.result1_clock refClkRate hRst).trans (h.sum0 origin hMem)
    · intro origin hMem
      exact (TsAdder.result2_clock refClkRate hRst).trans (h.sum1 origin hMem)
    · intro origin hMem
      exact (TsAdder.q_clock refClkRate hRst).trans (h.sum2 origin hMem)
    · intro c hMem
      obtain ⟨origin, hOrigin, rfl⟩ := Option.map_eq_some_iff.mp hMem
      have hAdj : (s.compareIn i).a = origin.adjusted := h.sum3 origin hOrigin
      refine ⟨(TsCompare.equalNext_clock hRst).trans ?_, (TsCompare.aGreatNext_clock hRst).trans ?_⟩ <;> rw [hAdj] <;> rfl
    · intro c hMem
      obtain ⟨hEqual, hGreat⟩ := h.flags c hMem
      exact ⟨(TsCompare.equalO_clock hRst).trans hEqual, (TsCompare.aGreatO_clock hRst).trans hGreat⟩
  | false =>
    obtain ⟨h0, h1, h2, h3⟩ := TsAdder.results_held refClkRate (s := s.adder) (i := s.adderIn i) hRst
    obtain ⟨hEqualNext, hGreatNext, hEqual, hGreat⟩ := TsCompare.flags_held (s := s.compare) (i := s.compareIn i) hRst
    rw [see_held hRst]
    constructor
    · exact fun origin hMem => h0.trans (h.sum0 origin hMem)
    · exact fun origin hMem => h1.trans (h.sum1 origin hMem)
    · exact fun origin hMem => h2.trans (h.sum2 origin hMem)
    · exact fun origin hMem => h3.trans (h.sum3 origin hMem)
    · exact fun c hMem => ⟨hEqualNext.trans (h.flags c hMem).1, hGreatNext.trans (h.flags c hMem).2⟩
    · exact fun c hMem => ⟨hEqual.trans (h.outputs c hMem).1, hGreat.trans (h.outputs c hMem).2⟩

theorem Placed.step (h : o.Placed) : (o.see i s).Placed := by
  cases hRst : i.rstN with
  | true =>
    rw [see_on hRst]
    refine ⟨Source.feeds_first _ _, h.sum0.moves _, h.sum1.moves _, h.sum2.moves _, ?_, h.flags.moves _⟩
    rw [Option.map_map]
    exact h.sum3.moves _
  | false =>
    rw [see_held hRst]
    exact ⟨h.sum0.holds (by decide) _, h.sum1.holds (by decide) _, h.sum2.holds (by decide) _, h.sum3.holds (by decide) _,
      h.flags.holds (by decide) _, h.outputs.holds (by decide) _⟩

end Provenance

namespace DrivePath

/-- `p_drive_fsm` acts on the comparator: on `compare_done` or on `ts_hit`. -/
def Departs (i : DriveIn) (s : DrivePath) : Prop :=
  on i = true ∧ (s.state = .adjust ∧ s.compareDone = true ∨ s.state = .waitTrigger ∧ s.tsHit = true)

instance (i : DriveIn) (s : DrivePath) : Decidable (s.Departs i) := inferInstanceAs (Decidable (_ ∧ (_ ∨ _)))

variable {i : DriveIn} {s : DrivePath} {o : Provenance}

/-- A sample is read in its own state, and then the comparator's valid bit comes up within two cycles. -/
structure Paced (o : Provenance) (s : DrivePath) : Prop where
  reads : s.fifoRd = (s.state == .readSample)
  early : s.state = .adjust → o.source.age ≤ 2 ∧ s.compareEnable = true ∧ (1 ≤ o.source.age → s.compare.stage1 = true) ∧
    (2 ≤ o.source.age → s.compareDone = true)

theorem reads_clock (hReads : s.fifoRd = (s.state == .readSample)) :
    (s.clock i).fifoRd = ((s.clock i).state == .readSample) := by
  cases hOn : on i with
  | false => simp [clock, pDriveFsm, hOn]
  | true =>
    cases hState : s.state with
    | readSample => simp [clock, pDriveFsm, hOn, hState]
    | waitSample | adjust | waitTrigger =>
      rw [hState] at hReads
      simp only [clock, pDriveFsm, hOn, hState]
      split_ifs <;> simp_all

theorem source_see (o : Provenance) (i : DriveIn) (s : DrivePath) : (o.see i s).source = o.source.next s.fifoRd i.rstN := by
  cases hRst : i.rstN <;> simp [Provenance.see, hRst]

theorem adjust_of_clock (hNext : (s.clock i).state = .adjust) :
    on i = true ∧ (s.state = .readSample ∨ s.state = .adjust ∧ s.compareDone = false) := by
  change (s.pDriveFsm i).state = .adjust at hNext
  cases hOn : on i with
  | false => simp [pDriveFsm, hOn] at hNext
  | true =>
    refine ⟨rfl, ?_⟩
    cases hState : s.state with
    | readSample => exact .inl rfl
    | adjust =>
      cases hDone : s.compareDone with
      | false => exact .inr ⟨rfl, rfl⟩
      | true =>
        cases hMiss : s.tsMiss <;> simp [pDriveFsm, hOn, hState, hDone, hMiss] at hNext
    | waitSample | waitTrigger =>
      simp only [pDriveFsm, hOn, hState] at hNext
      split_ifs at hNext

theorem Paced.step (h : Paced o s) : Paced (o.see i s) (s.clock i) := by
  refine ⟨reads_clock h.reads, fun hNext => ?_⟩
  obtain ⟨hOn, hFrom⟩ := adjust_of_clock hNext
  have hRst : i.rstN = true := by
    simp only [on, Bool.and_eq_true] at hOn
    exact hOn.1.1
  have hStage : (s.clock i).compare.stage1 = s.compareEnable := by simp [clock, TsCompare.clock, compareIn, hRst]
  have hValid : (s.clock i).compareDone = s.compare.stage1 := by simp [clock, compareDone, TsCompare.clock, compareIn, hRst]
  have hEnable : (s.clock i).compareEnable = (s.pDriveFsm i).compareEnable := rfl
  rw [source_see, hStage, hValid, hEnable, h.reads]
  rcases hFrom with hState | ⟨hState, hDone⟩
  · have hUp : (s.pDriveFsm i).compareEnable = true := by simp [pDriveFsm, hOn, hState]
    simp [hState, Source.next, hUp]
  · obtain ⟨hAge, hUp, hFirst, hSecond⟩ := h.early hState
    have hLess : ¬2 ≤ o.source.age := by
      intro hLate
      rw [hSecond hLate] at hDone
      cases hDone
    have hStays : (s.pDriveFsm i).compareEnable = true := by simp [pDriveFsm, hOn, hState, hDone, hUp]
    simp only [hState, hRst, Source.next, hStays, hUp]
    refine ⟨?_, trivial, fun _ => trivial, fun hLate => hFirst ?_⟩
    · simp
      omega
    · simpa using hLate

end DrivePath

/-- In every state reached from a reset, `p_drive_fsm` acts on a comparison of the sample at hand if and only if
it leaves `DRV_WAIT_TRIGGER` and the sample has been on show for six cycles. -/
theorem departures_current_iff (s : DrivePath) (hReset : s.state = .waitSample ∧ s.fifoRd = false) (inputs : List DriveIn)
    (i : DriveIn) :
    let p := run (watch DrivePath.clock Provenance.see) inputs (.unfilled, s)
    p.1.Explains p.2 ∧ (p.2.Departs i → (p.1.Current ↔ p.2.state = .waitTrigger ∧ 6 ≤ p.1.source.age)) := by
  intro p
  have hInit : Provenance.unfilled.Explains s ∧ Provenance.unfilled.Placed ∧ DrivePath.Paced .unfilled s :=
    ⟨Provenance.explains_unfilled s, Provenance.placed_unfilled, by simp [hReset], by simp [hReset]⟩
  have hStep : ∀ o i s, Provenance.Explains o s ∧ o.Placed ∧ DrivePath.Paced o s → True →
      (o.see i s).Explains (s.clock i) ∧ (o.see i s).Placed ∧ DrivePath.Paced (o.see i s) (s.clock i) :=
    fun o i s h _ => ⟨h.1.step, h.2.1.step, h.2.2.step⟩
  obtain ⟨hExplains, hPlaced, hPaced⟩ := watch_invariant hStep inputs hInit (along_of_forall (fun _ _ _ => trivial) s)
  refine ⟨hExplains, fun hDeparts => ?_⟩
  have hCurrent : p.1.Current ↔ 6 ≤ p.1.source.age := hPlaced.outputs.present
  rw [hCurrent]
  rcases hDeparts.2 with ⟨hState, -⟩ | ⟨hState, -⟩
  · have hEarly : p.1.source.age ≤ 2 := (hPaced.early hState).1
    rw [hState]
    simp
    omega
  · simp [hState]

/-! ### Two samples, the second read as soon as the first is applied -/

/-- A cycle in slave mode at the given tick, with a delay of 10 cycles; both samples arrive at tick 1002. -/
def slaveCycle (tick : Nat) : DriveIn :=
  Session.driveIn 10 ⟨if tick = 1002 then [sampleWord 1000, sampleWord 1020] else [], false⟩ ⟨drivePowerUp, tick⟩

def slaveRun (cycles : Nat) : Provenance × DrivePath :=
  run (watch DrivePath.clock Provenance.see) ((List.range cycles).map fun k => slaveCycle (1000 + k))
    (.unfilled, drivePowerUp.clock driveOff)

theorem departures_current_first : (slaveRun 13).2.Departs (slaveCycle 1013) ∧ (slaveRun 13).1.Current := by
  have hDeparts : (slaveRun 13).2.Departs (slaveCycle 1013) := by decide +kernel
  have hExact := (departures_current_iff (drivePowerUp.clock driveOff) ⟨rfl, rfl⟩
    ((List.range 13).map fun k => slaveCycle (1000 + k)) (slaveCycle 1013)).2 hDeparts
  exact ⟨hDeparts, hExact.mpr (by decide +kernel)⟩

/-- The second sample leaves `DRV_ADJUST` on the comparison of the first. -/
theorem judged_by_sample_before :
    (slaveRun 16).2.state = .adjust ∧ (slaveRun 16).1.source.item = 2 ∧
    (slaveRun 16).1.outputs.map (fun c => c.origin.sample) = some 1 ∧
    ¬ ∀ (inputs : List DriveIn) (i : DriveIn),
      let p := run (watch DrivePath.clock Provenance.see) inputs (.unfilled, drivePowerUp.clock driveOff)
      p.2.Departs i → p.1.Current := by
  refine ⟨by decide +kernel, by decide +kernel, by decide +kernel, fun hAll => ?_⟩
  have hDeparts : (slaveRun 16).2.Departs (slaveCycle 1016) := by decide +kernel
  have hCurrent : (slaveRun 16).1.Current := hAll _ (slaveCycle 1016) hDeparts
  revert hCurrent
  decide +kernel

end WrRfDemo.Dds

import WrRfDemo.Adc.Acquisition

/-! # Any pattern of triggers

A run after reset is cut into acquisitions, one for each trigger that is seen while the interface waits. The triggers
that are not seen leave no trace.
-/

namespace WrRfDemo.Adc

open Clocked

namespace Ad7980

variable {numDataBits : Nat} {s : Ad7980 numDataBits}

theorem waiting_of_reset {r : AdcIn} (hReset : r.rstN = false) (s : Ad7980 numDataBits) : Waiting (s.clock r) := by
  refine ⟨?_, ?_, ?_, ?_, ?_, Or.inl ?_⟩
  · simp [pAcquire, hReset]
  · simp [pAcquire, hReset]
  · simp [pAcquire, hReset]
  · simp [SpiMaster.clock, SpiMaster.pMainFsm, spiIn, hReset]
  · simp [SpiMaster.clock, SpiMaster.pMainFsm, spiIn, hReset]
  · simp [SpiMaster.clock, SpiMaster.pMainFsm, spiIn, hReset]

/-- Events that are acquisitions one after the other, the last of them perhaps still going on. -/
def InBursts (events : List (Event numDataBits)) (last : Ad7980 numDataBits) : Prop :=
  ∃ bursts : List (List Bool), (∀ levels ∈ bursts, levels.length = numDataBits) ∧
    (events = bursts.flatMap acquisition ∧ Waiting last ∨
      Busy last ∧ ∃ levels : List Bool, levels.length = numDataBits ∧
        ∃ begun, begun <+: acquisition levels ∧ events = bursts.flatMap acquisition ++ begun)

theorem InBursts.cons {levels : List Bool} (hFull : levels.length = numDataBits) {events : List (Event numDataBits)}
    (h : InBursts events s) : InBursts (acquisition levels ++ events) s := by
  obtain ⟨bursts, hAll, hEnd⟩ := h
  refine ⟨levels :: bursts, ?_, ?_⟩
  · intro burst hBurst
    rcases List.mem_cons.mp hBurst with rfl | hRest
    · exact hFull
    · exact hAll burst hRest
  · rcases hEnd with ⟨rfl, hWaiting⟩ | ⟨hBusy, last, hLast, begun, hBegun, rfl⟩
    · exact Or.inl ⟨by rw [List.flatMap_cons], hWaiting⟩
    · exact Or.inr ⟨hBusy, last, hLast, begun, hBegun, by rw [List.flatMap_cons, List.append_assoc]⟩

theorem Waiting.acquires (h : Waiting s) (hBits : 2 ≤ numDataBits ∧ numDataBits ≤ 31) {i : AdcIn} {burst : List AdcIn}
    (hRun : ∀ j ∈ i :: burst, j.rstN = true) (hTrig : i.trig = true) (hCycles : burst.length = acquisitionCycles numDataBits) :
    Along clock (fun _ s => Busy s) burst (s.clock i) ∧ ∃ levels : List Bool, levels.length = numDataBits ∧
      trace clock emit (i :: burst) s = acquisition levels ∧ Waiting (run clock (i :: burst) s) := by
  obtain ⟨hFirst, hConverting⟩ := h.trigger (hRun i List.mem_cons_self) hTrig
  have hOk : ∀ j ∈ burst, j.rstN = true := fun j hj => hRun j (List.mem_cons_of_mem i hj)
  obtain ⟨hBusy, levels, hFull, hEvents, hWaiting⟩ := leads_acquisition hBits burst _ hCycles hOk hConverting
  refine ⟨hBusy, levels, hFull, ?_, hWaiting⟩
  rw [trace, hFirst]
  exact hEvents

/-! ### Triggers far apart -/

/-- The last trigger came so many cycles ago, and was not missed. -/
structure Since (age : Nat) (s : Ad7980 numDataBits) : Prop where
  waiting : acquisitionCycles numDataBits < age → Waiting s
  acquiring : age ≤ acquisitionCycles numDataBits →
    ∃ (ready : Ad7980 numDataBits) (i : AdcIn) (burst : List AdcIn), Waiting ready ∧ i.trig = true ∧
      (∀ j ∈ i :: burst, j.rstN = true) ∧ burst.length + 1 = age ∧ s = run clock (i :: burst) ready

theorem Waiting.since (h : Waiting s) {age : Nat} (hLate : acquisitionCycles numDataBits < age) : Since age s :=
  ⟨fun _ => h, fun hEarly => absurd hLate (Nat.not_lt.mpr hEarly)⟩

theorem Waiting.since_one (h : Waiting s) {i : AdcIn} (hRst : i.rstN = true) (hTrig : i.trig = true) : Since 1 (s.clock i) := by
  refine ⟨fun hLate => ?_, fun _ => ⟨s, i, [], h, hTrig, by simpa using hRst, rfl, rfl⟩⟩
  rw [acquisitionCycles] at hLate
  omega

/-- By the end of an acquisition the interface waits. -/
theorem Since.clock (hBits : 2 ≤ numDataBits ∧ numDataBits ≤ 31) {age : Nat} (h : Since age s) {i : AdcIn} (hRst : i.rstN = true)
    (hTrig : i.trig = false) : Since (age + 1) (s.clock i) := by
  rcases Nat.lt_or_ge (acquisitionCycles numDataBits) age with hLate | hEarly
  · exact ((h.waiting hLate).stays hRst hTrig).2.since (Nat.lt_succ_of_lt hLate)
  · obtain ⟨ready, first, burst, hReady, hFirst, hOk, rfl, rfl⟩ := h.acquiring hEarly
    have hMore : ∀ j ∈ first :: (burst ++ [i]), j.rstN = true := by
      rw [← List.cons_append]
      exact List.forall_mem_append.mpr ⟨hOk, by simpa using hRst⟩
    have hRun : (run Ad7980.clock (first :: burst) ready).clock i = run Ad7980.clock (first :: (burst ++ [i])) ready := by
      rw [← List.cons_append, run_append]
      rfl
    have hLength : (burst ++ [i]).length = burst.length + 1 := by simp
    rw [hRun]
    refine ⟨fun hEnds => ?_, fun _ => ⟨ready, first, burst ++ [i], hReady, hFirst, hMore, by omega, rfl⟩⟩
    obtain ⟨-, -, -, -, hWaiting⟩ := hReady.acquires hBits hMore hFirst (by omega)
    exact hWaiting

theorem Waiting.runs (hBits : 2 ≤ numDataBits ∧ numDataBits ≤ 31) {inputs : List AdcIn} (h : Waiting s)
    (hRun : ∀ i ∈ inputs, i.rstN = true) : InBursts (trace clock emit inputs s) (run clock inputs s) := by
  -- on the cycles that are left; a whole acquisition is one step
  induction hLength : inputs.length using Nat.strong_induction_on generalizing inputs s with
  | h n ih =>
    cases inputs with
    | nil => exact ⟨[], by simp, Or.inl ⟨rfl, h⟩⟩
    | cons i rest =>
      have hRst := hRun i List.mem_cons_self
      have hRest : ∀ j ∈ rest, j.rstN = true := fun j hj => hRun j (List.mem_cons_of_mem i hj)
      rw [List.length_cons] at hLength
      cases hTrig : i.trig with
      | false =>
        obtain ⟨hNone, hStays⟩ := h.stays hRst hTrig
        rw [trace, hNone, List.nil_append]
        exact ih rest.length (by omega) hStays hRest rfl
      | true =>
        obtain ⟨hFirst, hConverting⟩ := h.trigger hRst hTrig
        rcases Nat.lt_or_ge rest.length (acquisitionCycles numDataBits) with hShort | hEnough
        · obtain ⟨hBusy, events, last, ⟨levels, hFull, hEvents, -⟩, hBegun⟩ :=
            Clockwork.Leads.cut (leads_acquisition hBits) hRst hShort hRest hConverting
          refine ⟨[], by simp, Or.inr ⟨hBusy, levels, hFull, trace clock emit (i :: rest) s, ?_, rfl⟩⟩
          rw [trace, hFirst, ← hEvents]
          exact (List.prefix_append_right_inj _).mpr hBegun
        · obtain ⟨burst, later, rfl, hCycles⟩ : ∃ burst later, rest = burst ++ later ∧
              burst.length = acquisitionCycles numDataBits :=
            ⟨_, _, (List.take_append_drop _ rest).symm, List.length_take_of_le hEnough⟩
          have hBurst : ∀ j ∈ i :: burst, j.rstN = true :=
            fun j hj => hRun j (List.mem_append_left later hj)
          obtain ⟨-, levels, hFull, hEvents, hWaiting⟩ := h.acquires hBits hBurst hTrig hCycles
          have hLater := ih later.length (by rw [List.length_append] at hLength; omega) hWaiting
            (fun j hj => hRest j (List.mem_append_right burst hj)) rfl
          rw [← List.cons_append, trace_append, run_append, hEvents]
          exact hLater.cons hFull

theorem unseen {i : AdcIn} (hBusy : s.state ≠ .waitTrig) (trig : Bool) :
    s.clock { i with trig := trig } = s.clock i ∧ s.emit { i with trig := trig } = s.emit i := by
  have hAcquire : s.pAcquire { i with trig := trig } = s.pAcquire i := by
    rw [pAcquire, pAcquire]
    cases hState : s.state with
    | waitTrig => exact absurd hState hBusy
    | startCnv => rfl
    | readback => rfl
  have hClock : s.clock { i with trig := trig } = s.clock i := by
    rw [clock, hAcquire]
    rfl
  refine ⟨hClock, ?_⟩
  rw [emit, emit, hClock]
  simp [hBusy]

structure Acquires (inputs : List AdcIn) (s : Ad7980 numDataBits) : Prop where
  inBursts : InBursts (trace clock emit inputs s) (run clock inputs s)
  /-- A trigger that is seen leads to one acquisition, and the interface waits again at its end and not before. -/
  completes : ∀ before i burst after, inputs = before ++ i :: burst ++ after → (run clock before s).state = .waitTrig →
    i.trig = true → burst.length = acquisitionCycles numDataBits →
      (∃ levels : List Bool, levels.length = numDataBits ∧
        trace clock emit (i :: burst) (run clock before s) = acquisition levels) ∧
      (run clock (before ++ i :: burst) s).state = .waitTrig ∧
      ∀ cut more, burst = cut ++ more → more ≠ [] → (run clock (before ++ i :: cut) s).state ≠ .waitTrig
  /-- A transfer is started only where the SPI master is idle. -/
  idleFirst : ∀ before after, inputs = before ++ after → (run clock before s).doAcq = true →
    (run clock before s).spi.state = .idle
  /-- The triggers in the cycles in which the interface does not wait may as well be others. -/
  ignores : ∀ before i after, inputs = before ++ i :: after → (run clock before s).state ≠ .waitTrig → ∀ trig,
    run clock (before ++ { i with trig := trig } :: after) s = run clock inputs s ∧
      trace clock emit (before ++ { i with trig := trig } :: after) s = trace clock emit inputs s

theorem InBursts.waiting_or_busy {events : List (Event numDataBits)} (h : InBursts events s) : Waiting s ∨ Busy s := by
  obtain ⟨-, -, ⟨-, hWaiting⟩ | ⟨hBusy, -⟩⟩ := h
  · exact Or.inl hWaiting
  · exact Or.inr hBusy

theorem triggers_acquire (hBits : 2 ≤ numDataBits ∧ numDataBits ≤ 31) (s : Ad7980 numDataBits) {r : AdcIn}
    (hReset : r.rstN = false) {inputs : List AdcIn} (hRun : ∀ i ∈ inputs, i.rstN = true) :
    Acquires inputs (s.clock r) := by
  have hFirst := waiting_of_reset hReset s
  have hReached : ∀ before after, inputs = before ++ after →
      Waiting (run clock before (s.clock r)) ∨ Busy (run clock before (s.clock r)) := by
    rintro before after rfl
    exact (hFirst.runs hBits fun i hi => hRun i (List.mem_append_left after hi)).waiting_or_busy
  refine ⟨hFirst.runs hBits hRun, ?_, ?_, ?_⟩
  · rintro before i burst after rfl hWaits hTrig hCycles
    have hBefore : Waiting (run clock before (s.clock r)) := by
      rcases hReached before (i :: burst ++ after) (List.append_assoc _ _ _) with hWaiting | hBusy
      · exact hWaiting
      · exact absurd hWaits hBusy.1
    have hBurst : ∀ j ∈ i :: burst, j.rstN = true :=
      fun j hj => hRun j (List.mem_append_left after (List.mem_append_right before hj))
    obtain ⟨hAlong, levels, hFull, hEvents, hWaiting⟩ := hBefore.acquires hBits hBurst hTrig hCycles
    refine ⟨⟨levels, hFull, hEvents⟩, ?_, ?_⟩
    · rw [run_append]
      exact hWaiting.state
    · rintro cut more rfl hMore
      obtain ⟨j, rest, rfl⟩ := List.exists_cons_of_ne_nil hMore
      rw [run_append, run_cons]
      exact (along_append.mp hAlong).2.1.1
  · intro before after hSplit hStart
    rcases hReached before after hSplit with hWaiting | hBusy
    · rw [hWaiting.doAcq] at hStart
      cases hStart
    · exact hBusy.2 hStart
  · rintro before i after rfl hBusy trig
    obtain ⟨hClock, hEmit⟩ := unseen hBusy trig
    rw [run_append, run_append, trace_append, trace_append, run_cons, run_cons, trace, trace, hClock, hEmit]
    exact ⟨rfl, rfl⟩

def powerUp : Ad7980 16 where
  spi := ⟨0, .idle, false, 0, 0, false, 0, false, 0⟩
  count := 0
  adcCnvO := false
  doAcq := false
  state := .waitTrig

/-- The trigger and the data are held high. -/
theorem triggers_acquire_held :
    Acquires (List.replicate 2000 ⟨true, true, true⟩) (powerUp.clock ⟨false, false, false⟩) :=
  triggers_acquire ⟨by decide, by decide⟩ powerUp rfl fun _ hi => by rw [List.eq_of_mem_replicate hi]

end Ad7980

end WrRfDemo.Adc

import Mathlib.Tactic.IntervalCases
import Mathlib.Tactic.Ring
import WrRfDemo.Adc.Ad7980
import WrRfDemo.Clocked.Delay
import WrRfDemo.Clocked.Leads

/-! # One acquisition for each trigger

What can be seen at the pins is a list of events. A trigger that is seen while the interface waits is followed by
one conversion pulse, one clock pulse for each data bit, and one valid word, after a fixed number of
cycles.
-/

namespace WrRfDemo.Adc

open Clocked

inductive Event (numDataBits : Nat)
  | trigger
  | cnvUp
  | cnvDown
  | sckUp
  | sample (level : Bool)
  | sckDown
  | valid (d : BitVec numDataBits)
deriving DecidableEq

variable {numDataBits : Nat}

def edge (up down : Event numDataBits) (before after : Bool) : List (Event numDataBits) :=
  if before = after then [] else if after then [up] else [down]

/-- The events of a cycle and of the clock edge at its end; the level of `adc_sdo_i` is one where it is shifted in. -/
def Ad7980.emit (i : AdcIn) (s : Ad7980 numDataBits) : List (Event numDataBits) :=
  (if s.state = .waitTrig ∧ i.trig = true then [.trigger] else []) ++
    edge .cnvUp .cnvDown s.adcCnvO (s.clock i).adcCnvO ++
    edge .sckUp .sckDown (s.adcSckO i) ((s.clock i).adcSckO i) ++
    (if s.spi.state = .txDat2 ∧ s.spi.tick 3 = true then [.sample i.adcSdo] else []) ++
    if s.dValidO then [.valid s.dO] else []

/-- The number that levels stand for, the first one in the most significant place. -/
def number (levels : List Bool) : Nat := levels.foldl (fun v level => 2 * v + level.toNat) 0

def pulse (level : Bool) : List (Event numDataBits) := [.sckUp, .sample level, .sckDown]

/-- What one trigger leads to. -/
def acquisition (levels : List Bool) : List (Event numDataBits) :=
  [.trigger, .cnvUp, .cnvDown] ++ levels.flatMap pulse ++ [.valid (BitVec.ofNat numDataBits (number levels))]

/-- The cycles from a trigger to the end of its acquisition. -/
def acquisitionCycles (numDataBits : Nat) : Nat := 121 + 36 * numDataBits

/-! ### The phases of the SPI master -/

namespace SpiMaster

variable {s : SpiMaster numDataBits} {i : SpiIn numDataBits}

theorem tick_iff (h : s.divider.toNat ≤ 8) : s.tick 3 = true ↔ s.divider.toNat = 8 := by
  rw [tick, BitVec.getLsbD]
  generalize s.divider.toNat = d at h
  interval_cases d <;> decide

theorem toNat_divider_clock (hRst : i.rstN = true) (hStart : i.start = false) (h : s.divider.toNat < 8) :
    (s.clock 3 i).divider.toNat = s.divider.toNat + 1 := by
  have hTick : s.tick 3 = false := by
    rw [← Bool.not_eq_true, tick_iff (Nat.le_of_lt h)]
    omega
  simp only [clock, pDivideSpiClock, hRst, hStart, hTick, Bool.not_true, Bool.or_self, Bool.false_eq_true, if_false]
  rw [BitVec.toNat_add]
  exact Nat.mod_eq_of_lt (by simp; omega)

theorem clock_eq (hRst : i.rstN = true) (divRatioLog2 : Nat) : s.clock divRatioLog2 i =
    { s.mainFsm (s.tick divRatioLog2) i with divider := s.pDivideSpiClock divRatioLog2 i } := by
  simp [clock, pMainFsm, hRst]

/-- Nothing is going on; a gap that is left over ends within `left` cycles. -/
structure Quiet (left : Nat) (s : SpiMaster numDataBits) : Prop where
  sclk : s.sclk = false
  drdy : s.drdyO = false
  gap : s.state = .idle ∨ s.state = .txGap ∧ s.divider.toNat ≤ 8 ∧ 9 ≤ s.divider.toNat + left

theorem Quiet.mono {left more : Nat} (h : s.Quiet left) (hMore : left ≤ more) : s.Quiet more := by
  refine ⟨h.sclk, h.drdy, ?_⟩
  rcases h.gap with hIdle | ⟨hGap, hLow, hHigh⟩
  · exact Or.inl hIdle
  · exact Or.inr ⟨hGap, hLow, by omega⟩

theorem Quiet.clock {left : Nat} (h : s.Quiet left) (hRst : i.rstN = true) (hStart : i.start = false) :
    (s.clock 3 i).Quiet (left - 1) := by
  rcases h.gap with hIdle | ⟨hGap, hLow, hHigh⟩
  · constructor <;> simp [SpiMaster.clock, pMainFsm, mainFsm, hRst, hStart, hIdle, h.drdy]
  · rcases Nat.lt_or_ge s.divider.toNat 8 with hEarly | hLate
    · have hTick : s.tick 3 = false := by
        rw [← Bool.not_eq_true, tick_iff hLow]
        omega
      have hDivider := toNat_divider_clock hRst hStart hEarly
      refine ⟨?_, ?_, Or.inr ⟨?_, ?_, ?_⟩⟩
      · simp [SpiMaster.clock, pMainFsm, mainFsm, hRst, hGap, hTick, h.sclk]
      · simp [SpiMaster.clock, pMainFsm, mainFsm, hRst, hGap, hTick]
      · simp [SpiMaster.clock, pMainFsm, mainFsm, hRst, hGap, hTick]
      · omega
      · omega
    · have hTick := (tick_iff hLow).mpr (Nat.le_antisymm hLow hLate)
      constructor <;> simp [SpiMaster.clock, pMainFsm, mainFsm, hRst, hGap, hTick, h.sclk]

theorem Quiet.idle (h : s.Quiet 0) : s.state = .idle := by
  rcases h.gap with hIdle | ⟨-, hLow, hHigh⟩
  · exact hIdle
  · omega

end SpiMaster

/-! ### The phases of the interface -/

namespace Ad7980

variable {s : Ad7980 numDataBits} {i : AdcIn}

@[simp] theorem state_clock : (s.clock i).state = (s.pAcquire i).state := rfl

@[simp] theorem count_clock : (s.clock i).count = (s.pAcquire i).count := rfl

@[simp] theorem adcCnvO_clock : (s.clock i).adcCnvO = (s.pAcquire i).adcCnvO := rfl

@[simp] theorem doAcq_clock : (s.clock i).doAcq = (s.pAcquire i).doAcq := rfl

@[simp] theorem spi_clock : (s.clock i).spi = s.spi.clock 3 (s.spiIn i) := rfl

@[simp] theorem miso_spiIn : (s.spiIn i).miso = i.adcSdo := rfl

@[simp] theorem adcSckO_eq : s.adcSckO i = s.spi.sclk := by
  simp [adcSckO, SpiMaster.spiSclkO, spiIn]

structure Waiting (s : Ad7980 numDataBits) : Prop where
  state : s.state = .waitTrig
  cnv : s.adcCnvO = false
  doAcq : s.doAcq = false
  quiet : s.spi.Quiet 9

structure Converting (k : Nat) (s : Ad7980 numDataBits) : Prop where
  state : s.state = .startCnv
  count : s.count.toNat = k
  cnv : s.adcCnvO = true
  doAcq : s.doAcq = false
  quiet : s.spi.Quiet (9 - k)

structure Starting (s : Ad7980 numDataBits) : Prop where
  state : s.state = .readback
  cnv : s.adcCnvO = false
  doAcq : s.doAcq = true
  quiet : s.spi.Quiet 0

/-- The transfer is in state `st`, with `k` clock pulses begun, `d` cycles after the last tick. -/
structure Reading (st : SpiState) (sclk : Bool) (k : Nat) (rx : BitVec numDataBits) (d : Nat) (s : Ad7980 numDataBits) :
    Prop where
  state : s.state = .readback
  cnv : s.adcCnvO = false
  doAcq : s.doAcq = false
  spi : s.spi.state = st
  sclk : s.spi.sclk = sclk
  counter : s.spi.counter.toNat = k
  rxSreg : s.spi.rxSreg = rx
  divider : s.spi.divider.toNat = d
  drdy : s.spi.drdyO = false

structure Ready (rx : BitVec numDataBits) (s : Ad7980 numDataBits) : Prop where
  state : s.state = .readback
  cnv : s.adcCnvO = false
  doAcq : s.doAcq = false
  spi : s.spi.state = .txGap
  sclk : s.spi.sclk = false
  divider : s.spi.divider.toNat = 0
  drdy : s.spi.drdyO = true
  dataO : s.spi.dataO = rx

/-- While the SPI master is quiet and not started, events come from the conversion only. -/
theorem emit_of_quiet {left : Nat} (h : s.spi.Quiet left) (hAcq : s.doAcq = false) (hRst : i.rstN = true) :
    s.emit i = (if s.state = .waitTrig ∧ i.trig = true then [.trigger] else []) ++
      edge .cnvUp .cnvDown s.adcCnvO (s.pAcquire i).adcCnvO := by
  have hNext := h.clock (i := s.spiIn i) hRst hAcq
  have hState : s.spi.state ≠ .txDat2 := by
    rcases h.gap with hIdle | ⟨hGap, -⟩
    · simp [hIdle]
    · simp [hGap]
  have hSck : edge .sckUp .sckDown s.spi.sclk (s.spi.clock 3 (s.spiIn i)).sclk = ([] : List (Event numDataBits)) := by
    simp [edge, h.sclk, hNext.sclk]
  simp [emit, hSck, hState, dValidO, h.drdy]

theorem Waiting.stays (h : Waiting s) (hRst : i.rstN = true) (hTrig : i.trig = false) :
    s.emit i = [] ∧ Waiting (s.clock i) := by
  have hAcquire : s.pAcquire i = s := by simp [pAcquire, hRst, h.state, hTrig]
  constructor
  · simp [emit_of_quiet h.quiet h.doAcq hRst, hAcquire, hTrig, edge]
  · refine ⟨?_, ?_, ?_, ?_⟩
    · simp [hAcquire, h.state]
    · simp [hAcquire, h.cnv]
    · simp [hAcquire, h.doAcq]
    · exact (h.quiet.clock hRst h.doAcq).mono (by decide)

theorem Waiting.trigger (h : Waiting s) (hRst : i.rstN = true) (hTrig : i.trig = true) :
    s.emit i = [.trigger, .cnvUp] ∧ Converting 0 (s.clock i) := by
  constructor
  · simp [emit_of_quiet h.quiet h.doAcq hRst, pAcquire, hRst, h.state, hTrig, h.cnv, edge]
  · refine ⟨?_, ?_, ?_, ?_, ?_⟩
    · simp [pAcquire, hRst, h.state, hTrig]
    · simp [pAcquire, hRst, h.state, hTrig]
    · simp [pAcquire, hRst, h.state, hTrig]
    · simp [pAcquire, hRst, h.state, hTrig, h.doAcq]
    · exact (h.quiet.clock hRst h.doAcq).mono (by decide)

theorem Converting.counts {k : Nat} (h : Converting k s) (hk : k < 100) (hRst : i.rstN = true) :
    s.emit i = [] ∧ Converting (k + 1) (s.clock i) := by
  have hCount : ¬s.count = 100#8 := by
    intro hLast
    have hNat := h.count
    rw [hLast] at hNat
    simp at hNat
    omega
  have hAcquire : s.pAcquire i = { s with count := s.count + 1 } := by simp [pAcquire, hRst, h.state, hCount]
  constructor
  · simp [emit_of_quiet h.quiet h.doAcq hRst, hAcquire, h.state, edge]
  · refine ⟨?_, ?_, ?_, ?_, ?_⟩
    · simp [hAcquire, h.state]
    · have hNat := h.count
      simp only [count_clock, hAcquire, BitVec.toNat_add, hNat]
      exact Nat.mod_eq_of_lt (by simp; omega)
    · simp [hAcquire, h.cnv]
    · simp [hAcquire, h.doAcq]
    · exact (h.quiet.clock hRst h.doAcq).mono (by omega)

theorem Converting.ends (h : Converting 100 s) (hRst : i.rstN = true) : s.emit i = [.cnvDown] ∧ Starting (s.clock i) := by
  have hCount : s.count = 100 := BitVec.eq_of_toNat_eq h.count
  constructor
  · simp [emit_of_quiet h.quiet h.doAcq hRst, pAcquire, hRst, h.state, hCount, h.cnv, edge]
  · refine ⟨?_, ?_, ?_, ?_⟩
    · simp [pAcquire, hRst, h.state, hCount]
    · simp [pAcquire, hRst, h.state, hCount]
    · simp [pAcquire, hRst, h.state, hCount]
    · exact h.quiet.clock hRst h.doAcq

theorem Starting.starts (h : Starting s) (hRst : i.rstN = true) :
    s.emit i = [] ∧ Reading .txCs false 0 s.spi.rxSreg 0 (s.clock i) := by
  have hIdle := h.quiet.idle
  have hClock : s.spi.clock 3 (s.spiIn i) =
      { s.spi with divider := 0, sclk := false, counter := 0, sreg := 0, state := .txCs, mosiO := false } := by
    simp [SpiMaster.clock, SpiMaster.pMainFsm, SpiMaster.mainFsm, SpiMaster.pDivideSpiClock, spiIn, hRst, h.doAcq, hIdle]
  have hAcquire : s.pAcquire i = { s with doAcq := false } := by simp [pAcquire, hRst, h.state, h.quiet.drdy]
  constructor
  · simp [emit, edge, hClock, hAcquire, h.state, hIdle, h.quiet.sclk, dValidO, h.quiet.drdy]
  · constructor <;> simp [hClock, hAcquire, h.state, h.cnv, h.quiet.drdy]

/-! ### The transfer -/

section

variable {st : SpiState} {sclk : Bool} {k d : Nat} {rx : BitVec numDataBits}

/-- Events during the transfer come from its clock, its samples and its end. -/
theorem emit_of_readback (hState : s.state = .readback) (hCnv : s.adcCnvO = false) (hRst : i.rstN = true) :
    s.emit i = edge .sckUp .sckDown s.spi.sclk (s.spi.clock 3 (s.spiIn i)).sclk ++
      (if s.spi.state = .txDat2 ∧ s.spi.tick 3 = true then [.sample i.adcSdo] else []) ++
      if s.dValidO then [.valid s.dO] else [] := by
  have hAcquire : (s.pAcquire i).adcCnvO = false := by
    simp only [pAcquire, hRst, hState]
    cases s.spi.drdyO <;> simp [hCnv]
  have hNone : edge .cnvUp .cnvDown s.adcCnvO (s.pAcquire i).adcCnvO = ([] : List (Event numDataBits)) := by
    simp [edge, hCnv, hAcquire]
  simp [emit, hState, hNone]

theorem Reading.pAcquire_eq (h : Reading st sclk k rx d s) (hRst : i.rstN = true) :
    s.pAcquire i = { s with doAcq := false } := by
  simp [pAcquire, hRst, h.state, h.drdy]

theorem Reading.dwells (h : Reading st sclk k rx d s) (hd : d < 8) (hActive : st ≠ .idle ∧ st ≠ .txGap) (hRst : i.rstN = true) :
    s.emit i = [] ∧ Reading st sclk k rx (d + 1) (s.clock i) := by
  have hTick : s.spi.tick 3 = false := by
    rw [← Bool.not_eq_true, SpiMaster.tick_iff (by rw [h.divider]; omega), h.divider]
    omega
  have hDivider := SpiMaster.toNat_divider_clock (i := s.spiIn i) (s := s.spi) hRst h.doAcq (by rw [h.divider]; exact hd)
  have hFsm : s.spi.mainFsm false (s.spiIn i) = s.spi := by
    obtain ⟨hIdle, hGap⟩ := hActive
    rw [SpiMaster.mainFsm, h.spi]
    cases st with
    | idle => exact absurd rfl hIdle
    | txGap => exact absurd rfl hGap
    | _ => rfl
  have hClock : s.spi.clock 3 (s.spiIn i) = { s.spi with divider := s.spi.pDivideSpiClock 3 (s.spiIn i) } := by
    rw [SpiMaster.clock_eq hRst, hTick, hFsm]
  rw [h.divider] at hDivider
  constructor
  · simp [emit_of_readback h.state h.cnv hRst, hClock, hTick, edge, dValidO, h.drdy]
  · have hAcquire := h.pAcquire_eq hRst
    refine ⟨?_, ?_, ?_, ?_, ?_, ?_, ?_, hDivider, ?_⟩
    · simp [hAcquire, h.state]
    · simp [hAcquire, h.cnv]
    · simp [hAcquire]
    · simp [hClock, h.spi]
    · simp [hClock, h.sclk]
    · simp [hClock, h.counter]
    · simp [hClock, h.rxSreg]
    · simp [hClock, h.drdy]

theorem Reading.clock_of_tick (h : Reading st sclk k rx 8 s) (hRst : i.rstN = true) :
    s.spi.tick 3 = true ∧ s.spi.clock 3 (s.spiIn i) = { s.spi.mainFsm true (s.spiIn i) with divider := 0 } := by
  have hTick := (SpiMaster.tick_iff (Nat.le_of_eq h.divider)).mpr h.divider
  refine ⟨hTick, ?_⟩
  rw [SpiMaster.clock_eq hRst, hTick, SpiMaster.pDivideSpiClock, hTick]
  simp

/-- The events at a tick are the edge of the clock and, in the one state that shifts in, the sample. -/
theorem Reading.emit_of_tick (h : Reading st sclk k rx 8 s) (hRst : i.rstN = true) :
    s.emit i = edge .sckUp .sckDown sclk (s.spi.mainFsm true (s.spiIn i)).sclk ++
      if st = .txDat2 then [.sample i.adcSdo] else [] := by
  obtain ⟨hTick, hClock⟩ := h.clock_of_tick hRst
  simp [emit_of_readback h.state h.cnv hRst, hClock, hTick, dValidO, h.drdy, h.spi, h.sclk]

theorem Reading.next_of_tick (h : Reading st sclk k rx 8 s) (hRst : i.rstN = true)
    (hDrdy : (s.spi.mainFsm true (s.spiIn i)).drdyO = false) :
    let next := s.spi.mainFsm true (s.spiIn i)
    Reading next.state next.sclk next.counter.toNat next.rxSreg 0 (s.clock i) := by
  obtain ⟨-, hClock⟩ := h.clock_of_tick hRst
  have hAcquire := h.pAcquire_eq hRst
  constructor <;> simp [hAcquire, hClock, h.state, h.cnv, hDrdy]

theorem Reading.leaves_txCs (h : Reading .txCs sclk k rx 8 s) (hRst : i.rstN = true) :
    s.emit i = [] ∧ Reading .txDat1 sclk k rx 0 (s.clock i) := by
  have hEmit := h.emit_of_tick hRst
  have hNext := h.next_of_tick hRst
  simp only [SpiMaster.mainFsm, h.spi, if_true, h.sclk, h.counter, h.rxSreg] at hEmit hNext
  exact ⟨by simpa [edge] using hEmit, hNext h.drdy⟩

theorem Reading.leaves_txDat1 (h : Reading .txDat1 sclk k rx 8 s) (hRst : i.rstN = true) :
    s.emit i = [] ∧ Reading .txSck1 sclk k rx 0 (s.clock i) := by
  have hEmit := h.emit_of_tick hRst
  have hNext := h.next_of_tick hRst
  simp only [SpiMaster.mainFsm, h.spi, if_true, h.sclk, h.counter, h.rxSreg] at hEmit hNext
  exact ⟨by simpa [edge] using hEmit, hNext h.drdy⟩

theorem Reading.leaves_txSck1 (h : Reading .txSck1 false k rx 8 s) (hk : k < 31) (hRst : i.rstN = true) :
    s.emit i = [.sckUp] ∧ Reading .txDat2 true (k + 1) rx 0 (s.clock i) := by
  have hCounter : (s.spi.counter + 1).toNat = k + 1 := by
    rw [BitVec.toNat_add, h.counter]
    exact Nat.mod_eq_of_lt (by simp; omega)
  have hEmit := h.emit_of_tick hRst
  have hNext := h.next_of_tick hRst
  simp only [SpiMaster.mainFsm, h.spi, if_true, h.sclk, hCounter, h.rxSreg] at hEmit hNext
  exact ⟨by simpa [edge] using hEmit, hNext h.drdy⟩

theorem Reading.leaves_txDat2 (h : Reading .txDat2 sclk k rx 8 s) (hRst : i.rstN = true) :
    s.emit i = [.sample i.adcSdo] ∧ Reading .txSck2 sclk k (rx.shiftConcat i.adcSdo) 0 (s.clock i) := by
  have hEmit := h.emit_of_tick hRst
  have hNext := h.next_of_tick hRst
  simp only [SpiMaster.mainFsm, h.spi, if_true, h.sclk, h.counter, h.rxSreg] at hEmit hNext
  exact ⟨by simpa [edge] using hEmit, hNext h.drdy⟩

theorem Reading.leaves_txSck2 (h : Reading .txSck2 true k rx 8 s) (hRst : i.rstN = true) :
    s.emit i = [.sckDown] ∧ Reading (if k = numDataBits then .txCs2 else .txDat1) false k rx 0 (s.clock i) := by
  have hEmit := h.emit_of_tick hRst
  have hNext := h.next_of_tick hRst
  simp only [SpiMaster.mainFsm, h.spi, if_true, h.sclk, h.counter, h.rxSreg] at hEmit hNext
  exact ⟨by simpa [edge] using hEmit, hNext h.drdy⟩

theorem Reading.leaves_txCs2 (h : Reading .txCs2 false k rx 8 s) (hRst : i.rstN = true) :
    s.emit i = [] ∧ Ready rx (s.clock i) := by
  obtain ⟨-, hClock⟩ := h.clock_of_tick hRst
  have hAcquire := h.pAcquire_eq hRst
  have hEmit := h.emit_of_tick hRst
  simp only [SpiMaster.mainFsm, h.spi, if_true, h.sclk] at hClock hEmit
  constructor
  · simpa [edge] using hEmit
  · constructor <;> simp [hAcquire, hClock, h.state, h.cnv, h.rxSreg]

theorem Ready.ends (h : Ready rx s) (hRst : i.rstN = true) : s.emit i = [.valid rx] ∧ Waiting (s.clock i) := by
  have hTick : s.spi.tick 3 = false := by
    rw [← Bool.not_eq_true, SpiMaster.tick_iff (by rw [h.divider]; decide), h.divider]
    decide
  have hDivider := SpiMaster.toNat_divider_clock (i := s.spiIn i) (s := s.spi) hRst h.doAcq (by rw [h.divider]; decide)
  have hClock := SpiMaster.clock_eq (i := s.spiIn i) (s := s.spi) hRst 3
  have hAcquire : s.pAcquire i = { s with doAcq := false, state := .waitTrig } := by
    simp [pAcquire, hRst, h.state, h.drdy]
  rw [SpiMaster.mainFsm, h.spi, hTick] at hClock
  simp only [Bool.false_eq_true, if_false] at hClock
  constructor
  · simp [emit_of_readback h.state h.cnv hRst, hClock, edge, dValidO, dO, h.drdy, h.dataO, h.spi]
  · refine ⟨?_, ?_, ?_, ?_, ?_, ?_⟩
    · simp [hAcquire]
    · simp [hAcquire, h.cnv]
    · simp [hAcquire]
    · simp [hClock, h.sclk]
    · simp [hClock]
    · refine Or.inr ⟨by simp [hClock], ?_, ?_⟩
      · rw [spi_clock, hDivider, h.divider]
        decide
      · omega

/-! ### Phase by phase -/

/-- An acquisition is going on; a transfer is started only where the SPI master is idle. -/
def Busy (s : Ad7980 numDataBits) : Prop := s.state ≠ .waitTrig ∧ (s.doAcq = true → s.spi.state = .idle)

def phases (numDataBits : Nat) : Clockwork AdcIn (Ad7980 numDataBits) (Event numDataBits) where
  step := clock
  emit := emit
  ok := fun i => i.rstN = true
  through := Busy

theorem Converting.busy {k : Nat} (h : Converting k s) : s.Busy := by
  simp [Busy, h.state, h.doAcq]

theorem Starting.busy (h : Starting s) : s.Busy := by
  simp [Busy, h.state, h.quiet.idle]

theorem Reading.busy (h : Reading st sclk k rx d s) : s.Busy := by
  simp [Busy, h.state, h.doAcq]

theorem Ready.busy (h : Ready rx s) : s.Busy := by
  simp [Busy, h.state, h.doAcq]

theorem leads_converting :
    (phases numDataBits).Leads 101 (Converting 0) fun events s => events = [.cnvDown] ∧ Starting s := by
  have hCounts : (phases numDataBits).Leads 100 (Converting 0) fun events s => events = [] ∧ Converting 100 s :=
    Clockwork.leads_quiet (fun k hk i s hRst h => ⟨h.busy, h.counts hk hRst⟩) 100 rfl
  have hEnds : (phases numDataBits).Leads 1 (Converting 100) fun events s => events = [.cnvDown] ∧ Starting s :=
    Clockwork.leads_one fun i s hRst h => ⟨h.busy, h.ends hRst⟩
  apply (hCounts.andThen hEnds).mono (fun s h => h)
  rintro events s ⟨after, rfl, hAfter⟩
  exact hAfter

theorem leads_starting : (phases numDataBits).Leads 1 Starting fun events s =>
    events = [] ∧ ∃ rx, Reading .txCs false 0 rx 0 s :=
  Clockwork.leads_one fun _ _ hRst h => ⟨h.busy, (h.starts hRst).1, _, (h.starts hRst).2⟩

theorem leads_state {Q : List (Event numDataBits) → Ad7980 numDataBits → Prop} (hActive : st ≠ .idle ∧ st ≠ .txGap)
    (hTick : ∀ i s, i.rstN = true → Reading st sclk k rx 8 s → Q (s.emit i) (s.clock i)) :
    (phases numDataBits).Leads 9 (Reading st sclk k rx 0) Q := by
  have hDwells : (phases numDataBits).Leads 8 (Reading st sclk k rx 0) fun events s =>
      events = [] ∧ Reading st sclk k rx 8 s :=
    Clockwork.leads_quiet (fun d hd i s hRst h => ⟨h.busy, h.dwells hd hActive hRst⟩) 8 rfl
  have hLast : (phases numDataBits).Leads 1 (Reading st sclk k rx 8) Q :=
    Clockwork.leads_one fun i s hRst h => ⟨h.busy, hTick i s hRst h⟩
  apply (hDwells.andThen hLast).mono (fun s h => h)
  rintro events s ⟨after, rfl, hAfter⟩
  exact hAfter

theorem leads_bit (rx : BitVec numDataBits) (hk : k < 31) : (phases numDataBits).Leads 36 (Reading .txDat1 false k rx 0) fun events s =>
    ∃ level, events = pulse level ∧
      Reading (if k + 1 = numDataBits then .txCs2 else .txDat1) false (k + 1) (rx.shiftConcat level) 0 s := by
  have hDat1 : (phases numDataBits).Leads 9 (Reading .txDat1 false k rx 0) fun events s =>
      events = [] ∧ Reading .txSck1 false k rx 0 s :=
    leads_state (by decide) fun i s hRst h => h.leaves_txDat1 hRst
  have hSck1 : (phases numDataBits).Leads 9 (Reading .txSck1 false k rx 0) fun events s =>
      events = [.sckUp] ∧ Reading .txDat2 true (k + 1) rx 0 s :=
    leads_state (by decide) fun i s hRst h => h.leaves_txSck1 hk hRst
  have hDat2 : (phases numDataBits).Leads 9 (Reading .txDat2 true (k + 1) rx 0) fun events s =>
      ∃ level, events = [.sample level] ∧ Reading .txSck2 true (k + 1) (rx.shiftConcat level) 0 s :=
    leads_state (by decide) fun i s hRst h => ⟨_, h.leaves_txDat2 hRst⟩
  have hSck2 : ∀ level, (phases numDataBits).Leads 9 (Reading .txSck2 true (k + 1) (rx.shiftConcat level) 0) fun events s =>
      events = [.sckDown] ∧
        Reading (if k + 1 = numDataBits then .txCs2 else .txDat1) false (k + 1) (rx.shiftConcat level) 0 s :=
    fun level => leads_state (by decide) fun i s hRst h => h.leaves_txSck2 hRst
  have hSampled : (phases numDataBits).Leads 18 (Reading .txDat2 true (k + 1) rx 0) fun events s =>
      ∃ level, events = [.sample level, .sckDown] ∧
        Reading (if k + 1 = numDataBits then .txCs2 else .txDat1) false (k + 1) (rx.shiftConcat level) 0 s := by
    apply hDat2.seq (m := 9)
    rintro before inputs s hLength hOk ⟨level, rfl, h⟩
    obtain ⟨hAlong, hDown, hNext⟩ := hSck2 level inputs s hLength hOk h
    exact ⟨hAlong, level, by rw [hDown]; rfl, hNext⟩
  apply (hDat1.andThen (hSck1.andThen hSampled)).mono (fun s h => h)
  rintro events s ⟨after, rfl, last, rfl, level, rfl, hNext⟩
  exact ⟨level, rfl, hNext⟩

theorem leads_bits (hBits : numDataBits ≤ 31) (m k : Nat) (rx : BitVec numDataBits) (hm : k + (m + 1) = numDataBits) :
    (phases numDataBits).Leads (36 * (m + 1)) (Reading .txDat1 false k rx 0) fun events s =>
      ∃ levels : List Bool, levels.length = m + 1 ∧ events = levels.flatMap pulse ∧
        Reading .txCs2 false numDataBits (levels.foldl BitVec.shiftConcat rx) 0 s := by
  have hBit := leads_bit rx (show k < 31 by omega)
  induction m generalizing k rx with
  | zero =>
    apply hBit.mono (fun s h => h)
    rintro events s ⟨level, rfl, hNext⟩
    rw [if_pos hm, hm] at hNext
    exact ⟨[level], rfl, by simp, hNext⟩
  | succ m ih =>
    rw [if_neg (show k + 1 ≠ numDataBits by omega)] at hBit
    have hSum : 36 * (m + 1 + 1) = 36 + 36 * (m + 1) := by omega
    rw [hSum]
    apply hBit.seq
    rintro before inputs s hLength hOk ⟨level, rfl, hNext⟩
    have hRest := ih (k + 1) (rx.shiftConcat level) (by omega) (leads_bit _ (by omega))
    obtain ⟨hAlong, levels, hLevels, hEvents, hLast⟩ := hRest inputs s hLength hOk hNext
    refine ⟨hAlong, level :: levels, by rw [List.length_cons, hLevels], ?_, hLast⟩
    rw [hEvents, List.flatMap_cons]

theorem foldl_number (levels : List Bool) (v : Nat) :
    levels.foldl (fun v level => 2 * v + level.toNat) v = v * 2 ^ levels.length + number levels := by
  induction levels generalizing v with
  | nil => simp [number]
  | cons level rest ih =>
    rw [number, List.foldl_cons, List.foldl_cons, ih, ih (2 * 0 + level.toNat), List.length_cons, Nat.pow_succ]
    ring

theorem foldl_shiftConcat {levels : List Bool} (hFull : levels.length = numDataBits) (rx : BitVec numDataBits) :
    levels.foldl BitVec.shiftConcat rx = BitVec.ofNat numDataBits (number levels) := by
  have hFold : ∀ (levels : List Bool) (rx : BitVec numDataBits) (v : Nat), rx.toNat = v % 2 ^ numDataBits →
      (levels.foldl BitVec.shiftConcat rx).toNat =
        levels.foldl (fun v level => 2 * v + level.toNat) v % 2 ^ numDataBits := by
    intro levels
    induction levels with
    | nil => exact fun rx v h => h
    | cons level rest ih =>
      intro rx v h
      apply ih (rx.shiftConcat level) (2 * v + level.toNat)
      rw [BitVec.toNat_shiftConcat, h, Nat.shiftLeft_eq, Nat.pow_one, Nat.mul_comm _ 2]
      simp [Nat.add_mod, Nat.mul_mod]
  apply BitVec.eq_of_toNat_eq
  rw [hFold levels rx rx.toNat (Nat.mod_eq_of_lt rx.isLt).symm, foldl_number, hFull, BitVec.toNat_ofNat,
    Nat.mul_add_mod_self_right]

theorem leads_end (rx : BitVec numDataBits) : (phases numDataBits).Leads 10 (Reading .txCs2 false k rx 0) fun events s =>
    events = [.valid rx] ∧ Waiting s := by
  have hCs2 : (phases numDataBits).Leads 9 (Reading .txCs2 false k rx 0) fun events s => events = [] ∧ Ready rx s :=
    leads_state (by decide) fun i s hRst h => h.leaves_txCs2 hRst
  have hReady : (phases numDataBits).Leads 1 (Ready rx) fun events s => events = [.valid rx] ∧ Waiting s :=
    Clockwork.leads_one fun i s hRst h => ⟨h.busy, h.ends hRst⟩
  apply (hCs2.andThen hReady).mono (fun s h => h)
  rintro events s ⟨after, rfl, hAfter⟩
  exact hAfter

theorem leads_transfer (hBits : 2 ≤ numDataBits ∧ numDataBits ≤ 31) :
    (phases numDataBits).Leads (1 + (9 + (36 * numDataBits + 10))) Starting fun events s =>
      ∃ levels : List Bool, levels.length = numDataBits ∧
        events = levels.flatMap pulse ++ [.valid (BitVec.ofNat numDataBits (number levels))] ∧ Waiting s := by
  have hCs : ∀ rx, (phases numDataBits).Leads 9 (Reading .txCs false 0 rx 0) fun events s =>
      events = [] ∧ Reading .txDat1 false 0 rx 0 s :=
    fun rx => leads_state (by decide) fun i s hRst h => h.leaves_txCs hRst
  have hRead : ∀ rx, (phases numDataBits).Leads (36 * numDataBits + 10) (Reading .txDat1 false 0 rx 0) fun events s =>
      ∃ levels : List Bool, levels.length = numDataBits ∧
        events = levels.flatMap pulse ++ [.valid (BitVec.ofNat numDataBits (number levels))] ∧ Waiting s := by
    intro rx
    obtain ⟨m, hm⟩ : ∃ m, numDataBits = m + 1 := ⟨numDataBits - 1, by omega⟩
    have hLevels := leads_bits hBits.2 m 0 rx (by omega)
    rw [← hm] at hLevels
    apply hLevels.seq
    rintro before inputs s hLength hOk ⟨levels, hFull, rfl, hNext⟩
    obtain ⟨hAlong, hValid, hWaiting⟩ := leads_end _ inputs s hLength hOk hNext
    refine ⟨hAlong, levels, hFull, ?_, hWaiting⟩
    rw [hValid, foldl_shiftConcat hFull]
  apply leads_starting.seq
  rintro before inputs s hLength hOk ⟨rfl, rx, hNext⟩
  obtain ⟨hAlong, after, hEvents, hLast⟩ := ((hCs rx).andThen (hRead rx)) inputs s hLength hOk hNext
  rw [hEvents]
  exact ⟨hAlong, hLast⟩

theorem leads_acquisition (hBits : 2 ≤ numDataBits ∧ numDataBits ≤ 31) :
    (phases numDataBits).Leads (acquisitionCycles numDataBits) (Converting 0) fun events s =>
      ∃ levels : List Bool, levels.length = numDataBits ∧ [.trigger, .cnvUp] ++ events = acquisition levels ∧ Waiting s := by
  have hCycles : acquisitionCycles numDataBits = 101 + (1 + (9 + (36 * numDataBits + 10))) := by
    rw [acquisitionCycles]
    omega
  rw [hCycles]
  apply (leads_converting.andThen (leads_transfer hBits)).mono (fun s h => h)
  rintro events s ⟨after, rfl, levels, hFull, rfl, hWaiting⟩
  exact ⟨levels, hFull, by simp [acquisition], hWaiting⟩

end

end Ad7980

end WrRfDemo.Adc

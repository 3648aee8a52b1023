import WrRfDemo.Spi.Drivers

/-! # The phase detector

Its registers are loaded over three lines of their own: the bits at the rising edges of the clock, and the
whole word at the rising edge of the latch enable.
-/

namespace WrRfDemo.Spi

open Clocked

/-- `DDS_GPIOR_ADF_CE`, `_CLK`, `_LE` and `_DATA`. -/
def adfCe : BitVec 32 := BitVec.twoPow 32 9

def adfClk : BitVec 32 := BitVec.twoPow 32 10

def adfLe : BitVec 32 := BitVec.twoPow 32 11

def adfData : BitVec 32 := BitVec.twoPow 32 12

namespace Gpio

variable {m : Type → Type} [Monad m] (io : Gpio m)

def adf4002Loop (value : BitVec 32) : Nat → m (BitVec 32)
  | 0 => return value
  | i + 1 => do
    let value ← adf4002Loop value i
    let value := value <<< 1
    io.set adfData (value &&& ((1 : BitVec 32) <<< 24) != 0)
    io.set adfClk true
    io.set adfClk false
    return value

def adf4002Write (value : BitVec 32) : m Unit := do
  io.set adfClk false
  io.set adfLe false
  let _ ← io.adf4002Loop value 24
  io.set adfLe true

def adf4002Configure (rDiv nDiv monOutput : BitVec 32) : m Unit := do
  io.set adfCe true
  io.adf4002Write ((0 : BitVec 32) ||| (rDiv <<< 2))
  io.adf4002Write ((1 : BitVec 32) ||| (nDiv <<< 8))
  io.adf4002Write ((2 : BitVec 32) ||| ((7 : BitVec 32) <<< 15) ||| ((7 : BitVec 32) <<< 18) ||| ((0 : BitVec 32) <<< 7) |||
    (monOutput <<< 4))

end Gpio

/-! ### On the register with its pins -/

/-- What the phase detector sees: a bit, with the levels of chip enable and latch enable, or the latch. -/
inductive AdfEvent
  | bit (enabled latched level : Bool)
  | latch (enabled : Bool)
deriving DecidableEq

structure AdfLines where
  ce : Bool
  clk : Bool
  le : Bool
  data : Bool
deriving DecidableEq

def adfLines (p : Pins) : AdfLines :=
  ⟨p.out.getLsbD 9, p.out.getLsbD 10, p.out.getLsbD 11, p.out.getLsbD 12⟩

namespace AdfLines

def event (a b : AdfLines) : List AdfEvent :=
  (if !a.clk && b.clk then [.bit b.ce b.le b.data] else []) ++ if !a.le && b.le then [.latch b.ce] else []

def set (k : Nat) (v : Bool) (a : AdfLines) : AdfLines :=
  ⟨if 9 = k then v else a.ce, if 10 = k then v else a.clk, if 11 = k then v else a.le, if 12 = k then v else a.data⟩

end AdfLines

def adfEvent (p q : Pins) : List AdfEvent := (adfLines p).event (adfLines q)

/-- The events of a word that is written while the chip is enabled. -/
def adfWord (value : BitVec 32) : List AdfEvent :=
  ((List.range 24).map fun i => .bit true false (sentBit 24 value i)) ++ [.latch true]

theorem adfEvent_same {p q : Pins} (h : p.out = q.out) : adfEvent p q = [] := by
  simp [adfEvent, AdfLines.event, adfLines, h]

variable (levels : Nat → InputPins)

def adfStep (s : Gpior × BitVec 32) : Gpior × BitVec 32 :=
  let value := s.2 <<< 1
  let port := gpioSet levels adfData (value &&& ((1 : BitVec 32) <<< 24) != 0) s.1
  (gpioSet levels adfClk false (gpioSet levels adfClk true port), value)

theorem run_adf4002Loop (value : BitVec 32) (s : Gpior) (i : Nat) :
    (portGpio.adf4002Loop value i).run (gpiorPort levels) s =
      some (((adfStep levels)^[i] (s, value)).2, ((adfStep levels)^[i] (s, value)).1) := by
  induction i with
  | zero => rfl
  | succ i ih =>
    rw [Gpio.adf4002Loop, Driver.run_bind, ih, Option.bind_some, Function.iterate_succ_apply']
    rfl

/-- The same levels at all outputs that are not for the phase detector, but for `PLL_SDIO`: each write of the register sets that to the
level that was read at the input. -/
structure SameBeside (levels : Nat → InputPins) (p q : Pins) : Prop where
  out : ∀ k, outputBits.getLsbD k = true → k < 9 ∨ 12 < k → q.out.getLsbD k = p.out.getLsbD k
  sdio : q.sdio = p.sdio ∨ ∃ n, q.sdio = (levels n).pllVcxoSdo

theorem sameBeside_refl (levels : Nat → InputPins) (p : Pins) : SameBeside levels p p := ⟨fun _ _ _ => rfl, .inl rfl⟩

structure Events (levels : Nat → InputPins) (p : Pins) (events : List AdfEvent) (s : Gpior) : Prop where
  last : s.wave.getLastD p = s.pins
  events : transitions adfEvent p s.wave = events
  pins : SameBeside levels p s.pins
  wave : ∀ q ∈ s.wave, SameBeside levels p q

variable {levels} {p : Pins} {events : List AdfEvent} {s s' : Gpior}

theorem Events.next (h : Events levels p events s) {k : Nat} {v : Bool} (hSets : Sets levels k v s s') (hPin : 9 ≤ k ∧ k ≤ 12) :
    Events levels p (events ++ adfEvent s.pins s'.pins) s' := by
  have hOut : ∀ j, outputBits.getLsbD j = true → j < 9 ∨ 12 < j → s'.pins.out.getLsbD j = p.out.getLsbD j := by
    intro j hOut hOther
    rw [hSets.out j hOut, if_neg (by omega)]
    exact h.pins.out j hOut hOther
  have hEarlyBeside : SameBeside levels p ⟨s'.pins.out, s.pins.sdio⟩ := ⟨hOut, h.pins.sdio⟩
  have hLateBeside : SameBeside levels p s'.pins := ⟨hOut, .inr ⟨s.reads, hSets.sdio.trans (if_neg (by omega))⟩⟩
  constructor
  · rw [hSets.wave, getLastD_append]
    rfl
  · have hLate : adfEvent ⟨s'.pins.out, s.pins.sdio⟩ s'.pins = [] := adfEvent_same rfl
    have hEarly : adfEvent s.pins ⟨s'.pins.out, s.pins.sdio⟩ = adfEvent s.pins s'.pins := rfl
    rw [hSets.wave, transitions_append, h.last, h.events, transitions, transitions, transitions, hEarly, hLate,
      List.append_nil, List.append_nil]
  · exact hLateBeside
  · intro q hq
    rw [hSets.wave] at hq
    rcases List.mem_append.mp hq with hOld | hLast
    · exact h.wave q hOld
    · rcases List.mem_pair.mp hLast with rfl | rfl
      · exact hEarlyBeside
      · exact hLateBeside

theorem Sets.adfLines {k : Nat} {v : Bool} (hSets : Sets levels k v s s') :
    adfLines s'.pins = (Spi.adfLines s.pins).set k v := by
  have hOut : ∀ j, outputBits.getLsbD j = true → s'.pins.out.getLsbD j = if j = k then v else s.pins.out.getLsbD j := hSets.out
  rw [Spi.adfLines, hOut 9 (by decide), hOut 10 (by decide), hOut 11 (by decide), hOut 12 (by decide)]
  rfl

theorem Events.set (h : Events levels p events s) {a b : AdfLines} (hLines : adfLines s.pins = a)
    {k : Nat} {v : Bool} (hPin : 9 ≤ k ∧ k ≤ 12) (hSet : a.set k v = b) {e : List AdfEvent} (hEvent : a.event b = e) :
    Events levels p (events ++ e) (gpioSet levels (BitVec.twoPow 32 k) v s) ∧
      adfLines (gpioSet levels (BitVec.twoPow 32 k) v s).pins = b := by
  have hSets : Sets levels k v s (gpioSet levels (BitVec.twoPow 32 k) v s) := gpioSet_sets (by omega) v s
  have hNext := h.next hSets hPin
  rw [adfEvent, hSets.adfLines, hLines, hSet, hEvent] at hNext
  exact ⟨hNext, by rw [hSets.adfLines, hLines, hSet]⟩

theorem Events.quiet (h : Events levels p events s) {a b : AdfLines} (hLines : adfLines s.pins = a)
    {k : Nat} {v : Bool} (hPin : 9 ≤ k ∧ k ≤ 12) (hSet : a.set k v = b) (hEvent : a.event b = []) :
    Events levels p events (gpioSet levels (BitVec.twoPow 32 k) v s) ∧
      adfLines (gpioSet levels (BitVec.twoPow 32 k) v s).pins = b := by
  have hNext := h.set hLines hPin hSet hEvent
  rwa [List.append_nil] at hNext

theorem Events.step (h : Events levels p events s) {d : Bool} (hLines : adfLines s.pins = ⟨true, false, false, d⟩)
    {value : BitVec 32} {i : Nat} (hi : i < 24) {shifted : BitVec 32} (hShifted : shifted = value <<< i) :
    let r := adfStep levels (s, shifted)
    Events levels p (events ++ [.bit true false (sentBit 24 value i)]) r.1 ∧
      adfLines r.1.pins = ⟨true, false, false, sentBit 24 value i⟩ ∧ r.2 = value <<< (i + 1) := by
  intro r
  have hValue : shifted <<< 1 = value <<< (i + 1) := by rw [hShifted, ← BitVec.shiftLeft_add]
  have hBit : (shifted <<< 1 &&& ((1 : BitVec 32) <<< 24) != 0) = sentBit 24 value i := by
    rw [hValue]
    exact bit_of_shifted (by decide) hi value
  obtain ⟨hData, hLines₁⟩ := h.quiet hLines (b := ⟨true, false, false, sentBit 24 value i⟩)
    (by decide : 9 ≤ 12 ∧ 12 ≤ 12) rfl rfl
  obtain ⟨hUp, hLines₂⟩ := hData.set hLines₁ (b := ⟨true, true, false, sentBit 24 value i⟩)
    (by decide : 9 ≤ 10 ∧ 10 ≤ 12) rfl rfl
  obtain ⟨hDown, hLines₃⟩ := hUp.quiet hLines₂ (b := ⟨true, false, false, sentBit 24 value i⟩)
    (by decide : 9 ≤ 10 ∧ 10 ≤ 12) rfl rfl
  have hResult : r = (gpioSet levels adfClk false (gpioSet levels adfClk true
      (gpioSet levels adfData (sentBit 24 value i) s)), value <<< (i + 1)) := by
    change adfStep levels (s, shifted) = _
    simp only [adfStep, hBit]
    rw [hValue]
  rw [hResult]
  exact ⟨hDown, hLines₃, rfl⟩

theorem Events.loop (h : Events levels p events s) {d : Bool}
    (hLines : adfLines s.pins = ⟨true, false, false, d⟩) (value : BitVec 32) {i : Nat} (hi : i ≤ 24) :
    let r := (adfStep levels)^[i] (s, value)
    Events levels p (events ++ (List.range i).map fun j => .bit true false (sentBit 24 value j)) r.1 ∧
      (∃ d, adfLines r.1.pins = ⟨true, false, false, d⟩) ∧ r.2 = value <<< i := by
  induction i with
  | zero => exact ⟨(List.append_nil events).symm ▸ h, ⟨d, hLines⟩, (BitVec.shiftLeft_zero value).symm⟩
  | succ i ih =>
    obtain ⟨hEvents, ⟨d, hStill⟩, hShifted⟩ := ih (Nat.le_of_succ_le hi)
    obtain ⟨hNext, hLast, hValue⟩ := hEvents.step hStill (Nat.lt_of_succ_le hi) hShifted
    rw [Function.iterate_succ_apply', List.range_succ, List.map_append, ← List.append_assoc]
    exact ⟨hNext, ⟨_, hLast⟩, hValue⟩

theorem Events.word (h : Events levels p events s) (hEnabled : (adfLines s.pins).ce = true)
    (value : BitVec 32) :
    ∃ s', (portGpio.adf4002Write value).run (gpiorPort levels) s = some ((), s') ∧ Events levels p (events ++ adfWord value) s' ∧
      (adfLines s'.pins).ce = true := by
  obtain ⟨c, l, d, hLines⟩ : ∃ c l d, adfLines s.pins = ⟨true, c, l, d⟩ := ⟨_, _, _, by rw [← hEnabled]⟩
  obtain ⟨hClock, hLines₁⟩ := h.quiet hLines (b := ⟨true, false, l, d⟩) (by decide : 9 ≤ 10 ∧ 10 ≤ 12) rfl
    (by cases c <;> cases l <;> rfl)
  obtain ⟨hLatch, hLines₂⟩ := hClock.quiet hLines₁ (b := ⟨true, false, false, d⟩) (by decide : 9 ≤ 11 ∧ 11 ≤ 12) rfl
    (by cases l <;> rfl)
  obtain ⟨hBits, ⟨d', hLow⟩, -⟩ := hLatch.loop hLines₂ value (le_refl 24)
  obtain ⟨hDone, hLines₃⟩ := hBits.set hLow (b := ⟨true, false, true, d'⟩) (by decide : 9 ≤ 11 ∧ 11 ≤ 12) rfl rfl
  have hLoop := run_adf4002Loop levels value (gpioSet levels adfLe false (gpioSet levels adfClk false s)) 24
  refine ⟨_, ?_, ?_, congrArg AdfLines.ce hLines₃⟩
  · rw [Gpio.adf4002Write, Driver.run_bind, run_gpioSet, Option.bind_some, Driver.run_bind, run_gpioSet, Option.bind_some,
      Driver.run_bind, hLoop, Option.bind_some]
    rfl
  · rw [adfWord, ← List.append_assoc]
    exact hDone

/-- The words of a configuration: the two dividers, and the function latch with the multiplexer. -/
def adfWords (rDiv nDiv monOutput : BitVec 32) : List (BitVec 32) :=
  [rDiv <<< 2, (1 : BitVec 32) ||| (nDiv <<< 8), (0x1f8002 : BitVec 32) ||| (monOutput <<< 4)]

theorem adf4002Configure_events (levels : Nat → InputPins) (rDiv nDiv monOutput : BitVec 32) (p : Pins) (reads : Nat) :
    ∃ s', (portGpio.adf4002Configure rDiv nDiv monOutput).run (gpiorPort levels) ⟨p, [], reads⟩ = some ((), s') ∧
      Events levels p ((adfWords rDiv nDiv monOutput).flatMap adfWord) s' := by
  have hStart : Events levels p [] ⟨p, [], reads⟩ := ⟨rfl, rfl, sameBeside_refl levels p, fun _ hq => absurd hq List.not_mem_nil⟩
  obtain ⟨ce, clk, le, data, hLines⟩ : ∃ ce clk le data, adfLines p = ⟨ce, clk, le, data⟩ := ⟨_, _, _, _, rfl⟩
  obtain ⟨hEnabled, hLines₁⟩ := hStart.quiet hLines (b := ⟨true, clk, le, data⟩) (by decide : 9 ≤ 9 ∧ 9 ≤ 12) rfl
    (by cases clk <;> cases le <;> rfl)
  obtain ⟨s₁, hRun₁, hWord₁, hCe₁⟩ := hEnabled.word (congrArg AdfLines.ce hLines₁) ((0 : BitVec 32) ||| (rDiv <<< 2))
  obtain ⟨s₂, hRun₂, hWord₂, hCe₂⟩ := hWord₁.word hCe₁ ((1 : BitVec 32) ||| (nDiv <<< 8))
  obtain ⟨s₃, hRun₃, hWord₃, -⟩ := hWord₂.word hCe₂
    ((2 : BitVec 32) ||| ((7 : BitVec 32) <<< 15) ||| ((7 : BitVec 32) <<< 18) ||| ((0 : BitVec 32) <<< 7) |||
      (monOutput <<< 4))
  have hFirst : (0 : BitVec 32) ||| (rDiv <<< 2) = rDiv <<< 2 := BitVec.zero_or
  have hThird : (2 : BitVec 32) ||| ((7 : BitVec 32) <<< 15) ||| ((7 : BitVec 32) <<< 18) ||| ((0 : BitVec 32) <<< 7) =
      0x1f8002 := rfl
  refine ⟨s₃, ?_, ?_⟩
  · apply (Driver.run_then (run_gpioSet levels adfCe true _)).trans
    apply (Driver.run_then hRun₁).trans
    exact (Driver.run_then hRun₂).trans hRun₃
  · rw [hFirst, hThird, List.nil_append, List.append_assoc] at hWord₃
    rw [adfWords, List.flatMap_cons, List.flatMap_cons, List.flatMap_cons, List.flatMap_nil, List.append_nil]
    exact hWord₃

end WrRfDemo.Spi

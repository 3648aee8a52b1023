import WrRfDemo.Clocked.Driver
import WrRfDemo.Clocked.Levels
import WrRfDemo.Spi.BitBang

/-! # The functions of the driver library

The functions that bang `GPIOR`, over any `gpio_set` and `gpio_get`: as drivers of whatever port they are given, and,
on the register with its pins, as what was said of them there.
-/

namespace WrRfDemo.Spi

open Clocked

/-- `gpio_set` and `gpio_get`. -/
structure Gpio (m : Type → Type) where
  set : BitVec 32 → Bool → m Unit
  get : BitVec 32 → m (BitVec 32)

namespace Gpio

variable {m : Type → Type} [Monad m] (io : Gpio m)

/-- A round of `spi_txrx`, from `value` and `rv` to what they are after it. -/
def spiRound (nBits : Nat) (x : BitVec 32 × BitVec 32) : m (BitVec 32 × BitVec 32) := do
  let value := x.1 <<< 1
  io.set pllSdio (value &&& ((1 : BitVec 32) <<< nBits) != 0)
  io.set pllSclk true
  let sample ← io.get pllSdio
  io.set pllSclk false
  return (value, (x.2 <<< 1) ||| (if sample != 0 then 1 else 0))

def spiLoop (nBits : Nat) : Nat → BitVec 32 × BitVec 32 → m (BitVec 32 × BitVec 32)
  | 0, x => return x
  | i + 1, x => do
    let x ← spiLoop nBits i x
    io.spiRound nBits x

def spiTxrx (cs : ChipSelect) (nBits : Nat) (value : BitVec 32) : m (BitVec 32) := do
  io.set pllSclk false
  io.set cs.mask false
  let x ← io.spiLoop nBits nBits (value, 0)
  io.set cs.mask true
  return x.2

/-- The frame of an access to a register of the AD951x: the address above the value, the top bit for a read. -/
def readFrame (reg : BitVec 16) : BitVec 32 := ((reg &&& 0xfff).setWidth 32 <<< 8) ||| BitVec.twoPow 32 23

def writeFrame (reg : BitVec 16) (val : BitVec 8) : BitVec 32 := ((reg &&& 0xfff).setWidth 32 <<< 8) ||| val.setWidth 32

def ad951xReadReg (cs : ChipSelect) (reg : BitVec 16) : m (BitVec 8) := do
  let rval ← io.spiTxrx cs 24 (readFrame reg)
  return rval.setWidth 8

def ad951xWriteReg (cs : ChipSelect) (reg : BitVec 16) (val : BitVec 8) : m Unit := do
  let _ ← io.spiTxrx cs 24 (writeFrame reg val)

end Gpio

/-- `rf_readl` and `rf_writel` at `DDS_REG_GPIOR`. -/
def gpiorPort (levels : Nat → InputPins) : Port (BitVec 32) Gpior where
  read s := some (s.read levels)
  write data s := some (s.write data)

/-- On a port: read, change one bit, write back. -/
def portGpio : Gpio (Driver (BitVec 32)) where
  set pin value := .read fun g => .write (withPin pin value g) (.done ())
  get pin := .read fun g => .done (g &&& pin)

/-! ### On the register with its pins -/

variable (levels : Nat → InputPins)

theorem run_gpioSet (pin : BitVec 32) (value : Bool) (s : Gpior) :
    (portGpio.set pin value).run (gpiorPort levels) s = some ((), gpioSet levels pin value s) := rfl

theorem run_gpioGet (pin : BitVec 32) (s : Gpior) :
    (portGpio.get pin).run (gpiorPort levels) s = some (gpioGet levels pin s) := rfl

theorem run_spiRound (nBits : Nat) (x : Shifting) :
    (portGpio.spiRound nBits (x.value, x.rv)).run (gpiorPort levels) x.port =
      some (((spiRound levels nBits x).value, (spiRound levels nBits x).rv), (spiRound levels nBits x).port) := by
  rw [Gpio.spiRound, Driver.run_bind, run_gpioSet, Option.bind_some, Driver.run_bind, run_gpioSet, Option.bind_some,
    Driver.run_bind, run_gpioGet, Option.bind_some, Driver.run_bind, run_gpioSet, Option.bind_some]
  rfl

theorem run_spiLoop (nBits i : Nat) (x : Shifting) :
    (portGpio.spiLoop nBits i (x.value, x.rv)).run (gpiorPort levels) x.port =
      some (((spiLoop levels nBits i x).value, (spiLoop levels nBits i x).rv), (spiLoop levels nBits i x).port) := by
  induction i with
  | zero => rfl
  | succ i ih =>
    rw [Gpio.spiLoop, Driver.run_bind, ih, Option.bind_some]
    exact run_spiRound levels nBits (spiLoop levels nBits i x)

theorem run_spiTxrx (cs : ChipSelect) (nBits : Nat) (value : BitVec 32) (s : Gpior) :
    (portGpio.spiTxrx cs nBits value).run (gpiorPort levels) s = some (spiTxrx levels cs nBits value s) := by
  have hLoop := run_spiLoop levels nBits nBits
    ⟨value, 0, gpioSet levels cs.mask false (gpioSet levels pllSclk false s)⟩
  rw [Gpio.spiTxrx, Driver.run_bind, run_gpioSet, Option.bind_some, Driver.run_bind, run_gpioSet, Option.bind_some,
    Driver.run_bind, hLoop, Option.bind_some]
  rfl

/-! ### A whole frame -/

def frameEdges (nBits : Nat) (value : BitVec 32) : List Edge :=
  (List.range nBits).map fun i => ⟨true, sentBit nBits value i, sentBit nBits value i⟩

/-- What a transfer from these pins leaves behind. -/
structure Sent (levels : Nat → InputPins) (cs : ChipSelect) (nBits : Nat) (value : BitVec 32) (p : Pins)
    (r : BitVec 32 × Gpior) : Prop where
  shows : Shows cs p (frameEdges nBits value) r.2
  rv : ∀ k, r.1.getLsbD k = (decide (k < nBits) && (levels (sampleAt (nBits - 1 - k))).pllVcxoSdo)
  keeps : Keeps cs p r.2
  reads : r.2.reads = 4 * nBits + 3

theorem spiTxrx_sent (cs : ChipSelect) {nBits : Nat} (hn : nBits < 31) (value : BitVec 32) (p : Pins) :
    Sent levels cs nBits value p (spiTxrx levels cs nBits value ⟨p, [], 0⟩) := by
  obtain ⟨-, hCsClock, -, hCsBound⟩ := outputBits_bit cs
  let x := spiLoop levels nBits nBits
    ⟨value, 0, gpioSet levels cs.mask false (gpioSet levels pllSclk false ⟨p, [], 0⟩)⟩
  have h : Rounds levels cs nBits value p nBits x := spiLoop_rounds hn (rounds_zero cs nBits value p) (le_refl nBits)
  have hSets : Sets levels cs.bit true x.port (gpioSet levels cs.mask true x.port) := gpioSet_sets hCsBound true x.port
  have hClock := hSets.out 2 (by decide)
  rw [if_neg hCsClock.symm, h.low] at hClock
  exact ⟨h.shows.low hSets hClock, h.rv, h.keeps.next hSets (.inr (.inr rfl)), hSets.reads.trans (congrArg (· + 1) h.reads)⟩

/-! ### One frame after another -/

/-- The register after a wave that it has shown before. -/
def after (wave : List Pins) (reads : Nat) (s : Gpior) : Gpior := ⟨s.pins, wave ++ s.wave, reads + s.reads⟩

theorem run_after {α : Type} (d : Driver (BitVec 32) α) (wave : List Pins) (reads : Nat) (s : Gpior) :
    d.run (gpiorPort levels) (after wave reads s) =
      (d.run (gpiorPort fun n => levels (reads + n)) s).map fun r => (r.1, after wave reads r.2) := by
  induction d generalizing s with
  | done a => rfl
  | read next ih => exact ih _ { s with reads := s.reads + 1 }
  | write data next ih =>
    have hWrite : (after wave reads s).write data = after wave reads (s.write data) := by
      rw [after, Gpior.write, List.append_assoc]
      rfl
    change next.run _ ((after wave reads s).write data) = _
    rw [hWrite]
    exact ih (s.write data)

theorem spiTxrx_after (cs : ChipSelect) (nBits : Nat) (value : BitVec 32) (s : Gpior) :
    spiTxrx levels cs nBits value s =
      ((spiTxrx (fun n => levels (s.reads + n)) cs nBits value ⟨s.pins, [], 0⟩).1,
        after s.wave s.reads (spiTxrx (fun n => levels (s.reads + n)) cs nBits value ⟨s.pins, [], 0⟩).2) := by
  have hRun := run_after levels (portGpio.spiTxrx cs nBits value) s.wave s.reads ⟨s.pins, [], 0⟩
  rw [run_spiTxrx, run_spiTxrx, Option.map_some] at hRun
  have hStart : after s.wave s.reads ⟨s.pins, [], 0⟩ = s := by
    rw [after, List.append_nil]
    rfl
  rw [hStart] at hRun
  exact Option.some.inj hRun

theorem getLsbD_spiTxrx (cs : ChipSelect) {nBits : Nat} (hn : nBits < 31) (value : BitVec 32) (s : Gpior) (k : Nat) :
    (spiTxrx levels cs nBits value s).1.getLsbD k =
      (decide (k < nBits) && (levels (s.reads + sampleAt (nBits - 1 - k))).pllVcxoSdo) := by
  rw [spiTxrx_after]
  exact (spiTxrx_sent (fun n => levels (s.reads + n)) cs hn value s.pins).rv k

theorem reads_spiTxrx (cs : ChipSelect) {nBits : Nat} (hn : nBits < 31) (value : BitVec 32) (s : Gpior) :
    (spiTxrx levels cs nBits value s).2.reads = s.reads + (4 * nBits + 3) := by
  rw [spiTxrx_after]
  exact congrArg (s.reads + ·) (spiTxrx_sent (fun n => levels (s.reads + n)) cs hn value s.pins).reads

theorem Shows.frame {cs : ChipSelect} {p : Pins} {edges : List Edge} {s : Gpior} (h : Shows cs p edges s) {nBits : Nat}
    (hn : nBits < 31) (value : BitVec 32) :
    Shows cs p (edges ++ frameEdges nBits value) (spiTxrx levels cs nBits value s).2 := by
  have hSent := (spiTxrx_sent (fun n => levels (s.reads + n)) cs hn value s.pins).shows
  rw [spiTxrx_after]
  constructor
  · rw [after, getLastD_append, h.last, hSent.last]
  · rw [after, risingEdges_append, h.edges, h.last, hSent.edges]

end WrRfDemo.Spi

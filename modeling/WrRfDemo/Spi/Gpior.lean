import Mathlib.Data.BitVec

/-! # The GPIO register

`GPIOR` of the register block with the pins behind it. An output bit reads back as it was
written. `PLL_SDIO` reads the input pin, and every write of the register, whatever pin it is for,
reloads the latch of the output pin one clock after the other outputs have changed.
-/

namespace WrRfDemo.Spi

/-- `DDS_GPIOR_PLL_SCLK` and `DDS_GPIOR_PLL_SDIO`, as masks. -/
def pllSclk : BitVec 32 := BitVec.twoPow 32 2

def pllSdio : BitVec 32 := BitVec.twoPow 32 3

inductive ChipSelect
  | pllSysCsN | pllVcxoCsN
deriving DecidableEq

namespace ChipSelect

def bit : ChipSelect → Nat
  | pllSysCsN => 0
  | pllVcxoCsN => 6

def mask (cs : ChipSelect) : BitVec 32 := BitVec.twoPow 32 cs.bit

end ChipSelect

/-- The bits with an output register: all but `PLL_SDIO`, `PLL_VCXO_SDO` and `ADC_SDO`. -/
def outputBits : BitVec 32 := 0xfef7

structure InputPins where
  pllVcxoSdo : Bool
  adcSdo : Bool
  undriven : BitVec 32
deriving DecidableEq

structure Pins where
  out : BitVec 32
  sdio : Bool
deriving DecidableEq

namespace Pins

def sclk (p : Pins) : Bool := p.out.getLsbD 2

def selected (cs : ChipSelect) (p : Pins) : Bool := !p.out.getLsbD cs.bit

end Pins

/-- The register with the levels its output pins have shown, clock by clock, and the number of
reads. -/
structure Gpior where
  pins : Pins
  wave : List Pins
  reads : Nat
deriving DecidableEq

namespace Gpior

def value (i : InputPins) (s : Gpior) : BitVec 32 :=
  (s.pins.out &&& outputBits) |||
    (if i.pllVcxoSdo then pllSdio ||| BitVec.twoPow 32 8 else 0) |||
    (if i.adcSdo then BitVec.twoPow 32 16 else 0) ||| (i.undriven &&& 0xfffe0000)

def read (levels : Nat → InputPins) (s : Gpior) : BitVec 32 × Gpior :=
  (s.value (levels s.reads), { s with reads := s.reads + 1 })

def write (data : BitVec 32) (s : Gpior) : Gpior :=
  let early : Pins := ⟨data &&& outputBits, s.pins.sdio⟩
  let late : Pins := ⟨data &&& outputBits, data.getLsbD 3⟩
  { s with pins := late, wave := s.wave ++ [early, late] }

end Gpior

/-! ### Bits of the register -/

theorem getLsbD_twoPow_of_lt {j : Nat} (hj : j < 32) (k : Nat) : (BitVec.twoPow 32 j).getLsbD k = decide (j = k) := by
  rw [BitVec.getLsbD_twoPow]
  simp [hj]

theorem inputs_clear : ∀ k : Fin 32, outputBits.getLsbD k = true → pllSdio.getLsbD k = false ∧
    (BitVec.twoPow 32 8).getLsbD k = false ∧ (BitVec.twoPow 32 16).getLsbD k = false ∧
    (0xfffe0000#32).getLsbD k = false := by
  decide

theorem getLsbD_value (i : InputPins) (s : Gpior) {k : Nat} (hOut : outputBits.getLsbD k = true) :
    (s.value i).getLsbD k = s.pins.out.getLsbD k := by
  have hBound : k < 32 := BitVec.lt_of_getLsbD hOut
  obtain ⟨hSdio, hSdo, hAdc, hUnused⟩ := inputs_clear ⟨k, hBound⟩ hOut
  dsimp only at hSdio hSdo hAdc hUnused
  cases hLevel : i.pllVcxoSdo <;> cases hAdcLevel : i.adcSdo <;>
    simp [Gpior.value, hLevel, hAdcLevel, hOut, hSdio, hSdo, hAdc, hUnused]

theorem getLsbD_value_sdio (i : InputPins) (s : Gpior) : (s.value i).getLsbD 3 = i.pllVcxoSdo := by
  cases hLevel : i.pllVcxoSdo <;> cases hAdcLevel : i.adcSdo <;>
    simp [Gpior.value, hLevel, hAdcLevel, outputBits, pllSdio]

end WrRfDemo.Spi

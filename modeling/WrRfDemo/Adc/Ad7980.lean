import WrRfDemo.Adc.SpiMaster

/-! # The ADC interface

A trigger raises the conversion signal for a while, and then starts a transfer on the SPI master. The number of data
bits is sixteen in the design.
-/

namespace WrRfDemo.Adc

inductive AcquireState
  | waitTrig | startCnv | readback
deriving DecidableEq

structure AdcIn where
  rstN : Bool
  trig : Bool
  adcSdo : Bool
deriving DecidableEq

structure Ad7980 (numDataBits : Nat) where
  spi : SpiMaster numDataBits
  count : BitVec 8
  adcCnvO : Bool
  doAcq : Bool
  state : AcquireState
deriving DecidableEq

namespace Ad7980

variable {numDataBits : Nat}

def spiIn (i : AdcIn) (s : Ad7980 numDataBits) : SpiIn numDataBits where
  rstN := i.rstN
  start := s.doAcq
  cpol := false
  data := 0
  miso := i.adcSdo

def pAcquire (i : AdcIn) (s : Ad7980 numDataBits) : Ad7980 numDataBits :=
  if !i.rstN then { s with count := 0, adcCnvO := false, doAcq := false, state := .waitTrig }
  else match s.state with
  | .waitTrig => if i.trig then { s with count := 0, adcCnvO := true, state := .startCnv } else s
  | .startCnv =>
    if s.count = 100 then { s with count := s.count + 1, adcCnvO := false, doAcq := true, state := .readback }
    else { s with count := s.count + 1 }
  | .readback =>
    if s.spi.drdyO then { s with doAcq := false, state := .waitTrig } else { s with doAcq := false }

def clock (i : AdcIn) (s : Ad7980 numDataBits) : Ad7980 numDataBits :=
  { s.pAcquire i with spi := s.spi.clock 3 (s.spiIn i) }

/-- `adc_sck_o`, `d_valid_o` and `d_o`. -/
def adcSckO (i : AdcIn) (s : Ad7980 numDataBits) : Bool := s.spi.spiSclkO (s.spiIn i)

def dValidO (s : Ad7980 numDataBits) : Bool := s.spi.drdyO

def dO (s : Ad7980 numDataBits) : BitVec numDataBits := s.spi.dataO

end Ad7980

end WrRfDemo.Adc

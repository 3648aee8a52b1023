import WrRfDemo.Clocked.Run

/-! # The SPI master

A free-running divider, restarted by the start strobe, times the state machine: every state but the idle one is left at
the divider's tick.
-/

namespace WrRfDemo.Adc

inductive SpiState
  | idle | txCs | txDat1 | txDat2 | txSck1 | txSck2 | txCs2 | txGap
deriving DecidableEq

structure SpiIn (numDataBits : Nat) where
  rstN : Bool
  start : Bool
  cpol : Bool
  data : BitVec numDataBits
  miso : Bool
deriving DecidableEq

structure SpiMaster (numDataBits : Nat) where
  divider : BitVec 12
  state : SpiState
  sclk : Bool
  sreg : BitVec numDataBits
  rxSreg : BitVec numDataBits
  mosiO : Bool
  counter : BitVec 5
  drdyO : Bool
  dataO : BitVec numDataBits
deriving DecidableEq

namespace SpiMaster

variable {numDataBits : Nat}

/-- `g_div_ratio_log2` is the first argument. -/
def tick (divRatioLog2 : Nat) (s : SpiMaster numDataBits) : Bool := s.divider.getLsbD divRatioLog2

def pDivideSpiClock (divRatioLog2 : Nat) (i : SpiIn numDataBits) (s : SpiMaster numDataBits) : BitVec 12 :=
  if !i.rstN then 0 else if i.start || s.tick divRatioLog2 then 0 else s.divider + 1

/-- `p_main_fsm`, outside reset. -/
def mainFsm (tick : Bool) (i : SpiIn numDataBits) (s : SpiMaster numDataBits) : SpiMaster numDataBits :=
  match s.state with
  | .idle =>
    if i.start then { s with sclk := false, counter := 0, sreg := i.data, state := .txCs, mosiO := i.data.msb }
    else { s with sclk := false, counter := 0 }
  | .txCs => if tick then { s with state := .txDat1 } else s
  | .txDat1 => if tick then { s with mosiO := s.sreg.msb, sreg := s.sreg <<< 1, state := .txSck1 } else s
  | .txSck1 => if tick then { s with sclk := !s.sclk, counter := s.counter + 1, state := .txDat2 } else s
  | .txDat2 => if tick then { s with rxSreg := s.rxSreg.shiftConcat i.miso, state := .txSck2 } else s
  | .txSck2 =>
    if tick then
      { s with sclk := !s.sclk, state := if s.counter.toNat = numDataBits then .txCs2 else .txDat1 }
    else s
  | .txCs2 => if tick then { s with state := .txGap, dataO := s.rxSreg, drdyO := true } else s
  | .txGap => if tick then { s with drdyO := false, state := .idle } else { s with drdyO := false }

def pMainFsm (tick : Bool) (i : SpiIn numDataBits) (s : SpiMaster numDataBits) : SpiMaster numDataBits :=
  if !i.rstN then
    { s with state := .idle, sclk := false, sreg := 0, rxSreg := 0, mosiO := false, counter := 0, drdyO := false }
  else s.mainFsm tick i

def clock (divRatioLog2 : Nat) (i : SpiIn numDataBits) (s : SpiMaster numDataBits) : SpiMaster numDataBits :=
  { s.pMainFsm (s.tick divRatioLog2) i with divider := s.pDivideSpiClock divRatioLog2 i }

def spiSclkO (i : SpiIn numDataBits) (s : SpiMaster numDataBits) : Bool := s.sclk ^^ i.cpol

end SpiMaster

end WrRfDemo.Adc

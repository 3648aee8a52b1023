import WrRfDemo.Clocked.Field
import WrRfDemo.Clocked.Run
import WrRfDemo.Spi.Gpior

/-! # The register block on the bus

A shift register times the acknowledge of an access; the access itself happens in its first cycle. Registers that the
reference clock uses are carried over by a bit that stays up for two cycles, counters of the reference clock
are carried back before the acknowledge.
-/

namespace WrRfDemo.Registers

open Clocked Spi

inductive Reg
  | cr | gpior | freqHi | freqLo | gain | rstr | i2cr | pir | dlyr | phaser | macl | mach | hitCnt | missCnt | rxCnt | txCnt
  | pdFifoR0 | pdFifoCsr | tuneFifoR0 | tuneFifoCsr | others
deriving DecidableEq

namespace Reg

def decode (adr : BitVec 5) : Reg :=
  [cr, gpior, freqHi, freqLo, gain, rstr, i2cr, pir, dlyr, phaser, macl, mach, hitCnt, missCnt, rxCnt, txCnt, pdFifoR0,
    pdFifoCsr, tuneFifoR0, tuneFifoCsr].getD adr.toNat others

/-- The bits of the word that have a register, `_int` in the source. -/
def stored : Reg → BitVec 32
  | cr => 0xffff000f
  | gpior => outputBits
  | freqHi | freqLo | pir | macl => 0xffffffff
  | gain | dlyr | phaser | mach => 0xffff
  | rstr | i2cr => 0x3
  | _ => 0

def ackBit : Reg → Nat
  | cr => 2
  | freqHi | freqLo | gain => 3
  | hitCnt | missCnt => 5
  | _ => 0

end Reg

structure BusIn where
  cyc : Bool
  stb : Bool
  we : Bool
  adr : BitVec 5
  dat : BitVec 32
deriving DecidableEq

/-- `regs_i` and the FIFO ports, with the bits that stand where the source assigns `'X'`. -/
structure DeviceIn where
  crWrLink : Bool
  crWrTime : Bool
  pllSdio : Bool
  pllVcxoSdo : Bool
  adcSdo : Bool
  sclIn : Bool
  sdaIn : Bool
  rxCnt : BitVec 24
  txCnt : BitVec 24
  pdFifoOut : BitVec 16
  pdFifoFull : Bool
  pdFifoEmpty : Bool
  tuneFifoFull : Bool
  tuneFifoEmpty : Bool
  undefined : BitVec 32
deriving DecidableEq

/-- What an access assigns to `rddata_reg`: values to some bits, `'X'` to others. -/
structure Readout where
  defined : BitVec 32
  value : BitVec 32
  undefined : BitVec 32
deriving DecidableEq

def Readout.onto (o : Readout) (x old : BitVec 32) : BitVec 32 :=
  (o.value &&& o.defined) ||| (x &&& o.undefined) ||| (old &&& ~~~(o.defined ||| o.undefined))

def Readout.word (defined value : BitVec 32) : Readout := ⟨defined, value, ~~~defined⟩

def bitAt (k : Nat) (b : Bool) : BitVec 32 := if b then BitVec.twoPow 32 k else 0

/-- What a read shows of the bits that are stored: all but `ADC_BB_ENABLE`. -/
def Reg.shown : Reg → BitVec 32
  | cr => 0xffff0007
  | r => r.stored

def readout (d : DeviceIn) (granted : Bool) (word : BitVec 32) : Reg → Readout
  | .cr => .word 0xffff003f ((word &&& Reg.cr.shown) ||| bitAt 4 d.crWrLink ||| bitAt 5 d.crWrTime)
  | .gpior => .word 0x1ffff
    ((word &&& outputBits) ||| bitAt 3 d.pllSdio ||| bitAt 8 d.pllVcxoSdo ||| bitAt 16 d.adcSdo)
  | .i2cr => .word 0xf ((word &&& Reg.i2cr.shown) ||| bitAt 2 d.sclIn ||| bitAt 3 d.sdaIn)
  | .freqHi => .word Reg.freqHi.stored word
  | .freqLo => .word Reg.freqLo.stored word
  | .gain => .word Reg.gain.stored word
  | .rstr => .word Reg.rstr.stored word
  | .pir => .word Reg.pir.stored word
  | .dlyr => .word Reg.dlyr.stored word
  | .phaser => .word Reg.phaser.stored word
  | .macl => .word Reg.macl.stored word
  | .mach => .word Reg.mach.stored word
  | .hitCnt => ⟨0, 0, 0xff000000⟩
  | .missCnt => ⟨0, 0, 0xff000000⟩
  | .rxCnt => .word 0xffffff (d.rxCnt.setWidth 32)
  | .txCnt => .word 0xffffff (d.txCnt.setWidth 32)
  | .pdFifoR0 => ⟨if granted then 0xffff else 0, d.pdFifoOut.setWidth 32, 0xffff0000⟩
  | .pdFifoCsr => .word 0x30000 (bitAt 16 d.pdFifoFull ||| bitAt 17 d.pdFifoEmpty)
  | .tuneFifoR0 => .word 0 0
  | .tuneFifoCsr => .word 0x30000 (bitAt 16 d.tuneFifoFull ||| bitAt 17 d.tuneFifoEmpty)
  | .others => ⟨0, 0, 0⟩

/-- `swb` and `swb_delay`: a register on its way to the reference clock. -/
structure Swb where
  swb : Bool
  delay : Bool
deriving DecidableEq

/-- `lwb`, `lwb_delay` and `lwb_in_progress`: a counter on its way from the reference clock. -/
structure Lwb where
  lwb : Bool
  delay : Bool
  inProgress : Bool
deriving DecidableEq

structure WbSlave where
  ackSreg : BitVec 10
  ackInProgress : Bool
  rddataReg : BitVec 32
  bank : Reg → BitVec 32
  freqHi : Swb
  freqLo : Swb
  gain : Swb
  hitCnt : Lwb
  missCnt : Lwb
  pdFifoRdreq : Bool
  pdFifoRdreqD0 : Bool
  tuneFifoIn : BitVec 32
  tuneFifoWrreq : Bool
  sdioLoad : Bool
  adcBbEnableDly0 : Bool
  adcBbEnableO : Bool

structure SysIn where
  bus : BusIn
  device : DeviceIn
  hitCntInt : BitVec 24
  missCntInt : BitVec 24
deriving DecidableEq

def Swb.wait (s : Swb) : Swb := ⟨s.delay, false⟩

/-- A register that is written: only the first of an access counts, and only for its own word. -/
def Swb.access (i : BusIn) (own : Reg) (s : Swb) : Swb :=
  if i.we ∧ Reg.decode i.adr = own then ⟨true, true⟩ else s

def Lwb.wait (last : Bool) (s : Lwb) : Lwb := ⟨s.delay, false, s.inProgress && !last⟩

def Lwb.access (i : BusIn) (own : Reg) (s : Lwb) : Lwb :=
  if !i.we ∧ Reg.decode i.adr = own then ⟨true, true, true⟩ else s

namespace WbSlave

def reset : WbSlave where
  ackSreg := 0
  ackInProgress := false
  rddataReg := 0
  bank r := if r = .i2cr then 0x3 else 0
  freqHi := ⟨false, false⟩
  freqLo := ⟨false, false⟩
  gain := ⟨false, false⟩
  hitCnt := ⟨false, false, false⟩
  missCnt := ⟨false, false, false⟩
  pdFifoRdreq := false
  pdFifoRdreqD0 := false
  tuneFifoIn := 0
  tuneFifoWrreq := false
  sdioLoad := false
  adcBbEnableDly0 := false
  adcBbEnableO := false

def wbAckO (s : WbSlave) : Bool := s.ackSreg.getLsbD 0

def wbStallO (i : BusIn) (s : WbSlave) : Bool := !s.wbAckO && (i.stb && i.cyc)

/-- The test FIFO shows its word in the cycle after the read request. -/
def granted (r : Reg) (s : WbSlave) : Bool := r ≠ .pdFifoR0 ∨ s.pdFifoRdreqD0 = true

def finish (s : WbSlave) : WbSlave :=
  { s with
    bank := Function.update s.bank .cr (s.bank .cr &&& Reg.cr.shown)
    sdioLoad := false
    tuneFifoWrreq := false
    ackInProgress := false }

def wait (i : SysIn) (last : Bool) (s : WbSlave) : WbSlave :=
  let hit := if last && s.hitCnt.inProgress then setField 0 i.hitCntInt s.rddataReg else s.rddataReg
  { s with
    sdioLoad := false
    freqHi := s.freqHi.wait
    freqLo := s.freqLo.wait
    gain := s.gain.wait
    hitCnt := s.hitCnt.wait last
    missCnt := s.missCnt.wait last
    rddataReg := if last && s.missCnt.inProgress then setField 0 i.missCntInt hit else hit }

def access (i : SysIn) (s : WbSlave) : WbSlave :=
  let r := Reg.decode i.bus.adr
  let granted := s.granted r
  { s with
    bank := if i.bus.we then Function.update s.bank r (i.bus.dat &&& r.stored) else s.bank
    rddataReg := (readout i.device granted (s.bank r) r).onto i.device.undefined s.rddataReg
    freqHi := s.freqHi.access i.bus .freqHi
    freqLo := s.freqLo.access i.bus .freqLo
    gain := s.gain.access i.bus .gain
    hitCnt := s.hitCnt.access i.bus .hitCnt
    missCnt := s.missCnt.access i.bus .missCnt
    pdFifoRdreq := if granted then s.pdFifoRdreq else !s.pdFifoRdreq
    tuneFifoIn := if i.bus.we ∧ r = .tuneFifoR0 then i.bus.dat else s.tuneFifoIn
    tuneFifoWrreq := if i.bus.we ∧ r = .tuneFifoR0 then true else s.tuneFifoWrreq
    sdioLoad := if i.bus.we ∧ r = .gpior then true else s.sdioLoad
    ackSreg := if granted then s.ackSreg ||| BitVec.twoPow 10 r.ackBit else s.ackSreg
    ackInProgress := granted }

def shift (s : WbSlave) : WbSlave := { s with ackSreg := s.ackSreg >>> 1 }

def beside (s next : WbSlave) : WbSlave :=
  { next with
    pdFifoRdreqD0 := s.pdFifoRdreq
    adcBbEnableDly0 := (s.bank .cr).getLsbD 3
    adcBbEnableO := (s.bank .cr).getLsbD 3 && !s.adcBbEnableDly0 }

def clock (i : SysIn) (s : WbSlave) : WbSlave :=
  s.beside <|
    if s.ackInProgress then
      if s.wbAckO then s.shift.finish else s.shift.wait i (s.ackSreg.getLsbD 1)
    else if i.bus.cyc && i.bus.stb then s.shift.access i
    else s.shift

/-! ### The four kinds of cycles -/

variable {s : WbSlave} {i : SysIn}

theorem clock_ack (hBusy : s.ackInProgress = true) (hAck : s.wbAckO = true) : s.clock i = s.beside s.shift.finish := by
  rw [clock, if_pos hBusy, if_pos hAck]

theorem clock_wait (hBusy : s.ackInProgress = true) (hAck : s.wbAckO = false) :
    s.clock i = s.beside (s.shift.wait i (s.ackSreg.getLsbD 1)) := by
  rw [clock, if_pos hBusy, if_neg (by simp [hAck])]

theorem clock_access (hIdle : s.ackInProgress = false) (hStrobe : (i.bus.cyc && i.bus.stb) = true) :
    s.clock i = s.beside (s.shift.access i) := by
  rw [clock, if_neg (by simp [hIdle]), if_pos hStrobe]

theorem clock_idle (hIdle : s.ackInProgress = false) (hStrobe : (i.bus.cyc && i.bus.stb) = false) :
    s.clock i = s.beside s.shift := by
  rw [clock, if_neg (by simp [hIdle]), if_neg (by simp [hStrobe])]

@[simp] theorem granted_shift (r : Reg) (s : WbSlave) : s.shift.granted r = s.granted r := rfl

theorem granted_of_ne {r : Reg} (h : r ≠ .pdFifoR0) (s : WbSlave) : s.granted r = true := by
  simp [granted, h]

end WbSlave

end WrRfDemo.Registers

import WrRfDemo.Clocked.Run
import WrRfDemo.Timing.WrTime
import WrRfDemo.Dds.RxPath

/-! # The slave's drive path

`p_drive_fsm` pops a sample from the FIFO, waits for the comparator to pass judgement on it
and then for its adjusted time to come. The delay is added by the pipelined adder, which
works on whatever the FIFO shows, and the comparator works on whatever the adder shows.
-/

namespace WrRfDemo.Dds

open Clocked Timing

inductive DriveState
  | waitSample | readSample | adjust | waitTrigger
deriving DecidableEq

structure DriveIn where
  rstN : Bool
  slaveModeOn : Bool
  tmTimeValid : Bool
  tmTai : BitVec 40
  tmCycles : BitVec 28
  dlyrDelay : BitVec 16
  newSampleRdy : Bool
  arrivals : List (BitVec 128)
deriving DecidableEq

/-- `fifo` holds the words that the read side of `U_Sync_FIFO` already shows as present. -/
structure DrivePath where
  fifo : List (BitVec 128)
  fifoOut : BitVec 128
  adder : TsAdder 2 28 32
  tmD0 : Stamp 32 28
  compare : TsCompare
  state : DriveState
  fifoRd : Bool
  compareEnable : Bool
  newSampleRef : Bool
  hitCnt : BitVec 24
  missCnt : BitVec 24
  accO : BitVec 43
  tuneO : BitVec 18
  accLoadO : Bool
deriving DecidableEq

namespace DrivePath

def fifoEmpty (s : DrivePath) : Bool := s.fifo.isEmpty

/-- `tai_ref`, `cycles_ref`, `acc_ref` and `tune_ref`. -/
def ref (s : DrivePath) : Entry := unpack s.fifoOut

def adderIn (i : DriveIn) (s : DrivePath) : TsAdderIn 2 28 32 where
  rstN := i.rstN
  valid := i.newSampleRdy
  enable := true
  a := ⟨s.ref.tai, s.ref.cycles⟩
  aFrac := 0
  b := ⟨0, i.dlyrDelay.setWidth 28⟩
  bFrac := 0

def adj (s : DrivePath) : Stamp 32 28 := s.adder.q

def compareIn (i : DriveIn) (s : DrivePath) : TsCompareIn 32 28 where
  rstN := i.rstN
  valid := s.compareEnable
  a := s.adj
  b := s.tmD0

def compareDone (s : DrivePath) : Bool := s.compare.validO

def tsHit (s : DrivePath) : Bool := s.compare.equalO

def tsMiss (s : DrivePath) : Bool := s.compare.aGreatO

def on (i : DriveIn) : Bool := i.rstN && i.slaveModeOn && i.tmTimeValid

def pDriveFsm (i : DriveIn) (s : DrivePath) : DrivePath :=
  if !on i then
    { s with accLoadO := false, state := .waitSample, fifoRd := false, compareEnable := false,
             newSampleRef := false, hitCnt := 0, missCnt := 0 }
  else match s.state with
  | .waitSample =>
    if !s.fifoEmpty then
      { s with accLoadO := false, compareEnable := false, fifoRd := true, state := .readSample }
    else { s with accLoadO := false, compareEnable := false }
  | .readSample => { s with compareEnable := true, fifoRd := false, newSampleRef := true, state := .adjust }
  | .adjust =>
    if s.compareDone then
      if s.tsMiss then { s with newSampleRef := false, missCnt := s.missCnt + 1, state := .waitSample }
      else { s with newSampleRef := false, state := .waitTrigger }
    else { s with newSampleRef := false }
  | .waitTrigger =>
    if s.tsHit then
      { s with accLoadO := false, accO := s.ref.acc, tuneO := s.ref.tune, state := .waitSample,
               hitCnt := s.hitCnt + 1 }
    else { s with accLoadO := false }

def clock (i : DriveIn) (s : DrivePath) : DrivePath :=
  { s.pDriveFsm i with
    fifo := (if s.fifoRd then s.fifo.tail else s.fifo) ++ i.arrivals
    fifoOut := if s.fifoRd then s.fifo.headD s.fifoOut else s.fifoOut
    adder := s.adder.clock refClkRate (s.adderIn i)
    tmD0 := ⟨field 0 32 i.tmTai, i.tmCycles⟩
    compare := s.compare.clock (s.compareIn i) }

end DrivePath

/-! ### A session: slave mode on, and the WR time running -/

/-- The drive path with the WR time as a tick count. -/
structure Session where
  path : DrivePath
  now : Nat
deriving DecidableEq

/-- What varies from cycle to cycle: the words that reach the FIFO, and an undriven wire. -/
structure SessionIn where
  arrivals : List (BitVec 128)
  newSampleRdy : Bool
deriving DecidableEq

namespace Session

def driveIn (delay : BitVec 16) (i : SessionIn) (s : Session) : DriveIn where
  rstN := true
  slaveModeOn := true
  tmTimeValid := true
  tmTai := (tickStamp 40 s.now).tai
  tmCycles := (tickStamp 40 s.now).cycles
  dlyrDelay := delay
  newSampleRdy := i.newSampleRdy
  arrivals := i.arrivals

def step (delay : BitVec 16) (i : SessionIn) (s : Session) : Session :=
  ⟨s.path.clock (s.driveIn delay i), s.now + 1⟩

end Session

/-- The tick at which a sample is due: its timestamp plus the delay. -/
def Entry.due (delay : BitVec 16) (e : Entry) : Nat :=
  e.tai.toNat * refClkRate + (e.cycles.toNat + delay.toNat)

/-! ### What becomes of each sample -/

structure Verdict where
  sample : Entry
  checkedAt : Nat
  appliedAt : Option Nat
deriving DecidableEq

structure DriveLog where
  popped : List Entry
  checkedAt : Nat
  verdicts : List Verdict
deriving DecidableEq

namespace DriveLog

def empty : DriveLog := ⟨[], 0, []⟩

def popAt (s : DrivePath) : List Entry := if s.fifoRd then (s.fifo.head?.map unpack).toList else []

def checkedAtStep (o : DriveLog) (s : Session) : Nat :=
  if s.path.state = .adjust ∧ s.path.compareDone = true then s.now else o.checkedAt

def verdictAt (o : DriveLog) (s : Session) : List Verdict :=
  match s.path.state with
  | .adjust =>
    if s.path.compareDone && s.path.tsMiss then [⟨s.path.ref, s.now, none⟩] else []
  | .waitTrigger => if s.path.tsHit then [⟨s.path.ref, o.checkedAt, some s.now⟩] else []
  | _ => []

def see (o : DriveLog) (_ : SessionIn) (s : Session) : DriveLog where
  popped := o.popped ++ popAt s.path
  checkedAt := o.checkedAtStep s
  verdicts := o.verdicts ++ o.verdictAt s

def hits (o : DriveLog) : List Verdict := o.verdicts.filter fun v => v.appliedAt.isSome

def misses (o : DriveLog) : List Verdict := o.verdicts.filter fun v => v.appliedAt.isNone

end DriveLog

/-- The FIFO word left a sample in the hands of the state machine. -/
def DrivePath.busy (s : DrivePath) : Bool := s.state == .adjust || s.state == .waitTrigger

/-- The pipeline behind the FIFO needs three more cycles to see that the time has come. -/
def triggerLatency : Nat := 3

/-- A sample that is ahead of the WR time when it is checked is applied when its time comes, any
other is missed. -/
def Verdict.Right (delay : BitVec 16) (v : Verdict) : Prop :=
  v.appliedAt = if v.checkedAt < v.sample.due delay then some (v.sample.due delay + triggerLatency) else none

/-- Every popped sample is resolved in its turn and rightly, the counters and the outputs follow,
and no sample is waited for past its time. -/
structure DriveLog.Resolved (delay : BitVec 16) (o : DriveLog) (s : Session) : Prop where
  order : o.popped = o.verdicts.map Verdict.sample ++ if s.path.busy then [s.path.ref] else []
  right : ∀ v ∈ o.verdicts, v.Right delay
  hitCnt : s.path.hitCnt = BitVec.ofNat 24 o.hits.length
  missCnt : s.path.missCnt = BitVec.ofNat 24 o.misses.length
  applied : ∀ v ∈ o.hits.getLast?, s.path.accO = v.sample.acc ∧ s.path.tuneO = v.sample.tune
  notLate : s.path.state = .waitTrigger → s.now ≤ s.path.ref.due delay + triggerLatency

end WrRfDemo.Dds

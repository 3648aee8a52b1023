import WrRfDemo.Clocked.Run
import WrRfDemo.Clocked.Field

/-! # The master's sample path

`p_take_tags` snapshots the phase accumulator, the tuning word and the WR time in the
reference clock domain; `p_tx_fsm` reads the snapshot in the system clock domain, one
streamer word at a time. `gc_pulse_synchronizer` carries each sample pulse across once,
after any delay.
-/

namespace WrRfDemo.Dds

open Clocked

/-- What one sample records: TAI seconds, cycles, accumulator and tuning word. -/
structure Sample where
  tai : BitVec 40
  cycles : BitVec 28
  acc : BitVec 43
  tune : BitVec 18
deriving DecidableEq

inductive TxState
  | waitSample | txTimestamp | txTune | txAcc | txPad
deriving DecidableEq

structure TxPath where
  tuneValid : Bool
  newSample : Bool
  accSnap : BitVec 43
  tuneSnap : BitVec 18
  taiSnap : BitVec 40
  cyclesSnap : BitVec 28
  state : TxState
  txData : BitVec 64
  txValid : Bool
  txLast : Bool
  txCnt : BitVec 24
deriving DecidableEq

structure TxRefIn where
  rstN : Bool
  cicCe : Bool
  tmTimeValid : Bool
  acc : BitVec 43
  tune : BitVec 18
  tmTai : BitVec 40
  tmCycles : BitVec 28
deriving DecidableEq

structure TxSysIn where
  rstN : Bool
  crMaster : Bool
  crClkId : BitVec 16
  newSampleSys : Bool
  txDreq : Bool
deriving DecidableEq

namespace TxPath

def captures (i : TxRefIn) (s : TxPath) : Bool := i.rstN && s.tuneValid && i.tmTimeValid

def sampleIn (i : TxRefIn) : Sample := ⟨i.tmTai, i.tmCycles, i.acc, i.tune⟩

def snapshot (s : TxPath) : Sample := ⟨s.taiSnap, s.cyclesSnap, s.accSnap, s.tuneSnap⟩

def pTakeTags (i : TxRefIn) (s : TxPath) : TxPath :=
  if !i.rstN then { s with newSample := false, tuneValid := false }
  else if s.tuneValid && i.tmTimeValid then
    { s with tuneValid := i.cicCe, newSample := true, accSnap := i.acc, tuneSnap := i.tune,
             taiSnap := i.tmTai, cyclesSnap := i.tmCycles }
  else { s with tuneValid := i.cicCe, newSample := false }

def timestampWord (s : TxPath) : BitVec 64 :=
  setField 32 (field 0 32 s.taiSnap) (setField 0 s.cyclesSnap s.txData)

def accWord (s : TxPath) : BitVec 64 := setField 0 s.accSnap s.txData

def tuneWord (crClkId : BitVec 16) (s : TxPath) : BitVec 64 :=
  setField 32 crClkId (setField 0 s.tuneSnap s.txData)

def pTxFsm (i : TxSysIn) (s : TxPath) : TxPath :=
  if !i.rstN || !i.crMaster then
    { s with state := .waitSample, txValid := false, txLast := false, txData := 0, txCnt := 0 }
  else match s.state with
  | .waitSample =>
    { s with txValid := false, txLast := false,
             state := if i.newSampleSys then .txTimestamp else .waitSample }
  | .txTimestamp =>
    if i.txDreq then
      { s with txCnt := s.txCnt + 1, txData := s.timestampWord, txValid := true, txLast := false,
               state := .txAcc }
    else { s with txCnt := s.txCnt + 1, txValid := false }
  | .txAcc =>
    if i.txDreq then { s with txData := s.accWord, txValid := true, txLast := false, state := .txTune }
    else { s with txValid := false }
  | .txTune =>
    if i.txDreq then
      { s with txData := s.tuneWord i.crClkId, txValid := true, txLast := false, state := .txPad }
    else { s with txValid := false }
  | .txPad =>
    if i.txDreq then { s with txValid := true, txLast := true, state := .waitSample }
    else { s with txValid := false }

end TxPath

/-! ### The two clock domains interleaved -/

/-- The path together with the sample pulses on their way to the system clock domain. -/
structure TxNode where
  path : TxPath
  pulses : Nat
deriving DecidableEq

/-- One edge of either clock; `deliver` says whether a pulse under way arrives in this cycle. -/
inductive TxEvent
  | ref (i : TxRefIn)
  | sys (rstN crMaster : Bool) (crClkId : BitVec 16) (deliver txDreq : Bool)
deriving DecidableEq

namespace TxNode

def newSampleSys (deliver : Bool) (s : TxNode) : Bool := deliver && s.pulses != 0

def step : TxEvent → TxNode → TxNode
  | .ref i, s => ⟨s.path.pTakeTags i, if s.path.newSample then s.pulses + 1 else s.pulses⟩
  | .sys rstN crMaster crClkId deliver txDreq, s =>
    ⟨s.path.pTxFsm ⟨rstN, crMaster, crClkId, s.newSampleSys deliver, txDreq⟩,
      if s.newSampleSys deliver then s.pulses - 1 else s.pulses⟩

end TxNode

end WrRfDemo.Dds

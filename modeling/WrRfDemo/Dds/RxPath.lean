import WrRfDemo.Clocked.Run
import WrRfDemo.Clocked.Field

/-! # The slave's sample assembly

`p_rx_fsm` collects the first three words of a block from the streamer and pushes them,
packed into 128 bits, to the FIFO that leads to the reference clock domain. While slave
mode is off it is frozen where it stands.
-/

namespace WrRfDemo.Dds

open Clocked

inductive RxState
  | waitSample | tune | acc
deriving DecidableEq

structure RxIn where
  rstN : Bool
  crSlave : Bool
  crClkId : BitVec 16
  rxValid : Bool
  rxFirst : Bool
  rxData : BitVec 64
  fifoFull : Bool
deriving DecidableEq

structure RxPath where
  state : RxState
  taiSys : BitVec 32
  cyclesSys : BitVec 28
  accSys : BitVec 43
  tuneSys : BitVec 18
  newSampleSys : Bool
  rxCnt : BitVec 24
  rxDreq : Bool
deriving DecidableEq

structure Entry where
  tai : BitVec 32
  cycles : BitVec 28
  acc : BitVec 43
  tune : BitVec 18
deriving DecidableEq

namespace RxPath

def pRxFsm (i : RxIn) (s : RxPath) : RxPath :=
  if !i.rstN then { s with state := .waitSample, newSampleSys := false, rxCnt := 0 }
  else if !i.crSlave then { s with rxDreq := true }
  else match s.state with
  | .waitSample =>
    if i.rxValid && i.rxFirst then
      { s with rxDreq := true, newSampleSys := false, state := .acc, taiSys := field 32 32 i.rxData,
               cyclesSys := field 0 28 i.rxData }
    else { s with rxDreq := true, newSampleSys := false }
  | .acc => if i.rxValid then { s with accSys := field 0 43 i.rxData, state := .tune } else s
  | .tune =>
    if i.rxValid then
      if field 32 16 i.rxData = i.crClkId then
        { s with tuneSys := field 0 18 i.rxData, state := .waitSample, rxCnt := s.rxCnt + 1,
                 newSampleSys := !i.fifoFull }
      else { s with tuneSys := field 0 18 i.rxData, state := .waitSample }
    else s

/-- `fifo_in`; nothing drives the bits of `undriven` that show through. -/
def fifoIn (undriven : BitVec 128) (s : RxPath) : BitVec 128 :=
  setField 96 s.taiSys (setField 64 s.cyclesSys (setField 46 s.tuneSys (setField 0 s.accSys undriven)))

def fifoWrite (i : RxIn) (undriven : BitVec 128) (s : RxPath) : Option (BitVec 128) :=
  if i.rstN && s.newSampleSys then some (s.fifoIn undriven) else none

def held (s : RxPath) : Entry := ⟨s.taiSys, s.cyclesSys, s.accSys, s.tuneSys⟩

end RxPath

/-- `tai_ref`, `cycles_ref`, `acc_ref` and `tune_ref` of a FIFO word. -/
def unpack (fifoOut : BitVec 128) : Entry :=
  ⟨field 96 32 fifoOut, field 64 28 fifoOut, field 0 43 fifoOut, field 46 18 fifoOut⟩

theorem unpack_fifoIn (undriven : BitVec 128) (s : RxPath) : unpack (s.fifoIn undriven) = s.held := by
  have hCycles : field 64 28 (s.fifoIn undriven) = s.cyclesSys := by
    rw [RxPath.fifoIn, field_setField_of_disjoint _ _ (by decide), field_setField_same _ _ (by decide)]
  have hTune : field 46 18 (s.fifoIn undriven) = s.tuneSys := by
    rw [RxPath.fifoIn, field_setField_of_disjoint _ _ (by decide),
      field_setField_of_disjoint _ _ (by decide), field_setField_same _ _ (by decide)]
  have hAcc : field 0 43 (s.fifoIn undriven) = s.accSys := by
    rw [RxPath.fifoIn, field_setField_of_disjoint _ _ (by decide),
      field_setField_of_disjoint _ _ (by decide), field_setField_of_disjoint _ _ (by decide),
      field_setField_same _ _ (by decide)]
  have hTai : field 96 32 (s.fifoIn undriven) = s.taiSys := field_setField_same _ _ (by decide)
  rw [unpack, hTai, hCycles, hAcc, hTune, RxPath.held]

/-! ### Blocks received and entries written -/

/-- A received word with the clock id that the slave was set to in that cycle. -/
structure RxWord where
  data : BitVec 64
  crClkId : BitVec 16
deriving DecidableEq

def entryOf : List RxWord → Option Entry
  | w1 :: w2 :: w3 :: _ =>
    if field 32 16 w3.data = w3.crClkId then
      some ⟨field 32 32 w1.data, field 0 28 w1.data, field 0 43 w2.data, field 0 18 w3.data⟩
    else none
  | _ => none

structure RxLog where
  closed : List (List RxWord)
  opened : List RxWord
  written : List (BitVec 128)
deriving DecidableEq

namespace RxLog

def empty : RxLog := ⟨[], [], []⟩

def blocks (o : RxLog) : List (List RxWord) := o.closed ++ [o.opened]

/-- A word marked first opens a block; words before the first such word belong to none. -/
def receive (word : RxWord) (first : Bool) (o : RxLog) : RxLog :=
  if first then { o with closed := o.closed ++ [o.opened], opened := [word] }
  else { o with opened := if o.opened.isEmpty then [] else o.opened ++ [word] }

def see (o : RxLog) (i : RxIn × BitVec 128) (s : RxPath) : RxLog :=
  let o := if i.1.rxValid then o.receive ⟨i.1.rxData, i.1.crClkId⟩ i.1.rxFirst else o
  { o with written := o.written ++ (s.fifoWrite i.1 i.2).toList }

end RxLog

end WrRfDemo.Dds

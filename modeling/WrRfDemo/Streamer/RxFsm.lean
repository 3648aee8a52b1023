import WrRfDemo.Clocked.Field
import WrRfDemo.Streamer.DroppingBuffer

/-! # The receiving state machine

`p_fsm` of the receiving streamer: it filters the Ethernet header, follows the subframes and
packs their half-words into data words. A word is written one half-word before the next one
is complete, or by the escape word that closes the subframe, which then is known to be last.
-/

namespace WrRfDemo.Streamer

open Clocked

inductive RxFsmState
  | idle | header | payload | subframeHeader | eof
deriving DecidableEq

structure RxConfig where
  macLocal : BitVec 48
  macRemote : BitVec 48
  ethertype : BitVec 16
  acceptBroadcasts : Bool
  filterRemoteMac : Bool
deriving DecidableEq

/-- `fsm_in` with the escape flag, the CRC check and the tag of the receiving timestamper. -/
structure FsmIn where
  rstN : Bool
  sof : Bool
  eof : Bool
  dvalid : Bool
  data : BitVec 16
  isEscape : Bool
  crcMatch : Bool
  rxTagCycles : BitVec 28
deriving DecidableEq

/-- The registers for a `g_data_width` of `16 * n` bits. -/
structure RxFsm (n : Nat) where
  state : RxFsmState
  count : BitVec 4
  serCount : BitVec 4
  seqNo : BitVec 15
  crcEn : Bool
  detectEscapes : Bool
  packData : BitVec (16 * n)
  fifoData : BitVec (16 * n)
  fifoDrop : Bool
  fifoAccept : Bool
  fifoDvalid : Bool
  fifoSync : Bool
  fifoLast : Bool
  fifoLost : Bool
  pendingWrite : Bool
  gotNextSubframe : Bool
  txTagCycles : BitVec 28
  txTagValid : Bool
  rxLatency : BitVec 28
  rxLatencyValid : Bool
deriving DecidableEq

/-- One word of `U_Output_FIFO`. -/
structure FifoWord (n : Nat) where
  data : BitVec (16 * n)
  first : Bool
  last : Bool
deriving DecidableEq

namespace RxFsm

variable {n : Nat}

def fifoDin (s : RxFsm n) : FifoWord n := ⟨s.fifoData, s.fifoSync, s.fifoLast⟩

/-- A destination word is turned down by `nor`: when it is the expected one and not let through
as part of a broadcast. -/
def rejectsLocal (cfg : RxConfig) (expected data : BitVec 16) : Bool :=
  !(data != expected || (cfg.acceptBroadcasts && data != 0xffff))

def rejectsRemote (cfg : RxConfig) (expected data : BitVec 16) : Bool :=
  data != expected && cfg.filterRemoteMac

def rejects (cfg : RxConfig) (count : BitVec 4) (data : BitVec 16) : Bool :=
  match count with
  | 0 => rejectsLocal cfg (field 32 16 cfg.macLocal) data
  | 1 => rejectsLocal cfg (field 16 16 cfg.macLocal) data
  | 2 => rejectsLocal cfg (field 0 16 cfg.macLocal) data
  | 3 => rejectsRemote cfg (field 32 16 cfg.macRemote) data
  | 4 => rejectsRemote cfg (field 16 16 cfg.macRemote) data
  | 5 => rejectsRemote cfg (field 0 16 cfg.macRemote) data
  | 6 => data != cfg.ethertype
  | _ => false

def idle (i : FsmIn) (s : RxFsm n) : RxFsm n :=
  { s with detectEscapes := false, crcEn := false, count := 0, fifoAccept := false, fifoDrop := false,
           fifoDvalid := false, pendingWrite := false, rxLatencyValid := false, txTagValid := false,
           state := if i.sof then .header else .idle }

def headerWord (cfg : RxConfig) (i : FsmIn) (s : RxFsm n) : RxFsm n :=
  if s.count = 7 then
    { s with txTagValid := i.data.msb, txTagCycles := setField 16 (field 0 12 i.data) s.txTagCycles }
  else if s.count = 8 then
    { s with txTagCycles := setField 0 i.data s.txTagCycles, crcEn := true, detectEscapes := true,
             state := .subframeHeader }
  else if rejects cfg s.count i.data then { s with state := .idle }
  else s

def header (cfg : RxConfig) (i : FsmIn) (s : RxFsm n) : RxFsm n :=
  if i.eof then { s with state := .idle }
  else if i.dvalid then { s.headerWord cfg i with count := s.count + 1 }
  else s

/-- The latency is the difference of the two tags within a second of 125000000 cycles. -/
def measureLatency (i : FsmIn) (s : RxFsm n) : RxFsm n :=
  if s.txTagValid then
    { s with rxLatencyValid := true, txTagValid := false,
             rxLatency := if s.txTagCycles > i.rxTagCycles then i.rxTagCycles - s.txTagCycles + 125000000
               else i.rxTagCycles - s.txTagCycles }
  else { s with rxLatencyValid := false }

def checkSeqNo (data : BitVec 16) (s : RxFsm n) : RxFsm n :=
  if s.seqNo ≠ field 0 15 data then { s with seqNo := field 0 15 data, fifoLost := true }
  else { s with seqNo := s.seqNo + 1, fifoLost := false }

def subframeHeader (i : FsmIn) (s : RxFsm n) : RxFsm n :=
  let s := { s with fifoDrop := false, fifoAccept := false, serCount := 0 }.measureLatency i
  if i.eof then { s with state := .idle }
  else if i.dvalid && i.isEscape then { s.checkSeqNo i.data with gotNextSubframe := true, state := .payload }
  else s

def close (i : FsmIn) (s : RxFsm n) : RxFsm n :=
  let s := { s with serCount := 0, fifoLast := true, gotNextSubframe := true }
  if i.data.msb then
    { s.checkSeqNo i.data with
      fifoAccept := i.crcMatch, fifoDrop := !i.crcMatch, fifoDvalid := s.pendingWrite && !s.fifoDvalid,
      pendingWrite := false }
  else if i.data = 0x0bad then
    { s with state := .eof, fifoAccept := i.crcMatch, fifoDrop := !i.crcMatch,
             fifoDvalid := s.pendingWrite && !s.fifoDvalid }
  else { s with state := .eof, fifoDrop := true, fifoAccept := false }

def pack (i : FsmIn) (s : RxFsm n) : RxFsm n :=
  let next := { s with
    fifoLast := false, fifoAccept := false, fifoDrop := false,
    packData := setField (16 * s.serCount.toNat) i.data s.packData }
  if s.serCount.toNat + 1 = n then
    { next with serCount := 0, pendingWrite := true, fifoDvalid := false,
                fifoData := setField (16 * (n - 1)) i.data s.packData }
  else if s.serCount.toNat + 2 = n ∧ s.pendingWrite = true then
    { next with serCount := s.serCount + 1, pendingWrite := false, fifoDvalid := true,
                gotNextSubframe := false }
  else { next with serCount := s.serCount + 1, fifoDvalid := false }

def payload (i : FsmIn) (s : RxFsm n) : RxFsm n :=
  let next :=
    if i.eof then
      { s with state := .idle, fifoDrop := true, fifoAccept := false, gotNextSubframe := false }
    else if i.dvalid then
      if i.isEscape then s.close i else s.pack i
    else { s with fifoDvalid := false }
  { next with fifoSync := !s.fifoDvalid && s.gotNextSubframe }

def pFsm (cfg : RxConfig) (i : FsmIn) (s : RxFsm n) : RxFsm n :=
  if !i.rstN then { s with state := .idle, count := 0, seqNo := 0 }
  else match s.state with
  | .idle => s.idle i
  | .header => s.header cfg i
  | .subframeHeader => s.subframeHeader i
  | .payload => s.payload i
  | .eof => { s with fifoDvalid := false, fifoDrop := false, fifoAccept := false, state := .idle }

theorem checkSeqNo_eq (data : BitVec 16) (s : RxFsm n) :
    ∃ seqNo fifoLost, s.checkSeqNo data = { s with seqNo := seqNo, fifoLost := fifoLost } := by
  unfold checkSeqNo
  split_ifs
  · exact ⟨_, _, rfl⟩
  · exact ⟨_, _, rfl⟩

theorem measureLatency_eq (i : FsmIn) (s : RxFsm n) :
    ∃ txTagValid rxLatency rxLatencyValid, s.measureLatency i =
      { s with txTagValid := txTagValid, rxLatency := rxLatency, rxLatencyValid := rxLatencyValid } := by
  unfold measureLatency
  split_ifs
  · exact ⟨_, _, _, rfl⟩
  · exact ⟨_, _, _, rfl⟩
  · exact ⟨_, s.rxLatency, _, rfl⟩

end RxFsm

/-! ### The state machine with its buffer -/

structure RxCoreIn where
  fsm : FsmIn
  rxDreq : Bool
deriving DecidableEq

/-- `p_fsm`, `p_delay_fifo_accept` and `U_Output_FIFO`. -/
structure RxCore (a n : Nat) where
  fsm : RxFsm n
  fifoAcceptD0 : Bool
  buffer : DroppingBuffer a (FifoWord n)

namespace RxCore

variable {a n : Nat}

def bufferIn (i : RxCoreIn) (s : RxCore a n) : BufferIn (FifoWord n) where
  rstN := i.fsm.rstN
  d := s.fsm.fifoDin
  dDrop := s.fsm.fifoDrop
  dAccept := s.fifoAcceptD0
  dValid := s.fsm.fifoDvalid
  dReq := i.rxDreq

def clock (cfg : RxConfig) (i : RxCoreIn) (s : RxCore a n) : RxCore a n where
  fsm := s.fsm.pFsm cfg i.fsm
  fifoAcceptD0 := s.fsm.fifoAccept
  buffer := s.buffer.clock (s.bufferIn i)

end RxCore

end WrRfDemo.Streamer

import WrRfDemo.Clocked.Field
import WrRfDemo.Streamer.EscapeInserter

/-! # The transmitter

`xtx_streamer` with its escape inserter: a frame is an Ethernet header and subframes, one for
each block in the buffer, with a CRC after each block; the last one is followed by padding. The
buffer is a show-ahead FIFO, kept as a list; its fill flags and the outputs of the CRC generator
and of the timestamper are inputs.
-/

namespace WrRfDemo.Streamer

open Clocked

/-- One word of `U_TX_Buffer`. -/
structure TxWord (n : Nat) where
  data : BitVec (16 * n)
  last : Bool
deriving DecidableEq

structure TxConfig where
  macLocal : BitVec 48
  macTarget : BitVec 48
  ethertype : BitVec 16
  txThreshold : Nat
  txMaxWordsPerFrame : Nat
  txTimeout : Nat
deriving DecidableEq

/-- `fifoQ` is what an empty buffer shows, and `undriven` stands for unknown bits. -/
structure TxIn (n : Nat) where
  rstN : Bool
  word : TxWord n
  txValid : Bool
  txFlush : Bool
  txResetSeq : Bool
  dReq : Bool
  almostEmpty : Bool
  tagCycles : BitVec 28
  tagValid : Bool
  crcValue : BitVec 16
  fifoQ : TxWord n
  undriven : BitVec 16
deriving DecidableEq

inductive TxState
  | idle | sof | ethHeader | subframeHeader | payload | crcWord | padding | eof
deriving DecidableEq

structure Transmitter (n : Nat) where
  state : TxState
  sof : Bool
  eof : Bool
  dvalid : Bool
  data : BitVec 16
  fsmEscape : Bool
  fsmEscapeEnable : Bool
  count : BitVec 8
  serCount : BitVec 8
  seqNo : BitVec 15
  totalWords : BitVec 11
  crcEn : Bool
  crcReset : Bool
  tagValidLatched : Bool
  bufFrameCount : BitVec 6
  timeoutCounter : BitVec 12
  txTimeoutHit : Bool
  txFlushLatched : Bool
  buffer : List (TxWord n)
  inserter : EscapeInserter
deriving DecidableEq

namespace Transmitter

variable {n : Nat}

def inserterIn (i : TxIn n) (s : Transmitter n) : InserterIn where
  rstN := i.rstN
  d := s.data
  dInsertEnable := s.fsmEscapeEnable
  dEscape := s.fsmEscape
  dValid := s.dvalid
  dReq := i.dReq

def dreq (i : TxIn n) (s : Transmitter n) : Bool := (s.inserterIn i).dReqO

def fifoEmpty (s : Transmitter n) : Bool := s.buffer.isEmpty

def fifoFull (cfg : TxConfig) (s : Transmitter n) : Bool := decide (2 * cfg.txThreshold ≤ s.buffer.length)

def fifoQ (i : TxIn n) (s : Transmitter n) : TxWord n := s.buffer.headD i.fifoQ

def fifoWe (cfg : TxConfig) (i : TxIn n) (s : Transmitter n) : Bool := i.txValid && !s.fifoFull cfg

/-- The last half-word of a data word is presented. -/
def endsWord (s : Transmitter n) : Bool := s.serCount.toNat + 1 == n

def fifoRd (i : TxIn n) (s : Transmitter n) : Bool :=
  s.state == .payload && s.endsWord && s.dreq i && !s.fifoEmpty

def thresholdHit (i : TxIn n) (s : Transmitter n) : Bool := !i.almostEmpty && s.bufFrameCount != 0

/-! ### The state machine -/

def idle (i : TxIn n) (s : Transmitter n) : Transmitter n :=
  let next := { s with crcEn := false, crcReset := false, eof := false, fsmEscapeEnable := false, fsmEscape := false }
  if s.dreq i && (s.txFlushLatched || i.txFlush || s.thresholdHit i) then { next with state := .sof, sof := true }
  else next

def headerWord (cfg : TxConfig) (i : TxIn n) (s : Transmitter n) : BitVec 16 :=
  match s.count.toNat with
  | 0 => field 32 16 cfg.macTarget
  | 1 => field 16 16 cfg.macTarget
  | 2 => field 0 16 cfg.macTarget
  | 3 => field 32 16 cfg.macLocal
  | 4 => field 16 16 cfg.macLocal
  | 5 => field 0 16 cfg.macLocal
  | 6 => cfg.ethertype
  | 7 => BitVec.ofBool s.tagValidLatched ++ (0 : BitVec 3) ++ field 16 12 i.tagCycles
  | 8 => field 0 16 i.tagCycles
  | _ => i.undriven

def ethHeader (cfg : TxConfig) (i : TxIn n) (s : Transmitter n) : Transmitter n :=
  if s.dreq i then
    let next := { s with data := s.headerWord cfg i, dvalid := true }
    if s.count.toNat < 8 then { next with count := s.count + 1 }
    else if s.count.toNat = 8 then { next with count := 0, state := .subframeHeader }
    else { next with count := field 0 8 i.undriven }
  else { s with dvalid := false }

def subframeHeader (i : TxIn n) (s : Transmitter n) : Transmitter n :=
  let next := { s with crcEn := true, crcReset := false }
  if s.dreq i then
    { next with dvalid := true, fsmEscape := true, fsmEscapeEnable := true,
                data := (1 : BitVec 1) ++ s.seqNo, state := .payload }
  else { next with dvalid := false, data := i.undriven }

def payload (i : TxIn n) (s : Transmitter n) : Transmitter n :=
  let next := { s with fsmEscape := false }
  if s.dreq i then
    { next with
      state := if s.fifoEmpty || (s.endsWord && (s.fifoQ i).last) then .crcWord else .payload
      count := if s.endsWord then s.count + 1 else s.count
      serCount := if s.endsWord then 0 else s.serCount + 1
      data := field (16 * s.serCount.toNat) 16 (s.fifoQ i).data
      dvalid := !s.fifoEmpty }
  else { next with data := i.undriven, dvalid := false }

/-- Nothing happens to the presented word while the inserter does not ask for another. -/
def crcWord (cfg : TxConfig) (i : TxIn n) (s : Transmitter n) : Transmitter n :=
  let next := { s with crcEn := false, serCount := 0 }
  if s.dreq i then
    { next with
      dvalid := true, data := i.crcValue, crcReset := true
      state := if s.fifoEmpty || decide (cfg.txMaxWordsPerFrame ≤ s.count.toNat) then .padding
        else .subframeHeader }
  else next

def padding (i : TxIn n) (s : Transmitter n) : Transmitter n :=
  if s.dreq i then
    { s with fsmEscape := true, dvalid := true, data := 0x0bad,
             state := if 30 ≤ s.totalWords.toNat then .eof else .padding }
  else { s with dvalid := false, data := i.undriven }

/-- The increment is assigned after the reset of the sequence number, and wins. -/
def seqNext (i : TxIn n) (s : Transmitter n) : BitVec 15 :=
  if s.state = .subframeHeader ∧ s.dreq i = true then s.seqNo + 1 else if i.txResetSeq then 0 else s.seqNo

def pFsm (cfg : TxConfig) (i : TxIn n) (s : Transmitter n) : Transmitter n :=
  if !i.rstN then
    { s with state := .idle, sof := false, eof := false, dvalid := false, count := 0, seqNo := 0, crcReset := true }
  else
    let next :=
      match s.state with
      | .idle => s.idle i
      | .sof => { s with sof := false, serCount := 0, state := .ethHeader, count := 0 }
      | .ethHeader => s.ethHeader cfg i
      | .subframeHeader => s.subframeHeader i
      | .payload => s.payload i
      | .crcWord => s.crcWord cfg i
      | .padding => s.padding i
      | .eof => if s.dreq i then { s with dvalid := false, eof := true, state := .idle } else { s with dvalid := false }
    { next with seqNo := s.seqNext i }

/-! ### The other processes -/

def pCountWords (s : Transmitter n) : BitVec 11 :=
  if s.sof then 0 else if s.dvalid then s.totalWords + 1 else s.totalWords

def pLatchTxTag (i : TxIn n) (s : Transmitter n) : Bool :=
  if !i.rstN || s.state == .idle then false else if i.tagValid then true else s.tagValidLatched

def pFrameCounter (cfg : TxConfig) (i : TxIn n) (s : Transmitter n) : BitVec 6 :=
  let pushed := s.fifoWe cfg i && i.word.last
  let popped := s.fifoRd i && (s.fifoQ i).last
  if !i.rstN then 0
  else if pushed && !popped then s.bufFrameCount + 1
  else if !pushed && popped then s.bufFrameCount - 1
  else s.bufFrameCount

def pTxTimeout (cfg : TxConfig) (i : TxIn n) (s : Transmitter n) : BitVec 12 × Bool :=
  if !i.rstN then (0, false)
  else (if !s.fifoEmpty && !s.thresholdHit i then s.timeoutCounter + 1 else 0,
    s.timeoutCounter.toNat == cfg.txTimeout)

def pLatchTxFlush (i : TxIn n) (s : Transmitter n) : Bool :=
  i.rstN && (s.state == .idle) && (i.txFlush || s.txTimeoutHit)

def bufferNext (cfg : TxConfig) (i : TxIn n) (s : Transmitter n) : List (TxWord n) :=
  if !i.rstN then []
  else (if s.fifoRd i then s.buffer.tail else s.buffer) ++ if s.fifoWe cfg i then [i.word] else []

def clock (cfg : TxConfig) (i : TxIn n) (s : Transmitter n) : Transmitter n :=
  { s.pFsm cfg i with
    totalWords := s.pCountWords
    tagValidLatched := s.pLatchTxTag i
    bufFrameCount := s.pFrameCounter cfg i
    timeoutCounter := (s.pTxTimeout cfg i).1
    txTimeoutHit := (s.pTxTimeout cfg i).2
    txFlushLatched := s.pLatchTxFlush i
    buffer := s.bufferNext cfg i
    inserter := s.inserter.pFsm (s.inserterIn i) }

end Transmitter

end WrRfDemo.Streamer

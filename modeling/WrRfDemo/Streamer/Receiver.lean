import WrRfDemo.Streamer.EscapeInserter
import WrRfDemo.Streamer.RxFsm

/-! # The receiver

`xrx_streamer` behind the fabric sink: the escape detector, the state machine with its buffer,
and the CRC unit. The CRC unit is any machine that moves with the restarts and the enabled words
that it is shown.
-/

namespace WrRfDemo.Streamer

open Clocked

/-! ### The escape detector -/

structure DetectorIn where
  rstN : Bool
  d : BitVec 16
  dDetectEnable : Bool
  dValid : Bool

inductive EscapeDetector
  | idle | checkEscape
deriving DecidableEq

namespace EscapeDetector

/-- The code is `g_escape_code`. -/
def isEscapeCode (code : BitVec 16) (i : DetectorIn) (s : EscapeDetector) : Bool :=
  i.dDetectEnable && (s == .idle) && i.dValid && (i.d == code)

def dO (code : BitVec 16) (i : DetectorIn) (s : EscapeDetector) : BitVec 16 :=
  if s = .checkEscape ∧ i.d = 0 then code else i.d

def dValidO (code : BitVec 16) (i : DetectorIn) (s : EscapeDetector) : Bool := i.dValid && !s.isEscapeCode code i

def dEscapeO (i : DetectorIn) (s : EscapeDetector) : Bool := (s == .checkEscape) && (i.d != 0)

def pFsm (code : BitVec 16) (i : DetectorIn) (s : EscapeDetector) : EscapeDetector :=
  if !i.rstN || !i.dDetectEnable then .idle
  else match s with
  | .idle => if i.d = code ∧ i.dValid = true then .checkEscape else .idle
  | .checkEscape => if i.dValid then .idle else .checkEscape

end EscapeDetector

/-! ### The CRC unit -/

structure CrcEvent where
  restart : Bool
  word : Option (BitVec 16)
deriving DecidableEq

structure CrcUnit (κ : Type*) where
  take : CrcEvent → κ → κ
  crcMatch : κ → Bool

/-! ### All together -/

/-- The outputs of the fabric sink, the receiving timestamper and the reader. -/
structure FabIn where
  rstN : Bool
  sof : Bool
  eof : Bool
  error : Bool
  dvalid : Bool
  data : BitVec 16
  rxTagCycles : BitVec 28
  rxDreq : Bool
deriving DecidableEq

structure Receiver (κ : Type*) (a n : Nat) where
  detector : EscapeDetector
  core : RxCore a n
  crc : κ

namespace Receiver

variable {κ : Type*} {a n : Nat}

def detectorIn (i : FabIn) (s : Receiver κ a n) : DetectorIn where
  rstN := i.rstN
  d := i.data
  dDetectEnable := s.core.fsm.detectEscapes
  dValid := i.dvalid

def isEscape (i : FabIn) (s : Receiver κ a n) : Bool := s.detector.dEscapeO (s.detectorIn i)

def fsmIn (crc : CrcUnit κ) (i : FabIn) (s : Receiver κ a n) : FsmIn where
  rstN := i.rstN
  sof := i.sof
  eof := i.eof || i.error
  dvalid := s.detector.dValidO escapeCode (s.detectorIn i)
  data := s.detector.dO escapeCode (s.detectorIn i)
  isEscape := s.isEscape i
  crcMatch := crc.crcMatch s.crc
  rxTagCycles := i.rxTagCycles

def coreIn (crc : CrcUnit κ) (i : FabIn) (s : Receiver κ a n) : RxCoreIn := ⟨s.fsmIn crc i, i.rxDreq⟩

def crcRestart (crc : CrcUnit κ) (i : FabIn) (s : Receiver κ a n) : Bool :=
  s.isEscape i && (s.fsmIn crc i).data.msb

def crcEnMasked (crc : CrcUnit κ) (i : FabIn) (s : Receiver κ a n) : Bool :=
  s.core.fsm.crcEn && (s.fsmIn crc i).dvalid

def crcEvents (crc : CrcUnit κ) (i : FabIn) (s : Receiver κ a n) : List CrcEvent :=
  if s.crcRestart crc i || s.crcEnMasked crc i then
    [⟨s.crcRestart crc i, if s.crcEnMasked crc i then some (s.fsmIn crc i).data else none⟩]
  else []

def clock (cfg : RxConfig) (crc : CrcUnit κ) (i : FabIn) (s : Receiver κ a n) : Receiver κ a n where
  detector := s.detector.pFsm escapeCode (s.detectorIn i)
  core := s.core.clock cfg (s.coreIn crc i)
  crc := (s.crcEvents crc i).foldl (fun k event => crc.take event k) s.crc

end Receiver

end WrRfDemo.Streamer

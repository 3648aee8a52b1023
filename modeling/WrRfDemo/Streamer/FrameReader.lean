import WrRfDemo.Streamer.Receiver
import WrRfDemo.Streamer.Subframes

/-! # Reading a frame without its timing

What the receiver makes of a frame, told by the events on the fabric alone: the start and the
end of a frame and its words. An idle cycle is the event that does nothing.
-/

namespace WrRfDemo.Streamer

open Clocked

variable {κ : Type*} {a n : Nat}

structure FabEvent where
  sof : Bool
  eof : Bool
  word : Option (BitVec 16)
deriving DecidableEq

def FabEvent.none : FabEvent := ⟨false, false, .none⟩

def FabIn.word (i : FabIn) : Option (BitVec 16) := if i.dvalid then some i.data else none

def FabIn.event (i : FabIn) : FabEvent := ⟨i.sof, i.eof || i.error, i.word⟩

/-- The frames without their idle cycles. -/
def content (inputs : List FabIn) : List FabEvent :=
  (inputs.map FabIn.event).filter fun e => decide (e ≠ .none)

/-! ### Escapes -/

/-- A word with its escape mark, unless it is the code that only announces one. -/
def decode (checking : Bool) : Option (BitVec 16) → Option (BitVec 16 × Bool)
  | none => none
  | some d =>
    if checking then some (if d = 0 then (escapeCode, false) else (d, true))
    else if d = escapeCode then none
    else some (d, false)

def checkingNext (checking : Bool) : Option (BitVec 16) → Bool
  | none => checking
  | some d => !checking && (d == escapeCode)

theorem checkingNext_of_escape {checking : Bool} {word : Option (BitVec 16)} {w : BitVec 16}
    (hDecode : decode checking word = some (w, true)) : checkingNext checking word = false := by
  cases word with
  | none => simp [decode] at hDecode
  | some d =>
    cases checking with
    | true => rfl
    | false => simp [decode] at hDecode

def crcEventsOf (decoded : Option (BitVec 16 × Bool)) : List CrcEvent :=
  match decoded with
  | none => []
  | some (w, esc) => [⟨esc && w.msb, some w⟩]

/-! ### The reader -/

/-- After the word that closes the last subframe, the frame is in its tail. -/
inductive ReadPhase
  | idle | header (count : BitVec 4) | subframeHeader | payload | tail
deriving DecidableEq

structure Reader (κ : Type*) (n : Nat) where
  phase : ReadPhase
  checking : Bool
  crc : κ
  opened : List (BitVec 16)
  committed : List (FifoWord n)
  crcEvents : List CrcEvent

namespace Reader

variable (cfg : RxConfig) (crc : CrcUnit κ)

def init (k : κ) : Reader κ n := ⟨.idle, false, k, [], [], []⟩

def headerPhase (count : BitVec 4) (d : BitVec 16) : ReadPhase :=
  if count = 7 then .header (count + 1)
  else if count = 8 then .subframeHeader
  else if RxFsm.rejects cfg count d then .idle
  else .header (count + 1)

/-- A word on its way through the escape detector to the CRC unit. -/
def receive (word : Option (BitVec 16)) (r : Reader κ n) : Reader κ n :=
  { r with
    checking := checkingNext r.checking word
    crc := (crcEventsOf (decode r.checking word)).foldl (fun k event => crc.take event k) r.crc
    crcEvents := r.crcEvents ++ crcEventsOf (decode r.checking word) }

def step (r : Reader κ n) (e : FabEvent) : Reader κ n :=
  match r.phase with
  | .idle => { r with phase := if e.sof then .header 0 else .idle }
  | .tail => { r with phase := if e.sof then .header 0 else if e.eof then .idle else .tail }
  | .header count =>
    if e.eof then { r with phase := .idle }
    else match e.word with
    | none => r
    | some d => { r with phase := headerPhase cfg count d, checking := false }
  | .subframeHeader =>
    let next := r.receive crc e.word
    if e.eof then { next with phase := .idle }
    else match decode r.checking e.word with
    | some (_, true) => { next with phase := .payload }
    | _ => next
  | .payload =>
    let next := r.receive crc e.word
    if e.eof then { next with phase := .idle, opened := [] }
    else match decode r.checking e.word with
    | none => next
    | some (w, false) => { next with opened := r.opened ++ [w] }
    | some (w, true) =>
      { next with
        phase := if w.msb then .payload else .tail
        opened := []
        committed := r.committed ++
          if closes w && crc.crcMatch r.crc then completedWords n r.opened else [] }

def read (r : Reader κ n) (events : List FabEvent) : Reader κ n := events.foldl (step cfg crc) r

theorem step_none (r : Reader κ n) : r.step cfg crc .none = r := by
  cases r with
  | mk phase checking k opened committed events =>
    cases phase <;> simp [step, receive, decode, checkingNext, crcEventsOf, FabEvent.none]

theorem read_content (r : Reader κ n) (inputs : List FabIn) :
    r.read cfg crc (content inputs) = r.read cfg crc (inputs.map FabIn.event) := by
  have hSkip : (fun (r : Reader κ n) e => if decide (e ≠ .none) = true then r.step cfg crc e else r) =
      step cfg crc := by
    funext r e
    by_cases hNone : e = .none
    · simp [hNone, step_none]
    · simp [hNone]
  rw [content, read, List.foldl_filter, hSkip]
  rfl

end Reader

end WrRfDemo.Streamer

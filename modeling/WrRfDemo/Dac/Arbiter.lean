import WrRfDemo.Clocked.Run
import WrRfDemo.Dac.Serializer

/-! # The two-channel DAC arbiter

Each channel has one register for the value that waits to be sent. A cycle with a load
pulse only fills these registers: the state machine, its own load strobe included, stands
still in that cycle.
-/

namespace WrRfDemo.Dac

structure ArbIn where
  rstN : Bool
  val1 : BitVec 16
  load1 : Bool
  val2 : BitVec 16
  load2 : Bool

inductive ArbState
  | waitDone | loadDac | waitData
deriving DecidableEq

structure Arb (numExtraBits : Nat) where
  d1 : BitVec 16
  d2 : BitVec 16
  d1Ready : Bool
  d2Ready : Bool
  dacData : BitVec 16
  dacLoad : Bool
  dacCsSel : BitVec 2
  state : ArbState
  dac : SerialDac numExtraBits
deriving DecidableEq

namespace Arb

variable {numExtraBits : Nat}

def serialDacIn (i : ArbIn) (s : Arb numExtraBits) : SerialDacIn where
  rstN := i.rstN
  value := s.dacData
  csSel := s.dacCsSel
  load := s.dacLoad
  sclkDivsel := 1#3

def reset (s : Arb numExtraBits) : Arb numExtraBits :=
  { s with d1 := 0, d1Ready := false, d2 := 0, d2Ready := false,
           dacLoad := false, dacCsSel := 0, state := .waitData }

def latch (i : ArbIn) (s : Arb numExtraBits) : Arb numExtraBits :=
  { s with d1Ready := i.load1 || s.d1Ready, d1 := if i.load1 then i.val1 else s.d1,
           d2Ready := i.load2 || s.d2Ready, d2 := if i.load2 then i.val2 else s.d2 }

def advance (s : Arb numExtraBits) : Arb numExtraBits :=
  match s.state with
  | .waitData =>
    if s.d1Ready then
      { s with dacCsSel := 1, dacData := s.d1, dacLoad := true, d1Ready := false, state := .loadDac }
    else if s.d2Ready then
      { s with dacCsSel := 2, dacData := s.d2, dacLoad := true, d2Ready := false, state := .loadDac }
    else s
  | .loadDac => { s with dacLoad := false, state := .waitDone }
  | .waitDone => if s.dac.xdone then { s with state := .waitData } else s

def clock (i : ArbIn) (s : Arb numExtraBits) : Arb numExtraBits :=
  { (if !i.rstN then s.reset else if i.load1 || i.load2 then s.latch i else s.advance) with
    dac := s.dac.clock (s.serialDacIn i) }

/-- `p_drive_sclk`; `invertSclk` is `g_invert_sclk`. -/
def dacSclk (invertSclk : Bool) (s : Arb numExtraBits) : Bool := s.dac.dacSclk != invertSclk

def dacDin (s : Arb numExtraBits) : Bool := s.dac.dacSdata

def dacCsN (s : Arb numExtraBits) : BitVec 2 := s.dac.dacCsN

/-- The channel, by its select lines, and the value that the state machine takes in this cycle. -/
def dispatches (i : ArbIn) (s : Arb numExtraBits) : Option (BitVec 2 × BitVec 16) :=
  if i.load1 || i.load2 || s.state != .waitData then none
  else if s.d1Ready then some (1, s.d1)
  else if s.d2Ready then some (2, s.d2)
  else none

end Arb

/-! ### What the load ports and the pins show -/

inductive MailEvent
  | load (value : BitVec 16)
  | dispatch (value : BitVec 16)
deriving DecidableEq

/-- Follows one channel's events, `owed` being the newest loaded value not yet dispatched.
The result is `none` when a dispatch takes anything but the owed value. -/
def replay : Option (BitVec 16) → List MailEvent → Option (Option (BitVec 16))
  | owed, [] => some owed
  | _, .load value :: rest => replay (some value) rest
  | owed, .dispatch value :: rest => if owed = some value then replay none rest else none

theorem replay_append {owed next : Option (BitVec 16)} {before : List MailEvent}
    (h : replay owed before = some next) (after : List MailEvent) :
    replay owed (before ++ after) = replay next after := by
  induction before generalizing owed with
  | nil => cases h; rfl
  | cons event rest ih =>
    cases event with
    | load value => exact ih h
    | dispatch value =>
      simp only [replay] at h
      split at h
      · rename_i hOwed
        simp only [List.cons_append, replay, hOwed, if_true]
        exact ih h
      · cases h

/-- One interval with a chip select low: the select lines and the data at the falling edges. -/
structure Burst where
  csN : BitVec 2
  bits : List Bool
deriving DecidableEq

def burstOf (numExtraBits : Nat) (transfer : BitVec 2 × BitVec 16) : Burst :=
  ⟨~~~transfer.1, frameBits numExtraBits transfer.2⟩

structure DacLog where
  mail : List (BitVec 2 × MailEvent)
  finished : List Burst
  current : List Bool
deriving DecidableEq

namespace DacLog

def empty : DacLog := ⟨[], [], []⟩

def mailOf (channel : BitVec 2) (o : DacLog) : List MailEvent :=
  o.mail.filterMap fun e => if e.1 = channel then some e.2 else none

def transferOf : BitVec 2 × MailEvent → Option (BitVec 2 × BitVec 16)
  | (channel, .dispatch value) => some (channel, value)
  | (_, .load _) => none

/-- The dispatched values with their select lines, in order. -/
def transfers (o : DacLog) : List (BitVec 2 × BitVec 16) := o.mail.filterMap transferOf

variable {numExtraBits : Nat}

def mailAt (i : ArbIn) (s : Arb numExtraBits) : List (BitVec 2 × MailEvent) :=
  (if i.load1 then [(1, .load i.val1)] else []) ++ (if i.load2 then [(2, .load i.val2)] else []) ++
    ((s.dispatches i).map fun t => (t.1, .dispatch t.2)).toList

def selected (csN : BitVec 2) : Bool := csN != 3

/-- The falling clock edge between this cycle and the next, seen with the chip still selected. -/
def fallingEdge (invertSclk : Bool) (i : ArbIn) (s : Arb numExtraBits) : Bool :=
  selected s.dacCsN && selected (s.clock i).dacCsN &&
    s.dacSclk invertSclk && !(s.clock i).dacSclk invertSclk

def deselects (i : ArbIn) (s : Arb numExtraBits) : Bool :=
  selected s.dacCsN && !selected (s.clock i).dacCsN

def bitsAt (invertSclk : Bool) (i : ArbIn) (s : Arb numExtraBits) : List Bool :=
  if fallingEdge invertSclk i s then [s.dacDin] else []

/-- Reads the load ports and the pins, the latter on both sides of the clock edge. -/
def see (invertSclk : Bool) (o : DacLog) (i : ArbIn) (s : Arb numExtraBits) : DacLog where
  mail := o.mail ++ mailAt i s
  finished := if deselects i s then o.finished ++ [⟨s.dacCsN, o.current ++ bitsAt invertSclk i s⟩]
    else o.finished
  current := if deselects i s then [] else o.current ++ bitsAt invertSclk i s

/-- Every finished interval is one whole transfer, the transfers go out in the order of their
dispatch with at most the last one unfinished, of which the first bits have been shown, and
each channel's ready register holds exactly the newest value that is still owed. -/
structure Faithful (o : DacLog) (s : Arb numExtraBits) : Prop where
  whole : o.finished = (o.transfers.take o.finished.length).map (burstOf numExtraBits)
  behind : o.transfers.length ≤ o.finished.length + 1
  begun : o.current <+: (o.transfers.drop o.finished.length).flatMap fun t => frameBits numExtraBits t.2
  owed1 : replay none (o.mailOf 1) = some (if s.d1Ready then some s.d1 else none)
  owed2 : replay none (o.mailOf 2) = some (if s.d2Ready then some s.d2 else none)

end DacLog

end WrRfDemo.Dac

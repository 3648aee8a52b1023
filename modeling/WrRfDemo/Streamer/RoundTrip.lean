import WrRfDemo.Streamer.Spacing
import WrRfDemo.Streamer.Writing

/-! # From the transmitter to the receiver

Both streamers with a lossless fabric between them: what the transmitter emits waits in a channel,
from which the sink takes it in order, at any pace, but only while the receiver asks. What comes
out of the receiver is a prefix of what the transmitter has accepted, block by block, as long as
three situations that the streamers do not survive stay away.
-/

namespace WrRfDemo.Streamer

open Clocked

variable {κ : Type*} {a n : Nat}

/-- The inputs of both sides; the transmitter's `crcValue` comes from its CRC generator, and `bus`
is what the sink shows in an idle cycle. -/
structure LinkIn (n : Nat) where
  tx : TxIn n
  deliver : Bool
  bus : BitVec 16
  rxTagCycles : BitVec 28
  rxDreq : Bool
deriving DecidableEq

structure StreamLink (κ : Type*) (a n : Nat) where
  tx : Transmitter n
  txCrc : κ
  channel : List FabEvent
  rx : Receiver κ a n

namespace StreamLink

def txIn (c : CrcRegister κ) (i : LinkIn n) (s : StreamLink κ a n) : TxIn n :=
  { i.tx with crcValue := c.crcO (s.tx.crcNow c s.txCrc) }

def takesOne (i : LinkIn n) (s : StreamLink κ a n) : Bool := i.deliver && s.rx.core.buffer.dReqO

def arrival (i : LinkIn n) (s : StreamLink κ a n) : FabEvent :=
  if s.takesOne i then s.channel.headD .none else .none

def left (i : LinkIn n) (s : StreamLink κ a n) : List FabEvent := if s.takesOne i then s.channel.tail else s.channel

def fabIn (i : LinkIn n) (s : StreamLink κ a n) : FabIn where
  rstN := i.tx.rstN
  sof := (s.arrival i).sof
  eof := (s.arrival i).eof
  error := false
  dvalid := (s.arrival i).word.isSome
  data := (s.arrival i).word.getD i.bus
  rxTagCycles := i.rxTagCycles
  rxDreq := i.rxDreq

def clock (txc : TxConfig) (rxc : RxConfig) (c : CrcRegister κ) (i : LinkIn n) (s : StreamLink κ a n) :
    StreamLink κ a n where
  tx := s.tx.clock txc (s.txIn c i)
  txCrc := s.tx.crcNext c s.txCrc
  channel := s.left i ++ s.tx.emits (s.txIn c i)
  rx := s.rx.clock rxc c.unit (s.fabIn i)

/-- Everything on its way from the transmitter to the receiver. -/
def stream (s : StreamLink κ a n) : List FabEvent := s.channel ++ s.tx.pending.map wordEvent

structure AfterReset (s : StreamLink κ a n) : Prop where
  state : s.tx.state = .idle
  low : s.tx.sof = false ∧ s.tx.eof = false ∧ s.tx.dvalid = false
  crcReset : s.tx.crcReset = true
  buffer : s.tx.buffer = []
  inserter : s.tx.inserter.state = .idle
  channel : s.channel = []
  core : s.rx.core.AfterReset
  detector : s.rx.detector = .idle
  dValidO : s.rx.core.buffer.dValidO = false

end StreamLink

/-! ### The observer -/

/-- The words that the transmitter has accepted, those that `rx_valid_o` has shown, and how they
came about. -/
structure LinkLog (n : Nat) where
  accepted : List (TxWord n)
  received : List (FifoWord n)
  reception : Reception n

namespace LinkLog

def empty (n : Nat) : LinkLog n := ⟨[], [], Reception.empty n⟩

def shown (s : StreamLink κ a n) : List (FifoWord n) :=
  if s.rx.core.buffer.dValidO then [s.rx.core.buffer.dO] else []

def see (txc : TxConfig) (c : CrcRegister κ) (o : LinkLog n) (i : LinkIn n) (s : StreamLink κ a n) : LinkLog n where
  accepted := o.accepted ++ s.tx.takes txc (s.txIn c i)
  received := o.received ++ shown s
  reception := o.reception.see c.unit (s.fabIn i) s.rx

end LinkLog

namespace StreamLink

/-- The fabric does not stall the transmitter where it would lose or repeat a word, the buffer does
not run empty within a block, and the bus does not restart the receiver's CRC unit. -/
def Sound (c : CrcRegister κ) (i : LinkIn n) (p : LinkLog n × StreamLink κ a n) : Prop :=
  p.2.tx.Unstalled (p.2.txIn c i) ∧ p.2.tx.Fed (p.2.txIn c i) p.1.accepted ∧ p.2.rx.NoIdleRestart (p.2.fabIn i)

instance (c : CrcRegister κ) (i : LinkIn n) (p : LinkLog n × StreamLink κ a n) : Decidable (Sound c i p) :=
  inferInstanceAs (Decidable (_ ∧ _ ∧ _))

variable {txc : TxConfig} {rxc : RxConfig} {c : CrcRegister κ} {i : LinkIn n} {o : LinkLog n} {s : StreamLink κ a n}

/-- The receiver has read what arrived, and a reader of all that is on its way stands where the
transmitter does. -/
structure Linked (rxc : RxConfig) (c : CrcRegister κ) (o : LinkLog n) (s : StreamLink κ a n) (r : Reader κ n) : Prop where
  serves : Serves r o.reception s.rx
  proper : Reader.ProperAll rxc c.unit r s.stream
  controlled : s.tx.Controlled
  writing : s.tx.Writing c o.accepted s.txCrc (r.read rxc c.unit s.stream)
  received : o.reception.log.delivered = o.received ++ LinkLog.shown s

theorem event_fabIn (i : LinkIn n) (s : StreamLink κ a n) : (s.fabIn i).event = s.arrival i := by
  cases hWord : (s.arrival i).word <;> simp [FabIn.event, FabIn.word, fabIn, hWord] <;> rw [← hWord]

theorem arrival_left (i : LinkIn n) (s : StreamLink κ a n) :
    s.arrival i = .none ∧ s.left i = s.channel ∨ s.channel = s.arrival i :: s.left i := by
  cases hTakes : s.takesOne i with
  | false => simp [arrival, left, hTakes]
  | true => cases hChannel : s.channel <;> simp [arrival, left, hTakes, hChannel]

theorem stream_clock (h : s.tx.Controlled) (hOk : s.tx.Unstalled (s.txIn c i)) :
    (s.clock txc rxc c i).stream = s.left i ++ s.tx.pending.map wordEvent ++ s.tx.adds txc (s.txIn c i) := by
  rw [Transmitter.adds, List.append_assoc, ← h.emits_append hOk, ← List.append_assoc]
  rfl

theorem read_arrival {r : Reader κ n} (hProper : Reader.ProperAll rxc c.unit r s.stream) :
    let rest := s.left i ++ s.tx.pending.map wordEvent
    r.Proper (s.arrival i) ∧ Reader.ProperAll rxc c.unit (r.step rxc c.unit (s.arrival i)) rest ∧
      (r.step rxc c.unit (s.arrival i)).read rxc c.unit rest = r.read rxc c.unit s.stream := by
  rcases arrival_left i s with ⟨hNone, hLeft⟩ | hChannel
  · rw [hNone, Reader.step_none, hLeft]
    exact ⟨Reader.proper_none r, hProper, rfl⟩
  · rw [stream, hChannel] at hProper ⊢
    exact ⟨hProper.1, hProper.2, rfl⟩

theorem fabIn_served (hOk : Sound c i (o, s)) : s.rx.Served (s.fabIn i) := by
  refine ⟨hOk.1.1, fun hWord => ?_, hOk.2.2⟩
  cases hTakes : s.takesOne i with
  | false =>
    have hNone : s.arrival i = .none := by rw [arrival, hTakes, if_neg (by decide)]
    simp [fabIn, hNone, FabEvent.none] at hWord
  | true =>
    have hAsked := (Bool.and_eq_true_iff.mp hTakes).2
    simpa [DroppingBuffer.dReqO] using hAsked

theorem received_clock (hReceived : o.reception.log.delivered = o.received ++ LinkLog.shown s) :
    (o.see txc c i s).reception.log.delivered =
      (o.see txc c i s).received ++ LinkLog.shown (s.clock txc rxc c i) := by
  change o.reception.log.delivered ++ _ = o.received ++ LinkLog.shown s ++ _
  rw [hReceived]
  cases hReads : s.rx.core.buffer.reads (s.rx.core.bufferIn (s.rx.coreIn c.unit (s.fabIn i))) <;>
    simp [LinkLog.shown, clock, Receiver.clock, RxCore.clock, DroppingBuffer.clock, hReads]

theorem Linked.step {r : Reader κ n} (h : Linked rxc c o s r) (hn : 3 ≤ n ∧ n ≤ 16)
    (hConfigured : Transmitter.Configured txc rxc) (hChecks : c.Checks) (hOk : Sound c i (o, s)) :
    Linked rxc c (o.see txc c i s) (s.clock txc rxc c i) (r.step rxc c.unit (s.arrival i)) := by
  obtain ⟨hProper, hLeft, hRead⟩ := read_arrival (i := i) h.proper
  have hStream : (s.clock txc rxc c i).stream = _ := stream_clock h.controlled hOk.1
  obtain ⟨hAdds, hWriting⟩ := h.writing.step h.controlled (by omega) hConfigured hChecks hOk.1 hOk.2.1 rfl
  have hRestarts : Restarts c.unit := fun _ _ _ => rfl
  constructor
  · have hServes : Serves (r.step rxc c.unit (s.fabIn i).event) _ (s.rx.clock rxc c.unit (s.fabIn i)) :=
      h.serves.step ⟨by omega, hn.2⟩ hRestarts (fabIn_served hOk) (by rw [event_fabIn]; exact hProper)
    rw [event_fabIn] at hServes
    exact hServes
  · rw [hStream, Reader.properAll_append, hRead]
    exact ⟨hLeft, hAdds⟩
  · exact h.controlled.step (by omega) hOk.1
  · rw [hStream, Reader.read_append, hRead]
    exact hWriting
  · exact received_clock h.received

theorem linked_init (hn : 2 ≤ n) (hReset : s.AfterReset) : Linked rxc c (LinkLog.empty n) s (Reader.init s.rx.crc) := by
  obtain ⟨hSof, hEof, hValid⟩ := hReset.low
  have hStay : s.tx.inserter.state ≠ .insertEscape := by simp [hReset.inserter]
  have hStream : s.stream = [] := by
    simp [stream, hReset.channel, Transmitter.pending, hStay, Transmitter.presented, hValid]
  constructor
  · exact serves_init hn hReset.core hReset.detector
  · rw [hStream]
    trivial
  · refine ⟨.of_idle hReset.state hSof, ?_, fun _ => hValid, fun hIn => absurd hIn hStay, ?_, ?_, ?_, ?_⟩ <;>
      simp [hReset.state]
  · rw [hStream]
    refine .outside [] s.rx.crc ?_ ?_ ?_ ?_ rfl ?_
    · simp [hReset.state]
    · simp [hReset.state]
    · simp [Transmitter.crcNext, hReset.crcReset]
    · simp [LinkLog.empty, hReset.buffer]
    · constructor <;> simp [Transmitter.front, hReset.state, hEof, Reader.read, Reader.init, flagged]
  · simp [LinkLog.empty, Reception.empty, SubframeLog.empty, LinkLog.shown, hReset.dValidO]

/-! ### The round trip -/

theorem Reader.Reached.committed_isPrefix {phase : ReadPhase} {k : κ} {opened : List (BitVec 16)} {r : Reader κ n}
    {accepted done left : List (TxWord n)} (h : r.Reached phase k opened (flagged true done))
    (hWords : accepted = done ++ left) : r.committed <+: flagged true accepted := by
  rw [h.committed, hWords, flagged_append]
  exact List.prefix_append _ _

theorem Linked.received_isPrefix {r : Reader κ n} (h : Linked rxc c o s r) : o.received <+: flagged true o.accepted := by
  have hRead : (r.read rxc c.unit s.stream).committed <+: flagged true o.accepted := by
    cases h.writing with
    | outside done kr _ _ _ hWords _ hRead => exact Reader.Reached.committed_isPrefix hRead hWords
    | checked done current kr w _ _ hWords _ _ _ hRead => exact Reader.Reached.committed_isPrefix hRead hWords
    | payload done current _ _ hWords _ _ _ hRead => exact Reader.Reached.committed_isPrefix hRead hWords
    | crcWord done current _ _ hWords _ _ hRead => exact Reader.Reached.committed_isPrefix hRead hWords
  calc o.received <+: o.reception.log.delivered := by rw [h.received]; exact List.prefix_append _ _
    _ <+: r.committed := h.serves.delivered_isPrefix
    _ <+: (r.read rxc c.unit s.stream).committed := Reader.committed_read r s.stream
    _ <+: flagged true o.accepted := hRead

/-- Once the transmitter is idle and nothing is on its way, all that has left the transmitter's
buffer is received or can be read. -/
theorem Linked.all_received {r : Reader κ n} (h : Linked rxc c o s r) (hState : s.tx.state = .idle)
    (hChannel : s.channel = []) :
    ∃ sent, o.accepted = sent ++ s.tx.buffer ∧
      o.received ++ LinkLog.shown s ++ s.rx.core.buffer.readable ++ s.rx.core.onTheWay = flagged true sent := by
  have hStay : s.tx.inserter.state ≠ .insertEscape := fun hIn => (h.controlled.second hIn).2.2.1 hState
  have hStream : s.stream = [] := by
    simp [stream, hChannel, Transmitter.pending, hStay, Transmitter.presented, h.controlled.low (.inl hState)]
  have hWriting := h.writing
  rw [hStream] at hWriting
  cases hWriting with
  | outside done kr _ _ _ hWords _ hRead =>
    refine ⟨done, hWords, ?_⟩
    have hCommitted : r.committed = flagged true done := hRead.committed
    rw [← hCommitted, ← h.serves.reads.committed, h.serves.tracks.handedOver.words, h.received]
  | checked _ _ _ _ hIs => simp [hState] at hIs
  | payload _ _ hIs => simp [hState] at hIs
  | crcWord _ _ hIs => simp [hState] at hIs

end StreamLink

def linkRun (txc : TxConfig) (rxc : RxConfig) (c : CrcRegister κ) (inputs : List (LinkIn n)) (s : StreamLink κ a n) :
    LinkLog n × StreamLink κ a n :=
  run (watch (StreamLink.clock txc rxc c) (LinkLog.see txc c)) inputs (LinkLog.empty n, s)

/-- What `rx_data_o` has shown is at every moment a prefix of the accepted words, marked block by
block, and all of them arrive. -/
theorem round_trip (hn : 3 ≤ n ∧ n ≤ 16) (txc : TxConfig) (rxc : RxConfig) (hConfigured : Transmitter.Configured txc rxc)
    (c : CrcRegister κ) (hChecks : c.Checks) (s : StreamLink κ a n) (hReset : s.AfterReset) (inputs : List (LinkIn n))
    (hAlong : Along (watch (StreamLink.clock txc rxc c) (LinkLog.see txc c)) (StreamLink.Sound c) inputs
      (LinkLog.empty n, s)) :
    let now := linkRun txc rxc c inputs s
    now.1.received <+: flagged true now.1.accepted ∧
      (now.2.tx.state = .idle → now.2.channel = [] → ∃ sent, now.1.accepted = sent ++ now.2.tx.buffer ∧
        now.1.received ++ LinkLog.shown now.2 ++ now.2.rx.core.buffer.readable ++ now.2.rx.core.onTheWay =
          flagged true sent) := by
  have hStep : ∀ i (p : LinkLog n × StreamLink κ a n), (∃ r, StreamLink.Linked rxc c p.1 p.2 r) → StreamLink.Sound c i p →
      ∃ r, StreamLink.Linked rxc c (watch (StreamLink.clock txc rxc c) (LinkLog.see txc c) i p).1
        (watch (StreamLink.clock txc rxc c) (LinkLog.see txc c) i p).2 r := by
    rintro i p ⟨r, h⟩ hOk
    exact ⟨_, h.step hn hConfigured hChecks hOk⟩
  obtain ⟨r, hLinked⟩ := run_invariant hStep inputs (s := (LinkLog.empty n, s))
    ⟨_, StreamLink.linked_init (by omega) hReset⟩ hAlong
  exact ⟨hLinked.received_isPrefix, hLinked.all_received⟩

/-! ### Blocks that do not arrive -/

def blankLink : StreamLink (BitVec 16) 3 4 := ⟨{ Transmitter.blankTx with crcReset := true }, 0xffff, [], blankRx⟩

def quiet : LinkIn 4 := ⟨Transmitter.drainIn 4, true, 0, 0, true⟩

def give (data : BitVec 64) (last : Bool) : LinkIn 4 :=
  { quiet with tx := { Transmitter.drainIn 4 with word := ⟨data, last⟩, txValid := true } }

def flush : LinkIn 4 := { quiet with tx := { Transmitter.drainIn 4 with txFlush := true } }

def stall : LinkIn 4 := { quiet with tx := { Transmitter.drainIn 4 with dReq := false } }

/-- The sink is idle, with the escape code left on its bus. -/
def idleBus : LinkIn 4 := { quiet with deliver := false, bus := 0xcafe }

/-- The words are given and flushed, and the `event` comes this many cycles later. -/
def sending (words : List (LinkIn 4)) (cycles : Nat) (event : LinkIn 4) : List (LinkIn 4) :=
  words ++ flush :: List.replicate cycles quiet ++ event :: List.replicate 60 quiet

def linked (inputs : List (LinkIn 4)) : LinkLog 4 × StreamLink (BitVec 16) 3 4 :=
  linkRun Transmitter.txConfig rxConfig crc16 inputs blankLink

/-- Blocks of one and of two words, with the escape code among their half-words. -/
def twoBlocks : List (LinkIn 4) := sending [give 0xcafe true, give 0x8000cafe0000cafe false, give 3 true] 20 quiet

theorem round_trip_twoBlocks :
    ((linked twoBlocks).1.received <+: flagged true (linked twoBlocks).1.accepted ∧
      ((linked twoBlocks).2.tx.state = .idle → (linked twoBlocks).2.channel = [] →
        ∃ sent, (linked twoBlocks).1.accepted = sent ++ (linked twoBlocks).2.tx.buffer ∧
          (linked twoBlocks).1.received ++ LinkLog.shown (linked twoBlocks).2 ++
            (linked twoBlocks).2.rx.core.buffer.readable ++ (linked twoBlocks).2.rx.core.onTheWay = flagged true sent)) ∧
    (linked twoBlocks).1.received = [⟨0xcafe, true, true⟩, ⟨0x8000cafe0000cafe, true, false⟩, ⟨3, false, true⟩] ∧
    (linked twoBlocks).2.tx.state = .idle ∧ (linked twoBlocks).2.channel = [] :=
  ⟨round_trip (by decide) Transmitter.txConfig rxConfig ⟨rfl, rfl, fun _ => rfl, rfl, by decide⟩ crc16 crc16_checks
    blankLink ⟨rfl, ⟨rfl, rfl, rfl⟩, rfl, rfl, rfl, rfl, ⟨rfl, rfl, rfl, rfl, rfl, rfl, rfl, rfl⟩, rfl, rfl⟩ twoBlocks
    (by decide +kernel), by decide +kernel⟩

/-- A stall while the CRC waits behind the last half-word, or while a half-word equal to the escape
code is presented, and an idle cycle with the escape code on the bus lose the first block; a word
that comes late is made a block of its own. -/
theorem block_lost_on_the_way :
    let stalled := sending [give 1 true, give 2 true] 16 stall
    let stalledEscape := sending [give 0xcafe true, give 2 true] 13 stall
    let restarted := sending [give 1 true, give 2 true] 20 idleBus
    let late := sending [give 1 false] 16 (give 2 true)
    (linked stalled).1.received = [⟨2, true, true⟩] ∧ (linked stalledEscape).1.received = [⟨2, true, true⟩] ∧
    (linked restarted).1.received = [⟨2, true, true⟩] ∧
    (linked late).1.received = [⟨1, true, true⟩, ⟨2, true, true⟩] ∧
    ¬ ∀ inputs : List (LinkIn 4), (∀ i ∈ inputs, i.tx.rstN = true ∧ i.rxDreq = true) →
      (linked inputs).1.received <+: flagged true (linked inputs).1.accepted := by
  intro stalled stalledEscape restarted late
  refine ⟨by decide +kernel, by decide +kernel, by decide +kernel, by decide +kernel, fun h => ?_⟩
  have hPrefix := h stalled (by decide +kernel)
  revert hPrefix
  decide +kernel

end WrRfDemo.Streamer

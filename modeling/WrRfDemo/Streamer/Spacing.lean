import WrRfDemo.Streamer.Crc
import WrRfDemo.Streamer.Reading

/-! # Reception does not depend on the spacing of words

Two presentations of the same frames are both read as those frames, so they show the CRC unit
the same events and hand over the same words.
-/

namespace WrRfDemo.Streamer

open Clocked

variable {κ : Type*} {a n : Nat} {cfg : RxConfig} {crc : CrcUnit κ}

/-- The bus does not restart the CRC unit in an idle cycle, no word comes while the receiver winds
up a frame, and the buffer executes the strobes in order. -/
def Receiver.Spaced (crc : CrcUnit κ) (i : FabIn) (s : Receiver κ a n) : Prop :=
  s.Clean i ∧ s.Quiet i ∧ s.core.Orderly (s.coreIn crc i)

instance (crc : CrcUnit κ) (i : FabIn) (s : Receiver κ a n) : Decidable (s.Spaced crc i) :=
  inferInstanceAs (Decidable (_ ∧ _ ∧ _))

/-! ### Restarts -/

theorem restart_of_shown {decoded : Option (BitVec 16 × Bool)} {e : CrcEvent} (h : e ∈ crcEventsOf decoded)
    (hRestart : e.restart = true) : ∃ w, e.word = some w ∧ w.msb = true := by
  cases decoded with
  | none => simp [crcEventsOf] at h
  | some shown =>
    obtain ⟨w, esc⟩ := shown
    simp only [crcEventsOf, List.mem_singleton] at h
    subst h
    exact ⟨w, rfl, (Bool.and_eq_true_iff.mp hRestart).2⟩

namespace Reader

/-- Every restart comes with a header word. -/
def RestartsOnHeaders (r : Reader κ n) : Prop :=
  ∀ e ∈ r.crcEvents, e.restart = true → ∃ w, e.word = some w ∧ w.msb = true

theorem crcEvents_step (r : Reader κ n) (e : FabEvent) :
    (r.step cfg crc e).crcEvents = r.crcEvents ∨
      (r.step cfg crc e).crcEvents = r.crcEvents ++ crcEventsOf (decode r.checking e.word) := by
  unfold step
  cases r.phase with
  | idle | tail => exact .inl rfl
  | header count =>
    dsimp only
    split_ifs
    · exact .inl rfl
    · cases e.word <;> exact .inl rfl
  | subframeHeader | payload =>
    dsimp only
    split_ifs
    · exact .inr rfl
    · split <;> exact .inr rfl

theorem RestartsOnHeaders.read {r : Reader κ n} (h : r.RestartsOnHeaders) (events : List FabEvent) :
    (r.read cfg crc events).RestartsOnHeaders := by
  induction events generalizing r with
  | nil => exact h
  | cons event rest ih =>
    refine ih fun e hMem hRestart => ?_
    rcases crcEvents_step r event with hSame | hMore
    · rw [hSame] at hMem
      exact h e hMem hRestart
    · rw [hMore] at hMem
      exact (List.mem_append.mp hMem).elim (fun hOld => h e hOld hRestart)
        (fun hNew => restart_of_shown hNew hRestart)

end Reader

/-! ### One presentation -/

theorem reads_run (hn : 2 ≤ n ∧ n ≤ 16) (inputs : List FabIn) {r : Reader κ n} {o : Reception n}
    {s : Receiver κ a n} (hReads : Reads true r o s) (hTracks : Tracks o.log s.core)
    (hAlong : Along (Receiver.clock cfg crc) (Receiver.Spaced crc) inputs s) :
    let now := run (watch (Receiver.clock cfg crc) (Reception.see crc)) inputs (o, s)
    Reads true (r.read cfg crc (inputs.map FabIn.event)) now.1 now.2 ∧ Tracks now.1.log now.2.core := by
  induction inputs generalizing r o s with
  | nil => exact ⟨hReads, hTracks⟩
  | cons i rest ih =>
    obtain ⟨⟨hClean, hQuiet, hOrderly⟩, hRest⟩ := hAlong
    exact ih (hReads.step hClean (.inl ⟨rfl, hQuiet⟩)) (hTracks.step hn hOrderly) hRest

def reception (cfg : RxConfig) (crc : CrcUnit κ) (inputs : List FabIn) (s : Receiver κ a n) :
    Reception n × Receiver κ a n :=
  run (watch (Receiver.clock cfg crc) (Reception.see crc)) inputs (Reception.empty n, s)

/-- What has come out of the buffer, what can be read and what is about to be readable. -/
def output (p : Reception n × Receiver κ a n) : List (FifoWord n) :=
  p.1.log.delivered ++ p.2.core.buffer.readable ++ p.2.core.onTheWay

theorem reception_reads (hn : 2 ≤ n ∧ n ≤ 16) (s : Receiver κ a n) (hReset : s.core.AfterReset)
    (inputs : List FabIn) (hAlong : Along (Receiver.clock cfg crc) (Receiver.Spaced crc) inputs s) :
    (reception cfg crc inputs s).1.crcEvents = ((Reader.init s.crc).read cfg crc (content inputs) : Reader κ n).crcEvents ∧
      (reception cfg crc inputs s).1.log.committed =
        ((Reader.init s.crc).read cfg crc (content inputs)).committed ∧
      output (reception cfg crc inputs s) = (reception cfg crc inputs s).1.log.committed := by
  obtain ⟨hReads, hTracks⟩ := reads_run hn inputs (reads_init true hReset)
    (show Tracks (Reception.empty n).log s.core from tracks_afterReset hn.1 hReset) hAlong
  rw [Reader.read_content]
  exact ⟨hReads.events rfl, hReads.committed, hTracks.handedOver.words.symm⟩

/-- Two presentations of the same frames show the CRC unit the same events and hand over the same
words, if the bus is low where it would restart the CRC unit between words. -/
theorem same_reception (hn : 2 ≤ n ∧ n ≤ 16) (s t : Receiver κ a n) (hs : s.core.AfterReset)
    (ht : t.core.AfterReset) (hCrc : s.crc = t.crc) (p q : List FabIn) (hContent : content p = content q)
    (hp : Along (Receiver.clock cfg crc) (Receiver.Spaced crc) p s)
    (hq : Along (Receiver.clock cfg crc) (Receiver.Spaced crc) q t) :
    (reception cfg crc p s).1.crcEvents = (reception cfg crc q t).1.crcEvents ∧
      (reception cfg crc p s).1.log.committed = (reception cfg crc q t).1.log.committed ∧
      output (reception cfg crc p s) = output (reception cfg crc q t) ∧
      ∀ e ∈ (reception cfg crc p s).1.crcEvents, e.restart = true → ∃ w, e.word = some w ∧ w.msb = true := by
  obtain ⟨hEventsP, hCommittedP, hOutputP⟩ := reception_reads hn s hs p hp
  obtain ⟨hEventsQ, hCommittedQ, hOutputQ⟩ := reception_reads hn t ht q hq
  rw [← hContent, ← hCrc] at hEventsQ hCommittedQ
  refine ⟨hEventsP.trans hEventsQ.symm, hCommittedP.trans hCommittedQ.symm, ?_, ?_⟩
  · rw [hOutputP, hOutputQ, hCommittedP, hCommittedQ]
  · rw [hEventsP]
    have hInit : (Reader.init s.crc : Reader κ n).RestartsOnHeaders := by
      intro e hMem
      cases hMem
    exact hInit.read _

/-! ### Three presentations of a frame -/

def blankRx : Receiver (BitVec 16) 3 4 := ⟨.idle, blankCore, 0xffff⟩

def fabMark (sof eof : Bool) : FabIn := ⟨true, sof, eof, false, false, 0, 0, false⟩

def fabWord (data : BitVec 16) : FabIn := ⟨true, false, false, false, true, data, 0, false⟩

def fabIdle (data : BitVec 16) : FabIn := ⟨true, false, false, false, false, data, 0, false⟩

/-- A frame of one data word, with a gap before the word that closes it and one before the padding. -/
def gappedFrame (gap tail : List FabIn) : List FabIn :=
  fabMark true false ::
    ([0, 0, 0, 0, 0, 0, 0xdbff, 0, 0, 0xcafe, 0x8000, 1, 0, 0, 0, crcOf [0x8000, 1, 0, 0, 0], 0xcafe].map fabWord ++
      gap ++ [fabWord 0x0bad] ++ tail ++ [0xcafe, 0x0bad].map fabWord ++
      [fabIdle 0, fabIdle 0, fabMark false true])

def pause : List FabIn := List.replicate 3 (fabIdle 0)

def presented (gap tail : List FabIn) : Reception 4 × Receiver (BitVec 16) 3 4 :=
  reception rxConfig crc16.unit (gappedFrame gap tail) blankRx

theorem same_reception_gaps :
    ((presented [] pause).1.crcEvents = (presented [fabIdle 0] pause).1.crcEvents ∧
      (presented [] pause).1.log.committed = (presented [fabIdle 0] pause).1.log.committed ∧
      output (presented [] pause) = output (presented [fabIdle 0] pause) ∧
      ∀ e ∈ (presented [] pause).1.crcEvents, e.restart = true → ∃ w, e.word = some w ∧ w.msb = true) ∧
    output (presented [] pause) = [⟨1, true, true⟩] :=
  ⟨same_reception (by decide) blankRx blankRx ⟨rfl, rfl, rfl, rfl, rfl, rfl, rfl, rfl⟩
    ⟨rfl, rfl, rfl, rfl, rfl, rfl, rfl, rfl⟩ rfl (gappedFrame [] pause) (gappedFrame [fabIdle 0] pause)
    (by decide +kernel) (by decide +kernel) (by decide +kernel), by decide +kernel⟩

/-- The escape code left on the bus in an idle cycle restarts the CRC unit, and the block is dropped;
padding right behind the closing word still reaches the CRC unit. -/
theorem block_lost_in_gap :
    output (presented [] pause) = [⟨1, true, true⟩] ∧ output (presented [fabIdle 0xcafe] pause) = [] ∧
    (presented [] pause).1.crcEvents ≠ (presented [] []).1.crcEvents ∧
    ¬ ∀ p q : List FabIn, (∀ i ∈ p ++ q, i.rstN = true) → content p = content q →
      (reception rxConfig crc16.unit p blankRx).1.crcEvents = (reception rxConfig crc16.unit q blankRx).1.crcEvents ∧
      output (reception rxConfig crc16.unit p blankRx) = output (reception rxConfig crc16.unit q blankRx) := by
  have hTogether : output (presented [] pause) = [⟨1, true, true⟩] := by decide +kernel
  have hApart : output (presented [fabIdle 0xcafe] pause) = [] := by decide +kernel
  refine ⟨hTogether, hApart, by decide +kernel, fun h => ?_⟩
  have hSame := (h (gappedFrame [] pause) (gappedFrame [fabIdle 0xcafe] pause) (by decide +kernel) (by decide +kernel)).2
  change output (presented [] pause) = output (presented [fabIdle 0xcafe] pause) at hSame
  rw [hTogether, hApart] at hSame
  cases hSame

end WrRfDemo.Streamer

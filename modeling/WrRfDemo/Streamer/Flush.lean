import WrRfDemo.Streamer.FrameEnd

/-! # Requests to flush

The latch holds a request for one cycle, and only from a cycle in `IDLE`. A request that comes while a
frame is being sent is gone when the frame ends, and one that comes in `IDLE` is gone unless the
inserter asks for a word in that cycle or in the next.
-/

namespace WrRfDemo.Streamer

open Clocked

variable {n : Nat}

namespace Transmitter

def asksFlush (i : TxIn n) (s : Transmitter n) : Bool := i.txFlush || s.txTimeoutHit

def startsFrame (cfg : TxConfig) (i : TxIn n) (s : Transmitter n) : Bool :=
  s.state == .idle && (s.clock cfg i).state == .sof

/-- Whether a request is outstanding: made with words in the buffer, and no frame has been started since. -/
def seeFlush (cfg : TxConfig) (asked : Bool) (i : TxIn n) (s : Transmitter n) : Bool :=
  i.rstN && !s.startsFrame cfg i && (asked || (s.asksFlush i && !s.fifoEmpty))

/-- With a request outstanding, the next cycle in `IDLE` with `fsm_out.dreq` up starts a frame. -/
def Prompt (cfg : TxConfig) (p : Bool × Transmitter n) : Prop :=
  ∀ i : TxIn n, i.rstN = true → p.1 = true → p.2.state = .idle → p.2.dreq i = true → (p.2.clock cfg i).state = .sof

/-- If this cycle leaves the transmitter in `IDLE` with a request outstanding, then it was in `IDLE` before
and the request is made in this cycle. -/
def Repeated (cfg : TxConfig) (i : TxIn n) (p : Bool × Transmitter n) : Prop :=
  p.2.seeFlush cfg p.1 i = true → (p.2.clock cfg i).state = .idle → p.2.state = .idle ∧ p.2.asksFlush i = true

instance (cfg : TxConfig) (i : TxIn n) (p : Bool × Transmitter n) : Decidable (Repeated cfg i p) :=
  inferInstanceAs (Decidable (_ → _ → _))

structure Latched (asked : Bool) (s : Transmitter n) : Prop where
  dvalid : s.state = .idle → s.dvalid = false
  held : s.state = .idle → asked = true → s.txFlushLatched = true

variable {cfg : TxConfig} {i : TxIn n} {s : Transmitter n} {asked : Bool}

theorem latched_clock : (s.clock cfg i).txFlushLatched = (i.rstN && (s.state == .idle) && s.asksFlush i) := rfl

theorem sof_of_latched (hRst : i.rstN = true) (hState : s.state = .idle) (hDreq : s.dreq i = true)
    (hLatched : s.txFlushLatched = true) : (s.clock cfg i).state = .sof := by
  simp [clock, pFsm, hRst, hState, Transmitter.idle, hDreq, hLatched]

theorem Latched.prompt (cfg : TxConfig) (h : Latched asked s) : Prompt cfg (asked, s) :=
  fun _ hRst hAsked hState hDreq => sof_of_latched hRst hState hDreq (h.held hState hAsked)

theorem dvalid_of_idle (hDvalid : s.state = .idle → s.dvalid = false) (hNext : (s.clock cfg i).state = .idle) :
    (s.clock cfg i).dvalid = false := by
  cases hRst : i.rstN with
  | false => simp [clock, pFsm, hRst]
  | true =>
    cases hState : s.state with
    | idle =>
      have hLow := hDvalid hState
      simp only [clock, pFsm, hRst, hState, Transmitter.idle, Bool.not_true, Bool.false_eq_true, if_false]
      split_ifs <;> exact hLow
    | eof => cases hDreq : s.dreq i <;> simp [clock, pFsm, hRst, hState, hDreq]
    | sof => simp [clock, pFsm, hRst, hState] at hNext
    | ethHeader | subframeHeader | payload | crcWord | padding =>
      simp only [clock, pFsm, hRst, hState, Transmitter.ethHeader, Transmitter.subframeHeader, Transmitter.payload,
        Transmitter.crcWord, Transmitter.padding, Bool.not_true, Bool.false_eq_true, if_false] at hNext
      split_ifs at hNext

theorem Latched.step (h : Latched asked s) (hOk : Repeated cfg i (asked, s)) :
    Latched (s.seeFlush cfg asked i) (s.clock cfg i) := by
  refine ⟨dvalid_of_idle h.dvalid, fun hNext hAsked => ?_⟩
  obtain ⟨hState, hAsks⟩ : s.state = .idle ∧ s.asksFlush i = true := hOk hAsked hNext
  have hRst : i.rstN = true := by
    simp only [seeFlush, Bool.and_eq_true] at hAsked
    exact hAsked.1.1
  simp [latched_clock, hRst, hState, hAsks]

theorem Prompt.repeated (h : Latched asked s) (hPrompt : Prompt cfg (s.seeFlush cfg asked i, s.clock cfg i)) :
    Repeated cfg i (asked, s) := by
  intro hAsked hNext
  -- a cycle in which the fabric asks for a word and nothing else happens tells what is in the latch
  have hDreq : (s.clock cfg i).dreq (drainIn n) = true := by
    simp [dreq, InserterIn.dReqO, InserterIn.twoWords, inserterIn, dvalid_of_idle h.dvalid hNext, drainIn]
  have hSof := hPrompt (drainIn n) rfl hAsked hNext hDreq
  have hLatched : (s.clock cfg i).txFlushLatched = true := by
    cases hLatch : (s.clock cfg i).txFlushLatched with
    | true => rfl
    | false =>
      exfalso
      generalize s.clock cfg i = next at *
      simp [clock, pFsm, hNext, Transmitter.idle, hLatch, thresholdHit, drainIn] at hSof
  simp only [latched_clock, Bool.and_eq_true, beq_iff_eq] at hLatched
  exact ⟨hLatched.1.2, hLatched.2⟩

/-- A request to flush is answered in every state reached if and only if none is outstanding when a frame ends
and, up to the start of the frame, it is repeated in every cycle that the transmitter waits in `IDLE`. -/
theorem flush_prompt_iff (cfg : TxConfig) (s : Transmitter n) (hStart : s.state = .idle ∧ s.dvalid = false)
    (inputs : List (TxIn n)) :
    (∀ before after, inputs = before ++ after →
        Prompt cfg (run (watch (clock cfg) (fun asked i s => s.seeFlush cfg asked i)) before (false, s))) ↔
      Along (watch (clock cfg) (fun asked i s => s.seeFlush cfg asked i)) (Repeated cfg) inputs (false, s) := by
  have hGood : ∀ p : Bool × Transmitter n, Latched p.1 p.2 → Prompt cfg p := fun _ h => h.prompt cfg
  exact always_iff_along hGood (fun _ _ h hOk => h.step hOk) (fun _ _ h hPrompt => hPrompt.repeated h) inputs
    ⟨fun _ => hStart.2, fun _ hAsked => by cases hAsked⟩

/-- A word comes, and a pulse of `tx_flush_i`, the fabric being busy in that cycle and in `busy` more. -/
def flushWhileBusy (busy : Nat) : List (TxIn 4) :=
  { push 1 with txFlush := false } :: { drainIn 4 with txFlush := true, dReq := false } ::
    List.replicate busy { drainIn 4 with dReq := false }

theorem flush_prompt_oneCycle :
    Prompt txConfig (run (watch (clock txConfig) (fun asked i s => s.seeFlush txConfig asked i)) (flushWhileBusy 0)
      (false, blankTx)) :=
  (flush_prompt_iff txConfig blankTx ⟨rfl, rfl⟩ (flushWhileBusy 0 ++ [drainIn 4])).mpr (by decide +kernel) _ _ rfl

/-- After a second busy cycle the word waits for another request. -/
theorem flush_forgotten :
    let p := run (watch (clock txConfig) (fun asked i s => s.seeFlush txConfig asked i)) (flushWhileBusy 1) (false, blankTx)
    p.1 = true ∧ p.2.state = .idle ∧ p.2.dreq (drainIn 4) = true ∧ (p.2.clock txConfig (drainIn 4)).state = .idle ∧
      ¬ ∀ inputs : List (TxIn 4),
        Prompt txConfig (run (watch (clock txConfig) (fun asked i s => s.seeFlush txConfig asked i)) inputs (false, blankTx)) := by
  intro p
  have hAsked : p.1 = true := by decide +kernel
  have hState : p.2.state = .idle := by decide +kernel
  have hDreq : p.2.dreq (drainIn 4) = true := by decide +kernel
  have hStays : (p.2.clock txConfig (drainIn 4)).state = .idle := by decide +kernel
  refine ⟨hAsked, hState, hDreq, hStays, fun hAll => ?_⟩
  have hSof := hAll (flushWhileBusy 1) (drainIn 4) rfl hAsked hState hDreq
  rw [hStays] at hSof
  cases hSof

end Transmitter

end WrRfDemo.Streamer

import WrRfDemo.Streamer.FrameEnd

/-! # The numbers of the subframes

The reset of the sequence number and its increment are written by one process, and the increment comes last. A pulse in
the cycle of a header is overwritten, and the next header goes on from there.
-/

namespace WrRfDemo.Streamer

open Clocked

variable {n : Nat}

def numbered (count : Nat) : List (BitVec 16) := (List.range count).map fun k => (1 : BitVec 1) ++ BitVec.ofNat 15 k

theorem numbered_succ (count : Nat) : numbered (count + 1) = numbered count ++ [(1 : BitVec 1) ++ BitVec.ofNat 15 count] := by
  simp [numbered, List.range_succ]

/-- The headers since each pulse or reset, the last of which opened `current`. -/
structure NumberLog where
  finished : List (List (BitVec 16))
  current : List (BitVec 16)
  overwritten : Bool
deriving DecidableEq

namespace Transmitter

def sendsHeader (i : TxIn n) (s : Transmitter n) : Bool := i.rstN && s.state == .subframeHeader && s.dreq i

def header (cfg : TxConfig) (i : TxIn n) (s : Transmitter n) : List (BitVec 16) :=
  if s.sendsHeader i then [(s.clock cfg i).data] else []

end Transmitter

namespace NumberLog

def empty : NumberLog := ⟨[], [], false⟩

/-- A header in the cycle of a pulse still belongs to the sequence before it. -/
def see (cfg : TxConfig) (o : NumberLog) (i : TxIn n) (s : Transmitter n) : NumberLog :=
  if !i.rstN || i.txResetSeq then
    { finished := o.finished ++ [o.current ++ s.header cfg i]
      current := []
      overwritten := s.sendsHeader i && s.seqNo + 1 != 0 }
  else { o with current := o.current ++ s.header cfg i }

def Numbered (o : NumberLog) : Prop := ∀ headers ∈ o.finished ++ [o.current], headers = numbered headers.length

/-- The number that the next header gets. -/
def Next (o : NumberLog) (s : Transmitter n) : Prop :=
  if o.overwritten then o.current = [] ∧ s.seqNo ≠ 0 else s.seqNo = BitVec.ofNat 15 o.current.length

/-- No header while the last pulse is overwritten. -/
def Effective (i : TxIn n) (p : NumberLog × Transmitter n) : Prop := p.2.sendsHeader i = true → p.1.overwritten = false

instance (i : TxIn n) (p : NumberLog × Transmitter n) : Decidable (Effective i p) := inferInstanceAs (Decidable (_ → _))

variable {cfg : TxConfig} {o : NumberLog} {i : TxIn n} {s : Transmitter n}

/-! ### Cycle by cycle -/

theorem seqNo_clock (cfg : TxConfig) (i : TxIn n) (s : Transmitter n) :
    (s.clock cfg i).seqNo =
      if s.sendsHeader i then s.seqNo + 1 else if !i.rstN || i.txResetSeq then 0 else s.seqNo := by
  cases hRst : i.rstN with
  | false => simp [Transmitter.clock, Transmitter.pFsm, Transmitter.sendsHeader, hRst]
  | true => simp [Transmitter.clock, Transmitter.pFsm, Transmitter.seqNext, Transmitter.sendsHeader, hRst]

theorem header_eq (cfg : TxConfig) (i : TxIn n) (s : Transmitter n) :
    s.header cfg i = if s.sendsHeader i then [(1 : BitVec 1) ++ s.seqNo] else [] := by
  rw [Transmitter.header]
  cases hSends : s.sendsHeader i with
  | false => rfl
  | true =>
    simp only [Transmitter.sendsHeader, Bool.and_eq_true, beq_iff_eq] at hSends
    obtain ⟨⟨hRst, hState⟩, hDreq⟩ := hSends
    simp [Transmitter.clock, Transmitter.pFsm, Transmitter.subframeHeader, hRst, hState, hDreq]

theorem Next.plain (h : o.Next s) (hPlain : o.overwritten = false) : s.seqNo = BitVec.ofNat 15 o.current.length := by
  rw [Next, hPlain] at h
  exact h

theorem see_of_pulse (cfg : TxConfig) (o : NumberLog) (s : Transmitter n) (hPulse : (!i.rstN || i.txResetSeq) = true) :
    o.see cfg i s = ⟨o.finished ++ [o.current ++ s.header cfg i], [], s.sendsHeader i && s.seqNo + 1 != 0⟩ :=
  if_pos hPulse

theorem see_of_quiet (cfg : TxConfig) (o : NumberLog) (s : Transmitter n) (hQuiet : (!i.rstN || i.txResetSeq) = false) :
    o.see cfg i s = { o with current := o.current ++ s.header cfg i } :=
  if_neg (Bool.not_eq_true _ |>.mpr hQuiet)

theorem Next.step (h : o.Next s) (hOk : Effective i (o, s)) (cfg : TxConfig) : (o.see cfg i s).Next (s.clock cfg i) := by
  have hSeq := seqNo_clock cfg i s
  have hHeader := header_eq cfg i s
  cases hSends : s.sendsHeader i with
  | true =>
    have hPlain : o.overwritten = false := hOk hSends
    rw [hSends, if_pos rfl] at hSeq hHeader
    cases hPulse : !i.rstN || i.txResetSeq with
    | true =>
      -- the number wraps in this very cycle, or the pulse is lost
      rw [see_of_pulse cfg o s hPulse]
      simp [Next, hSends, hSeq]
    | false =>
      rw [see_of_quiet cfg o s hPulse, Next, if_neg (by simp [hPlain]), hSeq, h.plain hPlain, hHeader, List.length_append]
      exact (BitVec.ofNat_add _ 1).symm
  | false =>
    rw [hSends, if_neg Bool.false_ne_true] at hSeq hHeader
    cases hPulse : !i.rstN || i.txResetSeq with
    | true =>
      rw [hPulse, if_pos rfl] at hSeq
      rw [see_of_pulse cfg o s hPulse]
      simp [Next, hSends, hSeq]
    | false =>
      rw [hPulse, if_neg Bool.false_ne_true] at hSeq
      rw [see_of_quiet cfg o s hPulse, hHeader, List.append_nil, Next, hSeq]
      exact h

theorem numbered_see (cfg : TxConfig) (o : NumberLog) (i : TxIn n) (s : Transmitter n) :
    (o.see cfg i s).Numbered ↔
      (∀ headers ∈ o.finished, headers = numbered headers.length) ∧
        o.current ++ s.header cfg i = numbered (o.current ++ s.header cfg i).length := by
  cases hPulse : !i.rstN || i.txResetSeq <;> simp [Numbered, see, hPulse, or_imp, forall_and, numbered]

theorem Numbered.step (h : o.Numbered) (hNext : o.Next s) (hOk : Effective i (o, s)) (cfg : TxConfig) :
    (o.see cfg i s).Numbered := by
  have hCurrent : o.current = numbered o.current.length := h o.current (by simp)
  refine (numbered_see cfg o i s).mpr ⟨fun headers hMem => h headers (List.mem_append_left _ hMem), ?_⟩
  rw [header_eq]
  cases hSends : s.sendsHeader i with
  | false => simpa using hCurrent
  | true =>
    rw [if_pos rfl, hNext.plain (hOk hSends), List.length_append, List.length_singleton, numbered_succ, ← hCurrent]

/-- A header behind an overwritten pulse does not carry 0. -/
theorem Numbered.effective (hNext : o.Next s) (hAfter : (o.see cfg i s).Numbered) : Effective i (o, s) := by
  intro hSends
  by_contra hOver
  rw [Bool.not_eq_false] at hOver
  rw [Next, hOver, if_pos rfl] at hNext
  obtain ⟨hEmpty, hNonzero⟩ := hNext
  have hFirst := ((numbered_see cfg o i s).mp hAfter).2
  rw [header_eq, hSends, if_pos rfl, hEmpty, List.nil_append, List.length_singleton] at hFirst
  have hWord : (1 : BitVec 1) ++ s.seqNo = (1 : BitVec 1) ++ (0 : BitVec 15) := (List.cons.inj hFirst).1
  exact hNonzero (BitVec.append_right_inj _ |>.mp hWord)

theorem effective_of_apart {inputs : List (TxIn n)} (hPlain : o.overwritten = false)
    (hApart : Along (Transmitter.clock cfg) (fun i s => i.txResetSeq = true → s.sendsHeader i = false) inputs s) :
    Along (watch (Transmitter.clock cfg) (see cfg)) Effective inputs (o, s) := by
  induction inputs generalizing o s with
  | nil => trivial
  | cons i rest ih =>
    refine ⟨fun _ => hPlain, ih ?_ hApart.2⟩
    cases hPulse : !i.rstN || i.txResetSeq with
    | false =>
      rw [see_of_quiet cfg o s hPulse]
      exact hPlain
    | true =>
      have hNone : s.sendsHeader i = false := by
        cases hRst : i.rstN with
        | false => simp [Transmitter.sendsHeader, hRst]
        | true =>
          rw [hRst, Bool.not_true, Bool.false_or] at hPulse
          exact hApart.1 hPulse
      rw [see_of_pulse cfg o s hPulse, hNone]
      rfl

end NumberLog

namespace Transmitter

open NumberLog

theorem numbered_reset {r : TxIn n} (hReset : r.rstN = false) (cfg : TxConfig) (s : Transmitter n) :
    NumberLog.empty.Numbered ∧ NumberLog.empty.Next (s.clock cfg r) := by
  refine ⟨by simp [Numbered, NumberLog.empty, numbered], ?_⟩
  simp [Next, NumberLog.empty, seqNo_clock, sendsHeader, hReset]

/-- The headers since each pulse carry 0, 1, 2 and so on exactly when none is sent while the last pulse is overwritten. -/
theorem numbered_iff {r : TxIn n} (hReset : r.rstN = false) (cfg : TxConfig) (s : Transmitter n) (inputs : List (TxIn n)) :
    (∀ before after, inputs = before ++ after →
      (run (watch (clock cfg) (NumberLog.see cfg)) before (NumberLog.empty, s.clock cfg r)).1.Numbered) ↔
      Along (watch (clock cfg) (NumberLog.see cfg)) Effective inputs (NumberLog.empty, s.clock cfg r) := by
  have hStep : ∀ i (p : NumberLog × Transmitter n), p.1.Numbered ∧ p.1.Next p.2 → Effective i p →
      (watch (clock cfg) (NumberLog.see cfg) i p).1.Numbered ∧
        (watch (clock cfg) (NumberLog.see cfg) i p).1.Next (watch (clock cfg) (NumberLog.see cfg) i p).2 := by
    rintro i ⟨o, s⟩ ⟨hNumbered, hNext⟩ hOk
    exact ⟨hNumbered.step hNext hOk cfg, hNext.step hOk cfg⟩
  have hBreak : ∀ i (p : NumberLog × Transmitter n), p.1.Numbered ∧ p.1.Next p.2 →
      (watch (clock cfg) (NumberLog.see cfg) i p).1.Numbered → Effective i p := by
    rintro i ⟨o, s⟩ ⟨-, hNext⟩ hAfter
    exact hAfter.effective hNext
  have hFirst : ∀ p, p = (NumberLog.empty, s.clock cfg r) → p.1.Numbered ∧ p.1.Next p.2 := by
    rintro p rfl
    exact numbered_reset hReset cfg s
  exact always_iff_along (fun _ h => h.1) hStep hBreak inputs (hFirst _ rfl)

/-- One word a cycle is pushed and flushed, with a pulse where there is one. -/
def pushed (pulses : List Bool) : List (TxIn 4) := pulses.map fun pulse => { push 1 with txResetSeq := pulse }

theorem numbered_iff_quiet :
    (run (watch (clock txConfig) (NumberLog.see txConfig)) (pushed (true :: List.replicate 30 false))
      (NumberLog.empty, blankTx.clock txConfig txReset)).1.Numbered :=
  (numbered_iff rfl txConfig blankTx (pushed (true :: List.replicate 30 false))).mpr (by decide +kernel) _ []
    (List.append_nil _).symm

/-- The pulse comes with the header 0, and the header after it carries 1. -/
theorem numbered_overwritten :
    let pulses := List.replicate 11 false ++ true :: List.replicate 7 false
    let log := (run (watch (clock txConfig) (NumberLog.see txConfig)) (pushed pulses)
      (NumberLog.empty, blankTx.clock txConfig txReset)).1
    log.finished = [[0x8000]] ∧ log.current = [0x8001] ∧
      ¬ ∀ (cfg : TxConfig) (s : Transmitter 4) (r : TxIn 4) (inputs : List (TxIn 4)), r.rstN = false →
        (run (watch (clock cfg) (NumberLog.see cfg)) inputs (NumberLog.empty, s.clock cfg r)).1.Numbered := by
  intro pulses log
  have hLog : log.finished = [[0x8000]] ∧ log.current = [0x8001] := by decide +kernel
  refine ⟨hLog.1, hLog.2, fun hAlways => ?_⟩
  have hCurrent := hAlways txConfig blankTx txReset (pushed pulses) rfl log.current
    (List.mem_append_right _ (List.mem_singleton.mpr rfl))
  rw [hLog.2] at hCurrent
  exact absurd hCurrent (by decide)

end Transmitter

end WrRfDemo.Streamer

import WrRfDemo.Dac.Arbiter

/-! # Every DAC transfer is complete and current

The load strobe of the arbiter reaches the clock divider and the bit counter even while a
transfer runs. A load pulse in the cycle that should end the strobe therefore costs the
transfer a clock period; without such a pulse every transfer is whole.
-/

namespace WrRfDemo.Dac

open Clocked

variable {numExtraBits : Nat} {o : DacLog} {i : ArbIn} {s : Arb numExtraBits}

namespace Arb

theorem clock_of_load (hRst : i.rstN = true) (hLoad : (i.load1 || i.load2) = true) :
    s.clock i = { s.latch i with dac := s.dac.clock (s.serialDacIn i) } := by
  rw [clock, hRst, if_neg (by decide), if_pos hLoad]

theorem clock_of_quiet (hRst : i.rstN = true) (hLoad : (i.load1 || i.load2) = false) :
    s.clock i = { s.advance with dac := s.dac.clock (s.serialDacIn i) } := by
  rw [clock, hRst, if_neg (by decide), hLoad, if_neg (by decide)]

theorem dispatches_of_load (hLoad : (i.load1 || i.load2) = true) : s.dispatches i = none := by
  simp [dispatches, hLoad]

/-- What the state machine does in a cycle without a load pulse, with what it dispatches. -/
inductive Advanced (s : Arb numExtraBits) : Option (BitVec 2 × BitVec 16) → Arb numExtraBits → Prop
  | first (hState : s.state = .waitData) (hReady : s.d1Ready = true) :
      Advanced s (some (1, s.d1))
        { s with dacCsSel := 1, dacData := s.d1, dacLoad := true, d1Ready := false, state := .loadDac }
  | second (hState : s.state = .waitData) (hFirst : s.d1Ready = false) (hReady : s.d2Ready = true) :
      Advanced s (some (2, s.d2))
        { s with dacCsSel := 2, dacData := s.d2, dacLoad := true, d2Ready := false, state := .loadDac }
  | empty (hState : s.state = .waitData) : Advanced s none s
  | strobed (hState : s.state = .loadDac) :
      Advanced s none { s with dacLoad := false, state := .waitDone }
  | done (hState : s.state = .waitDone) (hDone : s.dac.sendingData = false) :
      Advanced s none { s with state := .waitData }
  | waiting (hState : s.state = .waitDone) (hSending : s.dac.sendingData = true) : Advanced s none s

theorem advanced (hLoad : (i.load1 || i.load2) = false) : Advanced s (s.dispatches i) s.advance := by
  cases hState : s.state with
  | waitData =>
    cases h1 : s.d1Ready with
    | true => simpa [dispatches, advance, hLoad, hState, h1] using Advanced.first hState h1
    | false =>
      cases h2 : s.d2Ready with
      | true => simpa [dispatches, advance, hLoad, hState, h1, h2] using Advanced.second hState h1 h2
      | false => simpa [dispatches, advance, hLoad, hState, h1, h2] using Advanced.empty hState
  | loadDac => simpa [dispatches, advance, hState] using Advanced.strobed hState
  | waitDone =>
    cases hSending : s.dac.sendingData with
    | false =>
      simpa [dispatches, advance, hState, SerialDac.xdone, hSending] using Advanced.done hState hSending
    | true =>
      simpa [dispatches, advance, hState, SerialDac.xdone, hSending] using Advanced.waiting hState hSending

end Arb

namespace DacLog

/-! ### Values owed to the channels -/

/-- Each channel's ready register mirrors its mail. -/
structure Owed (o : DacLog) (s : Arb numExtraBits) : Prop where
  owed1 : replay none (o.mailOf 1) = some (if s.d1Ready then some s.d1 else none)
  owed2 : replay none (o.mailOf 2) = some (if s.d2Ready then some s.d2 else none)

theorem mailOf_see (invertSclk : Bool) (channel : BitVec 2) (o : DacLog) (i : ArbIn)
    (s : Arb numExtraBits) : (o.see invertSclk i s).mailOf channel = o.mailOf channel ++
      (mailAt i s).filterMap fun e => if e.1 = channel then some e.2 else none := by
  simp [mailOf, see]

theorem Owed.see (h : Owed o s) (hRst : i.rstN = true) (invertSclk : Bool) :
    Owed (o.see invertSclk i s) (s.clock i) := by
  obtain ⟨h1, h2⟩ := h
  cases hLoad : i.load1 || i.load2 with
  | true =>
    rw [Arb.clock_of_load hRst hLoad]
    have hNone := Arb.dispatches_of_load (s := s) hLoad
    constructor
    · rw [mailOf_see, replay_append h1]
      cases h : i.load1 <;> cases h' : i.load2 <;> simp [mailAt, hNone, h, h', Arb.latch, replay]
    · rw [mailOf_see, replay_append h2]
      cases h : i.load1 <;> cases h' : i.load2 <;> simp [mailAt, hNone, h, h', Arb.latch, replay]
  | false =>
    rw [Arb.clock_of_quiet hRst hLoad]
    obtain ⟨hLoad1, hLoad2⟩ := Bool.or_eq_false_iff.mp hLoad
    have hAdvanced := Arb.advanced (s := s) hLoad
    generalize hSent : s.dispatches i = sent at hAdvanced
    generalize s.advance = next at hAdvanced ⊢
    constructor
    · rw [mailOf_see, replay_append h1]
      cases hAdvanced <;> simp [mailAt, replay, *]
    · rw [mailOf_see, replay_append h2]
      cases hAdvanced <;> simp [mailAt, replay, *]

/-! ### Whole transfers -/

theorem transfers_see (invertSclk : Bool) (o : DacLog) (i : ArbIn) (s : Arb numExtraBits) :
    (o.see invertSclk i s).transfers = o.transfers ++ (s.dispatches i).toList := by
  cases h1 : i.load1 <;> cases h2 : i.load2 <;> cases hSent : s.dispatches i <;>
    simp [transfers, see, mailAt, List.filterMap_cons, transferOf, h1, h2, hSent]

/-- Falling edges of the SCLK pin in a transfer `k` of whose clock periods are complete. -/
def edges (invertSclk iDacClk : Bool) (k : Nat) : Nat :=
  if invertSclk || iDacClk then k else k + 1

def AtRest (numExtraBits : Nat) (o : DacLog) : Prop :=
  o.finished = o.transfers.map (burstOf numExtraBits) ∧ o.current = []

/-- All transfers but the last, which goes to `cs`, are finished. -/
structure Pending (numExtraBits : Nat) (cs : BitVec 2) (value : BitVec 16) (o : DacLog) : Prop where
  channel : cs = 1 ∨ cs = 2
  finished : ∃ before, o.transfers = before ++ [(cs, value)] ∧
    o.finished = before.map (burstOf numExtraBits)

structure Underway (invertSclk : Bool) (o : DacLog) (value : BitVec 16) (k : Nat)
    (s : Arb numExtraBits) : Prop where
  pending : Pending numExtraBits s.dac.csSelReg value o
  sending : s.dac.Sending value k
  current : o.current =
    (List.range (edges invertSclk s.dac.iDacClk k)).map (frameBit numExtraBits value)

/-- Where the transfers stand in each state of the arbiter. -/
def Phase (invertSclk : Bool) (o : DacLog) (s : Arb numExtraBits) : Prop :=
  match s.state with
  | .waitData => s.dacLoad = false ∧ s.dac.sendingData = false ∧ AtRest numExtraBits o
  | .loadDac => s.dacLoad = true ∧ s.dac.sendingData = false ∧ o.current = [] ∧
    Pending numExtraBits s.dacCsSel s.dacData o
  | .waitDone => s.dacLoad = false ∧
    (s.dac.sendingData = false ∧ AtRest numExtraBits o ∨ ∃ value k, Underway invertSclk o value k s)

theorem dac_clock (i : ArbIn) (s : Arb numExtraBits) :
    (s.clock i).dac = s.dac.clock (s.serialDacIn i) := rfl

theorem see_of_idle (invertSclk : Bool) (hIdle : s.dac.sendingData = false) :
    (o.see invertSclk i s).finished = o.finished ∧
      (o.see invertSclk i s).current = o.current := by
  have hCs : selected s.dacCsN = false := by simp [selected, Arb.dacCsN, SerialDac.dacCsN, hIdle]
  simp [see, deselects, bitsAt, fallingEdge, hCs]

theorem idle_clock (hIdle : s.dac.sendingData = false) (hStrobe : s.dacLoad = false) :
    (s.clock i).dac.sendingData = false := by
  simp [dac_clock, SerialDac.clock, Arb.serialDacIn, hIdle, hStrobe]

theorem selected_compl {cs : BitVec 2} (h : cs = 1 ∨ cs = 2) : selected (~~~cs) = true := by
  rcases h with rfl | rfl <;> decide

theorem Pending.of_see {cs : BitVec 2} {value : BitVec 16} (h : Pending numExtraBits cs value o)
    {o' : DacLog} (hTransfers : o'.transfers = o.transfers) (hFinished : o'.finished = o.finished) :
    Pending numExtraBits cs value o' := by
  obtain ⟨hChannel, before, hBefore⟩ := h
  exact ⟨hChannel, before, by rwa [hTransfers, hFinished]⟩

theorem transfers_of_silent (invertSclk : Bool) (hSent : s.dispatches i = none) :
    (o.see invertSclk i s).transfers = o.transfers := by
  rw [transfers_see, hSent]
  simp

theorem dacCsN_of_sending (hSending : s.dac.sendingData = true) : s.dacCsN = ~~~s.dac.csSelReg := by
  simp [Arb.dacCsN, SerialDac.dacCsN, hSending]

theorem csSelReg_clock (hStrobe : s.dacLoad = false) :
    (s.clock i).dac.csSelReg = s.dac.csSelReg := by
  simp [dac_clock, SerialDac.clock, Arb.serialDacIn, hStrobe]

theorem dacDin_of_sending {value : BitVec 16} {k : Nat} (h : s.dac.Sending value k)
    (hk : k < numExtraBits + 16) : s.dacDin = frameBit numExtraBits value k := by
  have hBit := h.shifted 0 (by omega)
  simpa [Arb.dacDin, SerialDac.dacSdata, BitVec.msb] using hBit

theorem see_of_sending (invertSclk : Bool) {cs : BitVec 2} (hCs : cs = 1 ∨ cs = 2)
    (hReg : s.dac.csSelReg = cs) (hStrobe : s.dacLoad = false)
    (hSending : s.dac.sendingData = true) (hNext : (s.clock i).dac.sendingData = true) :
    (o.see invertSclk i s).finished = o.finished ∧ (o.see invertSclk i s).current = o.current ++
      if (s.dac.iDacClk != invertSclk) && !((s.clock i).dac.iDacClk != invertSclk) then [s.dacDin] else [] := by
  have hNow : selected s.dacCsN = true := by
    rw [dacCsN_of_sending hSending, hReg, selected_compl hCs]
  have hThen : selected (s.clock i).dacCsN = true := by
    rw [dacCsN_of_sending hNext, csSelReg_clock hStrobe, hReg, selected_compl hCs]
  simp [see, deselects, bitsAt, fallingEdge, hNow, hThen, Arb.dacSclk, SerialDac.dacSclk]

theorem Underway.of_sending {invertSclk : Bool} {value : BitVec 16} {k k' : Nat}
    (h : Underway invertSclk o value k s) (hStrobe : s.dacLoad = false)
    (hSent : s.dispatches i = none) (hNext : (s.clock i).dac.Sending value k')
    (hEdges : (List.range (edges invertSclk (s.clock i).dac.iDacClk k')).map
        (frameBit numExtraBits value) = (List.range (edges invertSclk s.dac.iDacClk k)).map
          (frameBit numExtraBits value) ++ if (s.dac.iDacClk != invertSclk) &&
            !((s.clock i).dac.iDacClk != invertSclk) then [s.dacDin] else []) :
    Underway invertSclk (o.see invertSclk i s) value k' (s.clock i) := by
  obtain ⟨hFinished, hCurrent⟩ := see_of_sending (o := o) invertSclk h.pending.channel rfl hStrobe
    h.sending.sending hNext.sending
  refine ⟨?_, hNext, ?_⟩
  · rw [csSelReg_clock hStrobe]
    exact h.pending.of_see (transfers_of_silent invertSclk hSent) hFinished
  · rw [hCurrent, h.current, hEdges]

theorem Underway.see {invertSclk : Bool} {value : BitVec 16} {k : Nat}
    (h : Underway invertSclk o value k s) (hRst : i.rstN = true) (hStrobe : s.dacLoad = false)
    (hSent : s.dispatches i = none) :
    ((s.clock i).dac.sendingData = false ∧ AtRest numExtraBits (o.see invertSclk i s)) ∨
      ∃ k', Underway invertSclk (o.see invertSclk i s) value k' (s.clock i) := by
  have hMoved := h.sending.moved (i := s.serialDacIn i) hRst hStrobe rfl
  rw [← dac_clock] at hMoved
  cases hMoved with
  | held hClk hNext =>
    refine .inr ⟨k, h.of_sending hStrobe hSent hNext ?_⟩
    cases invertSclk <;> cases hBefore : s.dac.iDacClk <;> simp [hClk, hBefore]
  | fell hBefore hAfter hNext =>
    refine .inr ⟨k, h.of_sending hStrobe hSent hNext ?_⟩
    have hBit := dacDin_of_sending h.sending (hNext.low hAfter).1
    cases invertSclk <;> simp [edges, hBefore, hAfter, List.range_succ, hBit]
  | rose hBefore hAfter hNext =>
    refine .inr ⟨k + 1, h.of_sending hStrobe hSent hNext ?_⟩
    have hBit := dacDin_of_sending h.sending (h.sending.low hBefore).1
    cases invertSclk <;> simp [edges, hBefore, hAfter, List.range_succ, hBit]
  | ended hDone hBefore hAfter hNext =>
    obtain ⟨⟨hChannel, before, hTransfers, hFinished⟩, hSending, hCurrent⟩ := h
    have hNow : selected s.dacCsN = true := by
      rw [dacCsN_of_sending hSending.sending, selected_compl hChannel]
    have hThen : selected (s.clock i).dacCsN = false := by
      simp [selected, Arb.dacCsN, SerialDac.dacCsN, hNext]
    refine .inl ⟨hNext, ?_, by simp [DacLog.see, deselects, hNow, hThen]⟩
    rw [transfers_of_silent invertSclk hSent, hTransfers]
    simp only [DacLog.see, deselects, bitsAt, fallingEdge, hNow, hThen]
    simp [hFinished, hCurrent, edges, hBefore, hDone, map_frameBit, burstOf,
      dacCsN_of_sending hSending.sending]

theorem AtRest.see (h : AtRest numExtraBits o) (invertSclk : Bool) (hIdle : s.dac.sendingData = false)
    (hSent : s.dispatches i = none) : AtRest numExtraBits (o.see invertSclk i s) := by
  obtain ⟨hFinished, hCurrent⟩ := see_of_idle (o := o) (i := i) invertSclk hIdle
  exact ⟨by rw [hFinished, h.1, transfers_of_silent invertSclk hSent], hCurrent.trans h.2⟩

/-- Outside reset, and without a load pulse in the cycle that should end the load strobe. -/
def StrobeUndisturbed (i : ArbIn) (s : Arb numExtraBits) : Prop :=
  i.rstN = true ∧ (s.state = .loadDac → (i.load1 || i.load2) = false)

instance (i : ArbIn) (s : Arb numExtraBits) : Decidable (StrobeUndisturbed i s) :=
  inferInstanceAs (Decidable (_ ∧ _))

theorem phase_of_load {invertSclk : Bool} (h : Phase invertSclk o s) (hOk : StrobeUndisturbed i s)
    (hLoad : (i.load1 || i.load2) = true) : Phase invertSclk (o.see invertSclk i s) (s.clock i) := by
  have hSent := Arb.dispatches_of_load (s := s) hLoad
  have hClock := Arb.clock_of_load (s := s) hOk.1 hLoad
  have hState : (s.clock i).state = s.state := by rw [hClock]; rfl
  have hStrobe : (s.clock i).dacLoad = s.dacLoad := by rw [hClock]; rfl
  unfold Phase at h ⊢
  rw [hState, hStrobe]
  cases hCase : s.state with
  | waitData =>
    simp only [hCase] at h ⊢
    obtain ⟨hLow, hIdle, hRest⟩ := h
    exact ⟨hLow, idle_clock hIdle hLow, hRest.see invertSclk hIdle hSent⟩
  | loadDac => exact absurd (hOk.2 hCase) (by simp [hLoad])
  | waitDone =>
    simp only [hCase] at h ⊢
    obtain ⟨hLow, ⟨hIdle, hRest⟩ | ⟨value, k, hUnderway⟩⟩ := h
    · exact ⟨hLow, .inl ⟨idle_clock hIdle hLow, hRest.see invertSclk hIdle hSent⟩⟩
    · exact ⟨hLow, (hUnderway.see hOk.1 hLow hSent).imp_right fun ⟨k', hNext⟩ => ⟨value, k', hNext⟩⟩

theorem underway_of_strobe {invertSclk : Bool} (hRst : i.rstN = true) (hState : s.state = .loadDac)
    (h : Phase invertSclk o s) : ∃ value k, Underway invertSclk (o.see invertSclk i s) value k (s.clock i) := by
  simp only [Phase, hState] at h
  obtain ⟨hHigh, hIdle, hCurrent, hPending⟩ := h
  have hSent : s.dispatches i = none := by simp [Arb.dispatches, hState]
  obtain ⟨hSame, hSame'⟩ := see_of_idle (o := o) (i := i) invertSclk hIdle
  have hStart := SerialDac.sending_of_load (i := s.serialDacIn i) hRst hHigh hIdle
  have hReg : (s.clock i).dac.csSelReg = s.dacCsSel := by
    simp [dac_clock, SerialDac.clock, Arb.serialDacIn, hRst, hHigh, hIdle]
  have hClk : (s.clock i).dac.iDacClk = true := by
    simp [dac_clock, SerialDac.clock, Arb.serialDacIn, hRst, hHigh]
  refine ⟨s.dacData, 0, ?_, hStart, ?_⟩
  · rw [hReg]
    exact hPending.of_see (transfers_of_silent invertSclk hSent) hSame
  · simp [hSame', hCurrent, edges, hClk]

theorem phase_of_quiet {invertSclk : Bool} (h : Phase invertSclk o s) (hOk : StrobeUndisturbed i s)
    (hLoad : (i.load1 || i.load2) = false) : Phase invertSclk (o.see invertSclk i s) (s.clock i) := by
  have hAdvanced := Arb.advanced (s := s) hLoad
  have hClock := Arb.clock_of_quiet (s := s) hOk.1 hLoad
  have hTransfers := transfers_see invertSclk o i s
  have hPhase := h
  generalize hSent : s.dispatches i = sent at hAdvanced hTransfers
  generalize s.advance = next at hAdvanced hClock
  unfold Phase at h
  cases hAdvanced with
  | first hState _ | second hState _ _ =>
    rw [hState] at h
    obtain ⟨hLow, hIdle, hFinished, hCurrent⟩ := h
    obtain ⟨hSame, hSame'⟩ := see_of_idle (o := o) (i := i) invertSclk hIdle
    have hStill := idle_clock (i := i) hIdle hLow
    rw [hClock] at hStill
    rw [Phase, hClock]
    exact ⟨rfl, hStill, hSame'.trans hCurrent, by simp, o.transfers, hTransfers, hSame.trans hFinished⟩
  | empty hState =>
    rw [hState] at h
    obtain ⟨hLow, hIdle, hRest⟩ := h
    have hStill := idle_clock (i := i) hIdle hLow
    rw [hClock] at hStill
    simp only [Phase, hClock, hState]
    exact ⟨hLow, hStill, hRest.see invertSclk hIdle hSent⟩
  | strobed hState =>
    have hNext := underway_of_strobe hOk.1 hState hPhase
    rw [hClock] at hNext
    rw [Phase, hClock]
    exact ⟨rfl, .inr hNext⟩
  | done hState hDone =>
    rw [hState] at h
    obtain ⟨hLow, ⟨hIdle, hRest⟩ | ⟨value, k, hUnderway⟩⟩ := h
    · have hStill := idle_clock (i := i) hIdle hLow
      rw [hClock] at hStill
      rw [Phase, hClock]
      exact ⟨hLow, hStill, hRest.see invertSclk hIdle hSent⟩
    · exact absurd hUnderway.sending.sending (by simp [hDone])
  | waiting hState hSending =>
    rw [hState] at h
    obtain ⟨hLow, ⟨hIdle, _⟩ | ⟨value, k, hUnderway⟩⟩ := h
    · exact absurd hSending (by simp [hIdle])
    · have hNext := hUnderway.see hOk.1 hLow hSent
      have hNextState : (s.clock i).state = .waitDone := by rw [hClock]; exact hState
      have hNextLow : (s.clock i).dacLoad = false := by rw [hClock]; exact hLow
      rw [Phase, hNextState]
      exact ⟨hNextLow, hNext.imp_right fun ⟨k', hNext⟩ => ⟨value, k', hNext⟩⟩

theorem phase_see {invertSclk : Bool} (h : Phase invertSclk o s) (hOk : StrobeUndisturbed i s) :
    Phase invertSclk (o.see invertSclk i s) (s.clock i) := by
  cases hLoad : i.load1 || i.load2 with
  | true => exact phase_of_load h hOk hLoad
  | false => exact phase_of_quiet h hOk hLoad

/-- What the finished intervals and the open one show. -/
structure Shown (numExtraBits : Nat) (o : DacLog) : Prop where
  whole : o.finished = (o.transfers.take o.finished.length).map (burstOf numExtraBits)
  behind : o.transfers.length ≤ o.finished.length + 1
  begun : o.current <+: (o.transfers.drop o.finished.length).flatMap fun t => frameBits numExtraBits t.2

theorem Pending.shown {cs : BitVec 2} {value : BitVec 16} (h : Pending numExtraBits cs value o)
    (hBegun : o.current <+: frameBits numExtraBits value) : Shown numExtraBits o := by
  obtain ⟨_, before, hTransfers, hFinished⟩ := h
  constructor
  · simp [hTransfers, hFinished]
  · simp [hTransfers, hFinished]
  · simpa [hTransfers, hFinished] using hBegun

theorem AtRest.shown (h : AtRest numExtraBits o) : Shown numExtraBits o := by
  constructor <;> simp [h.1, h.2]

theorem Underway.begun {invertSclk : Bool} {value : BitVec 16} {k : Nat} (h : Underway invertSclk o value k s) :
    o.current <+: frameBits numExtraBits value := by
  have hEdges : edges invertSclk s.dac.iDacClk k ≤ numExtraBits + 16 := by
    rw [edges]
    cases hClk : s.dac.iDacClk with
    | true => simpa using (h.sending.high hClk).1
    | false =>
      have hMore := (h.sending.low hClk).1
      split <;> omega
  rw [h.current, ← map_frameBit]
  apply List.IsPrefix.map _
  obtain ⟨more, hMore⟩ := Nat.exists_eq_add_of_le hEdges
  rw [hMore, List.range_add]
  exact List.prefix_append _ _

theorem shown_of_phase {invertSclk : Bool} (h : Phase invertSclk o s) : Shown numExtraBits o := by
  unfold Phase at h
  cases hState : s.state with
  | waitData =>
    simp only [hState] at h
    exact h.2.2.shown
  | loadDac =>
    simp only [hState] at h
    exact h.2.2.2.shown (by rw [h.2.2.1]; exact List.nil_prefix)
  | waitDone =>
    simp only [hState] at h
    obtain ⟨_, ⟨_, hRest⟩ | ⟨value, k, hUnderway⟩⟩ := h
    · exact hRest.shown
    · exact hUnderway.pending.shown hUnderway.begun

/-! ### The end of a transfer -/

/-- The transfer that has been dispatched ends within so many cycles. -/
def EndsWithin (n : Nat) (s : Arb numExtraBits) : Prop :=
  s.state = .loadDac ∧ 10 * (numExtraBits + 16) + 3 ≤ n ∨
    s.state = .waitDone ∧ ∃ value k, s.dac.Sending value k ∧ s.dac.left k ≤ n

theorem endsWithin_of_phase {invertSclk : Bool} (h : Phase invertSclk o s) :
    o.transfers.length ≤ o.finished.length ∨ EndsWithin (10 * (numExtraBits + 16) + 3) s := by
  unfold Phase at h
  cases hState : s.state with
  | waitData =>
    simp only [hState] at h
    exact .inl (by simp [h.2.2.1])
  | loadDac => exact .inr (.inl ⟨hState, Nat.le_refl _⟩)
  | waitDone =>
    simp only [hState] at h
    obtain ⟨_, ⟨_, hRest⟩ | ⟨value, k, hUnderway⟩⟩ := h
    · exact .inl (by simp [hRest.1])
    · exact .inr (.inr ⟨hState, value, k, hUnderway.sending, Nat.le_succ_of_le (SerialDac.left_le k s.dac)⟩)

theorem not_endsWithin_zero : ¬EndsWithin 0 s := by
  rintro (⟨-, hPast⟩ | ⟨-, value, k, hSending, hPast⟩)
  · omega
  · have hPos := hSending.left_pos
    omega

/-- A load pulse leaves the state machine where it is. -/
theorem state_waitDone (hRst : i.rstN = true) (hState : s.state = .waitDone) (hSending : s.dac.sendingData = true) :
    (s.clock i).state = .waitDone := by
  cases hLoad : i.load1 || i.load2 with
  | true => simp [Arb.clock_of_load hRst hLoad, Arb.latch, hState]
  | false => simp [Arb.clock_of_quiet hRst hLoad, Arb.advance, hState, SerialDac.xdone, hSending]

theorem EndsWithin.see {n : Nat} {invertSclk : Bool} (h : EndsWithin (n + 1) s) (hPhase : Phase invertSclk o s)
    (hOk : StrobeUndisturbed i s) :
    (o.see invertSclk i s).transfers.length ≤ (o.see invertSclk i s).finished.length ∨ EndsWithin n (s.clock i) := by
  have hNext := phase_see hPhase hOk
  rcases h with ⟨hState, hMany⟩ | ⟨hState, value, k, hSending, hLeft⟩
  · have hClock := Arb.clock_of_quiet (s := s) hOk.1 (hOk.2 hState)
    simp only [Phase, hState] at hPhase
    obtain ⟨hHigh, hIdle, -⟩ := hPhase
    refine .inr (.inr ⟨by simp [hClock, Arb.advance, hState], s.dacData, 0, ?_, ?_⟩)
    · exact SerialDac.sending_of_load (i := s.serialDacIn i) hOk.1 hHigh hIdle
    · exact Nat.le_trans (SerialDac.left_le _ _) (by omega)
  · have hStill := state_waitDone (i := i) hOk.1 hState hSending.sending
    simp only [Phase, hState] at hPhase
    rcases hSending.sooner (i := s.serialDacIn i) hOk.1 hPhase.1 rfl with hIdle | ⟨k', hLater, hSooner⟩
    · simp only [Phase, hStill] at hNext
      obtain ⟨-, ⟨-, hRest⟩ | ⟨value, k, hUnderway⟩⟩ := hNext
      · exact .inl (by simp [hRest.1])
      · exact absurd hUnderway.sending.sending (by rw [dac_clock, hIdle]; decide)
    · exact .inr (.inr ⟨hStill, value, k', hLater, by rw [dac_clock]; omega⟩)

theorem finished_see (invertSclk : Bool) (o : DacLog) (i : ArbIn) (s : Arb numExtraBits) :
    o.finished.length ≤ (o.see invertSclk i s).finished.length := by
  rw [see]
  split <;> simp

/-- What has been dispatched is finished so many cycles later. -/
theorem transfers_end {invertSclk : Bool} (hPhase : Phase invertSclk o s) {later : List ArbIn}
    (hAlong : Along Arb.clock StrobeUndisturbed later s) {sent n : Nat} (hLong : n ≤ later.length)
    (hEnds : sent ≤ o.finished.length ∨ sent ≤ o.transfers.length ∧ EndsWithin n s) :
    sent ≤ (run (watch Arb.clock (see invertSclk)) later (o, s)).1.finished.length := by
  induction later generalizing o s n with
  | nil =>
    obtain rfl := Nat.le_zero.mp hLong
    exact hEnds.resolve_right fun h => not_endsWithin_zero h.2
  | cons i rest ih =>
    have hFinished := finished_see invertSclk o i s
    have hTransfers : o.transfers.length ≤ (o.see invertSclk i s).transfers.length := by
      rw [transfers_see, List.length_append]
      exact Nat.le_add_right _ _
    have hNow := phase_see hPhase hAlong.1
    rcases hEnds with hDone | ⟨hSent, hWithin⟩
    · exact ih hNow hAlong.2 (Nat.zero_le _) (.inl (Nat.le_trans hDone hFinished))
    · obtain ⟨n, rfl⟩ : ∃ m, n = m + 1 := Nat.exists_eq_add_one_of_ne_zero (by
        rintro rfl
        exact not_endsWithin_zero hWithin)
      apply ih hNow hAlong.2 (Nat.le_of_succ_le_succ hLong)
      rcases hWithin.see hPhase hAlong.1 with hOver | hNext
      · exact .inl (Nat.le_trans hSent (Nat.le_trans hTransfers hOver))
      · exact .inr ⟨Nat.le_trans hSent hTransfers, hNext⟩

/-! ### From reset -/

theorem phase_reset (invertSclk : Bool) (hRst : i.rstN = false) :
    Phase invertSclk DacLog.empty (s.clock i) := by
  simp [Phase, Arb.clock, Arb.reset, hRst, SerialDac.clock, Arb.serialDacIn, AtRest, empty, transfers]

theorem owed_reset (hRst : i.rstN = false) : Owed DacLog.empty (s.clock i) := by
  constructor <;> simp [Arb.clock, Arb.reset, hRst, empty, mailOf, replay]

end DacLog

/-- From any reset on, while no load pulse meets the end of a load strobe, every interval with
a chip select low is one whole transfer of the newest value loaded for its channel, and no
loaded value is lost but to a newer one. A transfer ends. -/
theorem dac_transfers_faithful (invertSclk : Bool) (s : Arb numExtraBits) (i : ArbIn)
    (hRst : i.rstN = false) (inputs : List ArbIn)
    (hAlong : Along Arb.clock DacLog.StrobeUndisturbed inputs (s.clock i)) :
    let now := run (watch Arb.clock (DacLog.see invertSclk)) inputs (DacLog.empty, s.clock i)
    now.1.Faithful (run Arb.clock inputs (s.clock i)) ∧
      ∀ later, Along Arb.clock DacLog.StrobeUndisturbed later (run Arb.clock inputs (s.clock i)) →
        10 * (numExtraBits + 16) + 3 ≤ later.length →
          now.1.transfers.length ≤ (run (watch Arb.clock (DacLog.see invertSclk)) later now).1.finished.length := by
  intro now
  have hPhaseStep : ∀ o i (s : Arb numExtraBits), DacLog.Phase invertSclk o s →
      DacLog.StrobeUndisturbed i s → DacLog.Phase invertSclk (o.see invertSclk i s) (s.clock i) :=
    fun _ _ _ h hOk => DacLog.phase_see h hOk
  have hOwedStep : ∀ o i (s : Arb numExtraBits), DacLog.Owed o s →
      DacLog.StrobeUndisturbed i s → DacLog.Owed (o.see invertSclk i s) (s.clock i) :=
    fun _ _ _ h hOk => h.see hOk.1 invertSclk
  have hPhase : DacLog.Phase invertSclk now.1 now.2 :=
    watch_invariant hPhaseStep inputs (DacLog.phase_reset invertSclk hRst) hAlong
  have hOwed : DacLog.Owed now.1 now.2 := watch_invariant hOwedStep inputs (DacLog.owed_reset hRst) hAlong
  obtain ⟨hWhole, hBehind, hBegun⟩ := DacLog.shown_of_phase hPhase
  rw [← run_watch_snd Arb.clock (DacLog.see invertSclk) inputs (DacLog.empty, s.clock i)]
  refine ⟨⟨hWhole, hBehind, hBegun, hOwed.owed1, hOwed.owed2⟩, fun later hLater hLong => ?_⟩
  apply DacLog.transfers_end hPhase hLater hLong
  exact (DacLog.endsWithin_of_phase hPhase).imp_right fun hEnds => ⟨Nat.le_refl _, hEnds⟩

/-! ### The load strobe that a pulse prolongs -/

def quietIn : ArbIn := ⟨true, 0, false, 0, false⟩

def powerUp : Arb 8 := ⟨0, 0, false, false, 0, false, 0, .waitData, ⟨0, 0, 0, false, false, 0⟩⟩

/-- Channel 1 is loaded, and channel 2 too, `gap` cycles later. -/
def twoLoads (gap : Nat) : List ArbIn :=
  ⟨true, 0xABCD, true, 0, false⟩ :: List.replicate gap quietIn ++
    ⟨true, 0, false, 0x1234, true⟩ :: List.replicate 245 quietIn

def pinsOf (inputs : List ArbIn) : List Burst :=
  (run (watch Arb.clock (DacLog.see false)) inputs
    (DacLog.empty, powerUp.clock { quietIn with rstN := false })).1.finished

theorem dac_transfers_faithful_twoLoads :
    (run (watch Arb.clock (DacLog.see false)) (twoLoads 2)
      (DacLog.empty, powerUp.clock { quietIn with rstN := false })).1.Faithful
      (run Arb.clock (twoLoads 2) (powerUp.clock { quietIn with rstN := false })) ∧
    pinsOf (twoLoads 2) = [⟨2, frameBits 8 0xABCD⟩] :=
  ⟨(dac_transfers_faithful false powerUp { quietIn with rstN := false } rfl (twoLoads 2)
    (by decide +kernel)).1, by decide +kernel⟩

/-- One cycle earlier the second load meets the strobe: the chip select of channel 1 is low for
23 falling edges only, and the last bit of the value is never shown. -/
theorem dac_transfer_truncated :
    pinsOf (twoLoads 1) = [⟨2, (frameBits 8 0xABCD).take 23⟩] ∧
    ¬ ∀ inputs : List ArbIn, (∀ i ∈ inputs, i.rstN = true) →
      (run (watch Arb.clock (DacLog.see false)) inputs
        (DacLog.empty, powerUp.clock { quietIn with rstN := false })).1.Faithful
        (run Arb.clock inputs (powerUp.clock { quietIn with rstN := false })) := by
  have hPins : pinsOf (twoLoads 1) = [⟨2, (frameBits 8 0xABCD).take 23⟩] := by decide +kernel
  refine ⟨hPins, fun h => ?_⟩
  obtain ⟨hWhole, _⟩ := h (twoLoads 1) (by decide +kernel)
  change pinsOf (twoLoads 1) = ((DacLog.transfers _).take (pinsOf (twoLoads 1)).length).map _ at hWhole
  rw [hPins] at hWhole
  have hLength := congrArg (fun bursts => bursts.map fun b => b.bits.length) hWhole
  revert hLength
  decide +kernel

end WrRfDemo.Dac

import Mathlib.Data.List.GetD
import WrRfDemo.Clocked.Leads
import WrRfDemo.Pll.Recording

/-! # The playback of the PLL set-up

The FPGA plays the memory word by word before the rest is let out of reset. What it shows the chip is what the
set-up showed that was recorded.
-/

namespace WrRfDemo.Pll

open Clocked Spi

inductive PllState
  | idle | bootPll | initDelay | done
deriving DecidableEq

structure PllInit where
  state : PllState
  cnt : BitVec 24
  addr : BitVec 13
  doneO : Bool
  csNO : Bool
  mosiO : Bool
  sckO : Bool
deriving DecidableEq

/-- `pll_init_seq` with the assignments of the included file; an assignment outside of it is lost. -/
def pllInitSeq (data : List (Nat × BitVec 3)) : Nat → BitVec 3 :=
  data.foldl (fun m e => if e.1 < 8192 then Function.update m e.1 e.2 else m) fun _ => 7

/-- `g_bit_time` and `g_done_delay`. -/
def bitTime (gSimulation : Bool) : Nat := if gSimulation then 1 else 300

def doneDelay (gSimulation : Bool) : Nat := if gSimulation then 300 else 300000

namespace PllInit

/-- `ram_in` on the three lines. -/
def drive (ramIn : BitVec 3) (s : PllInit) : PllInit :=
  { s with csNO := ramIn.getLsbD 0, sckO := ramIn.getLsbD 1, mosiO := ramIn.getLsbD 2 }

variable (gSimulation : Bool) (seq : Nat → BitVec 3)

def clock (rstN : Bool) (s : PllInit) : PllInit :=
  if !rstN then { s with state := .idle, addr := 0, cnt := 0, doneO := false }
  else match s.state with
    | .idle => { s with state := .bootPll, addr := 0, cnt := 0 }
    | .bootPll =>
      let s := s.drive (seq s.addr.toNat)
      if s.cnt.toNat = bitTime gSimulation then
        { s with addr := s.addr + 1, cnt := 0, state := if s.addr.toNat = 8191 then .initDelay else .bootPll }
      else { s with cnt := s.cnt + 1 }
    | .initDelay =>
      { s with cnt := s.cnt + 1, state := if s.cnt.toNat = doneDelay gSimulation then .done else .initDelay }
    | .done => { s with doneO := true }

def lines (s : PllInit) : Lines := ⟨s.csNO, s.sckO, s.mosiO⟩

/-- The edges that a cycle makes. -/
def emit (rstN : Bool) (s : PllInit) : List Edge := s.lines.edge (s.clock gSimulation seq rstN).lines

end PllInit

/-! ### The memory -/

theorem foldl_update (words : List (BitVec 3)) (first : Nat) (m : Nat → BitVec 3) (hFits : first + words.length ≤ 8192) (j : Nat) :
    (((List.range' first words.length).zip words).foldl
        (fun (m : Nat → BitVec 3) e => if e.1 < 8192 then Function.update m e.1 e.2 else m) m) j =
      if first ≤ j then words.getD (j - first) (m j) else m j := by
  induction words generalizing first m with
  | nil => simp
  | cons w words ih =>
    have hBound : first + 1 + words.length ≤ 8192 := by
      rw [List.length_cons] at hFits
      omega
    rw [List.length_cons, List.range'_succ, List.zip_cons_cons, List.foldl_cons, if_pos (by omega), ih (first + 1) _ hBound]
    rcases Nat.lt_trichotomy j first with hBelow | rfl | hAbove
    · rw [if_neg (by omega), if_neg (by omega), Function.update_of_ne (Nat.ne_of_lt hBelow)]
    · rw [if_neg (by omega), if_pos (le_refl j), Nat.sub_self, Function.update_self]
      rfl
    · obtain ⟨k, rfl⟩ : ∃ k, j = first + (k + 1) := ⟨j - first - 1, by omega⟩
      rw [if_pos (by omega), if_pos (by omega), Function.update_of_ne (by omega), Nat.add_sub_cancel_left,
        show first + (k + 1) - (first + 1) = k by omega]
      rfl

/-- The memory is what was printed, with all lines up behind it. -/
theorem pllInitSeq_eq {t : Trace} {edges : List Edge} (h : Traced edges t) (hFits : t.printed.length ≤ 8192) (j : Nat) :
    pllInitSeq t.printed j = (t.printed.map Prod.snd).getD j 7 := by
  have hLength : (t.printed.map Prod.snd).length = t.gpPos := by
    rw [List.length_map, ← List.length_map Prod.fst, h.positions, List.length_range]
  have hPositions : t.printed.map Prod.fst = List.range' 0 (t.printed.map Prod.snd).length := by
    rw [hLength, h.positions, List.range_eq_range']
  have hBound : 0 + (t.printed.map Prod.snd).length ≤ 8192 := by
    rw [List.length_map]
    omega
  rw [List.zip_of_prod hPositions rfl, pllInitSeq, foldl_update _ 0 _ hBound, if_pos (Nat.zero_le j), Nat.sub_zero,
    ← List.zip_of_prod hPositions rfl]

/-! ### The phases of the playback -/

variable {gSimulation : Bool} {seq : Nat → BitVec 3}

def playback (gSimulation : Bool) (seq : Nat → BitVec 3) : Clockwork Bool PllInit Edge :=
  ⟨PllInit.clock gSimulation seq, PllInit.emit gSimulation seq, (· = true), fun s => s.doneO = false⟩

structure Playing (a k : Nat) (l : Lines) (s : PllInit) : Prop where
  state : s.state = .bootPll
  addr : s.addr.toNat = a
  cnt : s.cnt.toNat = k
  busy : s.doneO = false
  lines : s.lines = l

structure Waiting (k : Nat) (l : Lines) (s : PllInit) : Prop where
  state : s.state = .initDelay
  cnt : s.cnt.toNat = k
  busy : s.doneO = false
  lines : s.lines = l

/-- Before the word at `a`, or behind the last. -/
def Before (a : Nat) (l : Lines) (s : PllInit) : Prop := a < 8192 ∧ Playing a 0 l s ∨ a = 8192 ∧ Waiting 0 l s

theorem bitTime_pos (gSimulation : Bool) : 0 < bitTime gSimulation ∧ bitTime gSimulation < 2 ^ 24 := by
  cases gSimulation <;> decide

theorem doneDelay_lt (gSimulation : Bool) : doneDelay gSimulation < 2 ^ 24 := by
  cases gSimulation <;> decide

theorem Playing.clock {a k : Nat} {l : Lines} {s : PllInit} (h : Playing a k l s) :
    PllInit.emit gSimulation seq true s = l.edge (linesOf (seq a)) ∧
      (k < bitTime gSimulation → Playing a (k + 1) (linesOf (seq a)) (s.clock gSimulation seq true)) ∧
      (k = bitTime gSimulation → a < 8192 → Before (a + 1) (linesOf (seq a)) (s.clock gSimulation seq true)) := by
  obtain ⟨hTime, hTop⟩ := bitTime_pos gSimulation
  have hClock : s.clock gSimulation seq true =
      if s.cnt.toNat = bitTime gSimulation then
        { s.drive (seq a) with
          addr := s.addr + 1
          cnt := 0
          state := if s.addr.toNat = 8191 then .initDelay else .bootPll }
      else { s.drive (seq a) with cnt := s.cnt + 1 } := by
    rw [PllInit.clock, if_neg (by decide), h.state, ← h.addr]
    rfl
  have hLines : (s.clock gSimulation seq true).lines = linesOf (seq a) := by
    rw [hClock]
    split_ifs <;> rfl
  refine ⟨by rw [PllInit.emit, hLines, h.lines], fun hMore => ?_, fun hLast hBound => ?_⟩
  · rw [if_neg (by rw [h.cnt]; omega)] at hClock
    refine ⟨?_, ?_, ?_, ?_, hLines⟩ <;> rw [hClock]
    · exact h.state
    · exact h.addr
    · change (s.cnt + 1).toNat = k + 1
      rw [BitVec.toNat_add, h.cnt]
      exact Nat.mod_eq_of_lt (show k + 1 < 2 ^ 24 by omega)
    · exact h.busy
  · rw [if_pos (h.cnt.trans hLast)] at hClock
    rcases Nat.lt_or_ge (a + 1) 8192 with hMore | hEnd
    · refine .inl ⟨hMore, ?_, ?_, ?_, ?_, hLines⟩ <;> rw [hClock]
      · exact if_neg (by rw [h.addr]; omega)
      · change (s.addr + 1).toNat = a + 1
        rw [BitVec.toNat_add, h.addr]
        exact Nat.mod_eq_of_lt (show a + 1 < 2 ^ 13 by omega)
      · rfl
      · exact h.busy
    · refine .inr ⟨by omega, ?_, ?_, ?_, hLines⟩ <;> rw [hClock]
      · exact if_pos (by rw [h.addr]; omega)
      · rfl
      · exact h.busy

/-- A word is on the lines for its time; its edge comes first. -/
theorem leads_word {a : Nat} {l : Lines} (hBound : a < 8192) :
    (playback gSimulation seq).Leads (1 + bitTime gSimulation) (Playing a 0 l) fun events s =>
      events = l.edge (linesOf (seq a)) ∧ Before (a + 1) (linesOf (seq a)) s := by
  obtain ⟨hTime, -⟩ := bitTime_pos gSimulation
  have hFirst : (playback gSimulation seq).Leads 1 (Playing a 0 l) fun events s =>
      events = l.edge (linesOf (seq a)) ∧ Playing a 1 (linesOf (seq a)) s := by
    refine Clockwork.leads_one fun i s hRst hPlaying => ⟨hPlaying.busy, ?_⟩
    obtain rfl : i = true := hRst
    exact ⟨hPlaying.clock.1, hPlaying.clock.2.1 hTime⟩
  have hStay : (playback gSimulation seq).Leads (bitTime gSimulation - 1) (Playing a 1 (linesOf (seq a))) fun events s =>
      events = [] ∧ Playing a (bitTime gSimulation) (linesOf (seq a)) s := by
    refine Clockwork.leads_quiet (P := fun k s => Playing a k (linesOf (seq a)) s) (fun k hk i s hRst hPlaying => ?_) _
      (by omega)
    obtain rfl : i = true := hRst
    exact ⟨hPlaying.busy, hPlaying.clock.1.trans (Lines.edge_self _), hPlaying.clock.2.1 hk⟩
  have hLast : (playback gSimulation seq).Leads 1 (Playing a (bitTime gSimulation) (linesOf (seq a))) fun events s =>
      events = [] ∧ Before (a + 1) (linesOf (seq a)) s := by
    refine Clockwork.leads_one fun i s hRst hPlaying => ⟨hPlaying.busy, ?_⟩
    obtain rfl : i = true := hRst
    exact ⟨hPlaying.clock.1.trans (Lines.edge_self _), hPlaying.clock.2.2 rfl hBound⟩
  have hAll := hFirst.andThen (hStay.andThen hLast)
  rw [Nat.sub_add_cancel hTime] at hAll
  apply hAll.mono (fun s hs => hs)
  rintro events s ⟨_, rfl, _, rfl, rfl, hBefore⟩
  exact ⟨List.append_nil _, hBefore⟩

/-- The lines of the words from `a` on. -/
def played (seq : Nat → BitVec 3) (a n : Nat) : List Lines := (List.range' a n).map fun j => linesOf (seq j)

theorem leads_words {a : Nat} {l : Lines} (n : Nat) (hEnd : a + n = 8192) :
    (playback gSimulation seq).Leads (n * (1 + bitTime gSimulation)) (Before a l) fun events s =>
      events = transitions Lines.edge l (played seq a n) ∧ ∃ last, Waiting 0 last s := by
  induction n generalizing a l with
  | zero =>
    rw [Nat.zero_mul]
    refine Clockwork.leads_zero fun s hBefore => ⟨rfl, ?_⟩
    rcases hBefore with ⟨hMore, -⟩ | ⟨-, hWaiting⟩
    · omega
    · exact ⟨l, hWaiting⟩
  | succ n ih =>
    have hWord : (playback gSimulation seq).Leads (1 + bitTime gSimulation) (Playing a 0 l) fun events s =>
        events = l.edge (linesOf (seq a)) ∧ Before (a + 1) (linesOf (seq a)) s := leads_word (by omega)
    have hAll := hWord.andThen (ih (a := a + 1) (l := linesOf (seq a)) (by omega))
    rw [Nat.add_one_mul, Nat.add_comm]
    refine hAll.mono (fun s hBefore => ?_) ?_
    · rcases hBefore with ⟨-, hPlaying⟩ | ⟨hOver, -⟩
      · exact hPlaying
      · omega
    · rintro events s ⟨_, rfl, rfl, hWaiting⟩
      exact ⟨rfl, hWaiting⟩

theorem Waiting.clock {k : Nat} {l : Lines} {s : PllInit} (h : Waiting k l s) :
    PllInit.emit gSimulation seq true s = [] ∧
      (k < doneDelay gSimulation → Waiting (k + 1) l (s.clock gSimulation seq true)) ∧
      (k = doneDelay gSimulation →
        (s.clock gSimulation seq true).state = .done ∧ (s.clock gSimulation seq true).doneO = false) := by
  have hTop := doneDelay_lt gSimulation
  have hClock : s.clock gSimulation seq true =
      { s with cnt := s.cnt + 1, state := if s.cnt.toNat = doneDelay gSimulation then .done else .initDelay } := by
    rw [PllInit.clock, if_neg (by decide), h.state]
  have hLines : (s.clock gSimulation seq true).lines = s.lines := by
    rw [hClock]
    rfl
  refine ⟨by rw [PllInit.emit, hLines, Lines.edge_self], fun hMore => ?_, fun hLast => ?_⟩
  · refine ⟨?_, ?_, ?_, hLines.trans h.lines⟩ <;> rw [hClock]
    · exact if_neg (by rw [h.cnt]; omega)
    · change (s.cnt + 1).toNat = k + 1
      rw [BitVec.toNat_add, h.cnt]
      exact Nat.mod_eq_of_lt (show k + 1 < 2 ^ 24 by omega)
    · exact h.busy
  · rw [hClock]
    exact ⟨if_pos (h.cnt.trans hLast), h.busy⟩

theorem leads_delay {l : Lines} :
    (playback gSimulation seq).Leads (doneDelay gSimulation + 1) (Waiting 0 l) fun events s =>
      events = [] ∧ s.state = .done ∧ s.doneO = false := by
  have hStay : (playback gSimulation seq).Leads (doneDelay gSimulation) (Waiting 0 l) fun events s =>
      events = [] ∧ Waiting (doneDelay gSimulation) l s := by
    refine Clockwork.leads_quiet (P := fun k s => Waiting k l s) (fun k hk i s hRst hWaiting => ?_) _ (Nat.zero_add _)
    obtain rfl : i = true := hRst
    exact ⟨hWaiting.busy, hWaiting.clock.1, hWaiting.clock.2.1 hk⟩
  have hLast : (playback gSimulation seq).Leads 1 (Waiting (doneDelay gSimulation) l) fun events s =>
      events = [] ∧ s.state = .done ∧ s.doneO = false := by
    refine Clockwork.leads_one fun i s hRst hWaiting => ⟨hWaiting.busy, ?_⟩
    obtain rfl : i = true := hRst
    exact ⟨hWaiting.clock.1, hWaiting.clock.2.2 rfl⟩
  apply (hStay.andThen hLast).mono (fun s hs => hs)
  rintro events s ⟨_, rfl, rfl, hDone⟩
  exact ⟨rfl, hDone⟩

theorem done_clock (gSimulation : Bool) (seq : Nat → BitVec 3) {s : PllInit} (h : s.state = .done) :
    PllInit.emit gSimulation seq true s = [] ∧ s.clock gSimulation seq true = { s with doneO := true } := by
  have hClock : s.clock gSimulation seq true = { s with doneO := true } := by
    rw [PllInit.clock, if_neg (by decide), h]
  refine ⟨?_, hClock⟩
  rw [PllInit.emit, hClock]
  exact Lines.edge_self _

/-- The cycles from the end of the reset to `done_o`. -/
def setUpTime (gSimulation : Bool) : Nat := 1 + (8192 * (1 + bitTime gSimulation) + (doneDelay gSimulation + 1 + 1))

structure InReset (l : Lines) (s : PllInit) : Prop where
  state : s.state = .idle
  busy : s.doneO = false
  lines : s.lines = l

theorem leads_setUp {l : Lines} :
    (playback gSimulation seq).Leads (setUpTime gSimulation) (InReset l) fun events s =>
      events = transitions Lines.edge l (played seq 0 8192) ∧ s.state = .done ∧ s.doneO = true := by
  have hIdle : (playback gSimulation seq).Leads 1 (InReset l) fun events s => events = [] ∧ Before 0 l s := by
    refine Clockwork.leads_one fun i s hRst hReset => ⟨hReset.busy, ?_⟩
    obtain rfl : i = true := hRst
    have hClock : s.clock gSimulation seq true = { s with state := .bootPll, addr := 0, cnt := 0 } := by
      rw [PllInit.clock, if_neg (by decide), hReset.state]
    have hLines : (s.clock gSimulation seq true).lines = s.lines := by
      rw [hClock]
      rfl
    refine ⟨?_, .inl ⟨by decide, ?_⟩⟩
    · change s.lines.edge (s.clock gSimulation seq true).lines = []
      rw [hLines, Lines.edge_self]
    · change Playing 0 0 l (s.clock gSimulation seq true)
      refine ⟨?_, ?_, ?_, ?_, hLines.trans hReset.lines⟩ <;> rw [hClock]
      · rfl
      · rfl
      · exact hReset.busy
  have hEnd : (playback gSimulation seq).Leads 1 (fun s : PllInit => s.state = .done ∧ s.doneO = false) fun events s =>
      events = [] ∧ s.state = .done ∧ s.doneO = true := by
    refine Clockwork.leads_one fun i s hRst hDone => ⟨hDone.2, ?_⟩
    obtain rfl : i = true := hRst
    refine ⟨(done_clock gSimulation seq hDone.1).1, ?_⟩
    change (s.clock gSimulation seq true).state = .done ∧ (s.clock gSimulation seq true).doneO = true
    rw [(done_clock gSimulation seq hDone.1).2]
    exact ⟨hDone.1, rfl⟩
  have hDelay : (playback gSimulation seq).Leads (doneDelay gSimulation + 1 + 1) (fun s => ∃ last, Waiting 0 last s)
      fun events s => events = [] ∧ s.state = .done ∧ s.doneO = true := by
    rintro inputs s hLength hOk ⟨last, hWaiting⟩
    obtain ⟨hAlong, after, hEvents, hLater, hDone⟩ := (leads_delay.andThen hEnd) inputs s hLength hOk hWaiting
    exact ⟨hAlong, by rw [hEvents, hLater]; rfl, hDone⟩
  have hWords : (playback gSimulation seq).Leads (8192 * (1 + bitTime gSimulation)) (Before 0 l) fun events s =>
      events = transitions Lines.edge l (played seq 0 8192) ∧ ∃ last, Waiting 0 last s := leads_words 8192 (Nat.zero_add _)
  apply (hIdle.andThen (hWords.andThen hDelay)).mono (fun s hs => hs)
  rintro events s ⟨_, rfl, _, rfl, rfl, hDone⟩
  exact ⟨List.append_nil _, hDone⟩

theorem done_run (gSimulation : Bool) (seq : Nat → BitVec 3) {inputs : List Bool} (hOk : ∀ j ∈ inputs, j = true) {s : PllInit} (hState : s.state = .done)
    (hDone : s.doneO = true) :
    trace (PllInit.clock gSimulation seq) (PllInit.emit gSimulation seq) inputs s = [] ∧
      (run (PllInit.clock gSimulation seq) inputs s).doneO = true := by
  induction inputs generalizing s with
  | nil => exact ⟨rfl, hDone⟩
  | cons i inputs ih =>
    obtain rfl : i = true := hOk i List.mem_cons_self
    obtain ⟨hEmit, hClock⟩ := done_clock gSimulation seq hState
    have hNext : (s.clock gSimulation seq true).state = .done ∧ (s.clock gSimulation seq true).doneO = true := by
      rw [hClock]
      exact ⟨hState, rfl⟩
    obtain ⟨hTrace, hRun⟩ := ih (fun j hj => hOk j (List.mem_cons_of_mem _ hj)) hNext.1 hNext.2
    rw [trace, hEmit, hTrace]
    exact ⟨rfl, hRun⟩

/-- At any time the playback has made the first of the edges of the memory, and at `done_o` all of them. -/
theorem playback_run (gSimulation : Bool) (seq : Nat → BitVec 3) {inputs : List Bool} (hOk : ∀ j ∈ inputs, j = true) {l : Lines} {s : PllInit} (hReset : InReset l s) :
    let edges := trace (PllInit.clock gSimulation seq) (PllInit.emit gSimulation seq) inputs s
    let all := transitions Lines.edge l (played seq 0 8192)
    ((run (PllInit.clock gSimulation seq) inputs s).doneO = true ↔ setUpTime gSimulation ≤ inputs.length) ∧
      edges <+: all ∧ (setUpTime gSimulation ≤ inputs.length → edges = all) := by
  intro edges all
  have hLeads : (playback gSimulation seq).Leads (setUpTime gSimulation) (InReset l) fun events s =>
      events = all ∧ s.state = .done ∧ s.doneO = true := leads_setUp
  rcases Nat.lt_or_ge inputs.length (setUpTime gSimulation) with hShort | hLong
  · obtain ⟨hBusy, events, _, ⟨rfl, -⟩, hPrefix⟩ := hLeads.cut (rfl : (playback gSimulation seq).ok true) hShort hOk hReset
    refine ⟨⟨fun hDone => ?_, fun hLong => absurd hLong (Nat.not_le.mpr hShort)⟩, hPrefix,
      fun hLong => absurd hLong (Nat.not_le.mpr hShort)⟩
    exact absurd (hDone.symm.trans hBusy) (by decide)
  · obtain ⟨first, rest, hSplit, hLength⟩ : ∃ first rest, inputs = first ++ rest ∧ first.length = setUpTime gSimulation :=
      ⟨_, _, (List.take_append_drop (setUpTime gSimulation) inputs).symm, List.length_take_of_le hLong⟩
    have hFirst : ∀ j ∈ first, j = true := fun j hj => hOk j (hSplit ▸ List.mem_append_left _ hj)
    have hRest : ∀ j ∈ rest, j = true := fun j hj => hOk j (hSplit ▸ List.mem_append_right _ hj)
    obtain ⟨-, hEvents, hState, hDone⟩ := hLeads first s hLength hFirst hReset
    obtain ⟨hTrace, hRun⟩ := done_run gSimulation seq hRest hState hDone
    have hAll : edges = all := by
      change trace _ _ inputs s = all
      rw [hSplit, trace_append]
      exact (congrArg₂ (· ++ ·) hEvents hTrace).trans (List.append_nil _)
    refine ⟨⟨fun _ => hLong, fun _ => ?_⟩, ⟨[], by rw [hAll, List.append_nil]⟩, fun _ => hAll⟩
    rw [hSplit, run_append]
    exact hRun

/-! ### The edges of the memory -/

theorem played_eq {t : Trace} {edges : List Edge} (h : Traced edges t) (hFits : t.printed.length ≤ 8192) :
    played (pllInitSeq t.printed) 0 8192 = (t.printed.map Prod.snd).map linesOf ++
      List.replicate (8192 - t.printed.length) (linesOf 7) := by
  apply List.ext_getElem
  · simp [played]
    omega
  · intro j hLeft hRight
    have hPlayed : (played (pllInitSeq t.printed) 0 8192)[j] = linesOf ((t.printed.map Prod.snd).getD j 7) := by
      rw [← pllInitSeq_eq h hFits]
      simp [played]
    rw [hPlayed]
    rcases Nat.lt_or_ge j t.printed.length with hIn | hBeyond
    · rw [List.getElem_append_left (by simpa using hIn), List.getElem_map, List.getD_eq_getElem _ _ (by simpa using hIn)]
    · rw [List.getElem_append_right (by simpa using hBeyond), List.getElem_replicate,
        List.getD_eq_default _ _ (by simpa using hBeyond)]

theorem transitions_up (l : Lines) (n : Nat) :
    (transitions Lines.edge l (List.replicate n (linesOf 7))).filter Edge.selected = [] := by
  induction n generalizing l with
  | zero => rfl
  | succ n ih =>
    have hEdge : (l.edge (linesOf 7)).filter Edge.selected = [] := by
      rw [Lines.edge]
      split_ifs
      · exact List.filter_cons_of_neg (by simp [linesOf])
      · rfl
    rw [List.replicate_succ, transitions, List.filter_append, hEdge, ih, List.nil_append]

theorem selected_played {t : Trace} {edges : List Edge} (h : Traced edges t) (hFits : t.printed.length ≤ 8192) (l : Lines) :
    (transitions Lines.edge l (played (pllInitSeq t.printed) 0 8192)).filter Edge.selected = edges.filter Edge.selected := by
  obtain ⟨rest, hWords, -, hEdges⟩ := h.words
  have hFirst : l.edge (linesOf 5) = [] := by
    rw [Lines.edge, show (linesOf 5).sck = false from rfl, Bool.and_false]
    rfl
  rw [played_eq h hFits, hWords, transitions_append, List.filter_append, transitions_up, List.append_nil, List.map_cons,
    transitions, hFirst, hEdges, List.nil_append]

theorem selected_frames (frames : List (BitVec 32)) :
    (frames.flatMap (frameEdges 24)).filter Edge.selected = frames.flatMap (frameEdges 24) := by
  refine List.filter_eq_self.mpr fun e he => ?_
  obtain ⟨value, -, hIn⟩ := List.mem_flatMap.mp he
  obtain ⟨i, -, rfl⟩ := List.mem_map.mp hIn
  rfl

theorem playback_selected (gSimulation : Bool) {t : Trace} {edges : List Edge} (h : Traced edges t) (hFits : t.printed.length ≤ 8192)
    {inputs : List Bool} (hOk : ∀ j ∈ inputs, j = true) {l : Lines} {s : PllInit} (hReset : InReset l s) :
    let seq := pllInitSeq t.printed
    let sent := (trace (PllInit.clock gSimulation seq) (PllInit.emit gSimulation seq) inputs s).filter Edge.selected
    ((run (PllInit.clock gSimulation seq) inputs s).doneO = true ↔ setUpTime gSimulation ≤ inputs.length) ∧
      sent <+: edges.filter Edge.selected ∧
      (setUpTime gSimulation ≤ inputs.length → sent = edges.filter Edge.selected) := by
  intro seq sent
  have hAll := selected_played h hFits l
  obtain ⟨hDone, hPrefix, hEdges⟩ := playback_run gSimulation seq hOk hReset
  rw [← hAll]
  exact ⟨hDone, hPrefix.filter _, fun hLong => congrArg _ (hEdges hLong)⟩

/-- The recording of a set-up has begun, and its edges are those at the pins: the frames one after another. -/
theorem boot_traced (levels : Nat → InputPins) (regs : List (BitVec 16 × BitVec 8)) (p : Pins) {ok : Bool} {port : Gpior}
    {t : Trace} (hBoot : (ad9516Boot (tracedGpio levels) regs).run (⟨p, [], 0⟩, .start) = (ok, port, t)) :
    Traced (risingEdges .pllSysCsN p port.wave) t ∧
      risingEdges .pllSysCsN p port.wave = (knocking ++ if ok then loading regs else []).flatMap (frameEdges 24) := by
  obtain ⟨hOk, hSession⟩ := Prod.mk.inj (hBoot.symm.trans (run_ad9516Boot levels regs (⟨p, [], 0⟩, .start)))
  rw [← hOk] at hSession
  have hShows : Shows .pllSysCsN p [] ⟨p, [], 0⟩ := ⟨rfl, rfl⟩
  obtain ⟨hPort, hTrace⟩ := session_edges levels (knocking ++ if ok then loading regs else []) hShows (.inl ⟨rfl, rfl⟩)
  rw [List.nil_append, ← hSession] at hPort hTrace
  refine ⟨?_, hPort.edges⟩
  rw [hPort.edges]
  refine hTrace.resolve_left fun hNone => ?_
  have hSome : frameEdges 24 (Gpio.writeFrame 0 0x99) ≠ [] := fun hNil => by
    have hLength := congrArg List.length hNil
    simp [frameEdges] at hLength
  rw [knocking, List.cons_append, List.flatMap_cons] at hNone
  exact hSome (List.append_eq_nil_iff.mp hNone.2).1

/-- What the FPGA plays back of a recording that fits its memory: while it goes on, the first of the edges that the
set-up made at the pins, and at `done_o` all of them, bit by bit the frames that the driver sent. -/
theorem setUp_replayed (levels : Nat → InputPins) (regs : List (BitVec 16 × BitVec 8)) (p : Pins) (gSimulation : Bool)
    {inputs : List Bool} {l : Lines} {s : PllInit} (hReset : InReset l s) (hOk : ∀ j ∈ inputs, j = true)
    (hFits : ((ad9516Boot (tracedGpio levels) regs).run (⟨p, [], 0⟩, .start)).2.2.printed.length ≤ 8192) :
    let boot := (ad9516Boot (tracedGpio levels) regs).run (⟨p, [], 0⟩, .start)
    let seq := pllInitSeq boot.2.2.printed
    let sent := (trace (PllInit.clock gSimulation seq) (PllInit.emit gSimulation seq) inputs s).filter Edge.selected
    ((run (PllInit.clock gSimulation seq) inputs s).doneO = true ↔ setUpTime gSimulation ≤ inputs.length) ∧
      sent <+: risingEdges .pllSysCsN p boot.2.1.wave ∧
      (setUpTime gSimulation ≤ inputs.length → sent = risingEdges .pllSysCsN p boot.2.1.wave) ∧
      risingEdges .pllSysCsN p boot.2.1.wave =
        (knocking ++ if boot.1 then loading regs else []).flatMap (frameEdges 24) := by
  generalize hBoot : (ad9516Boot (tracedGpio levels) regs).run (⟨p, [], 0⟩, .start) = result at hFits
  obtain ⟨ok, port, t⟩ := result
  obtain ⟨hTraced, hFrames⟩ := boot_traced levels regs p hBoot
  have hSelected : (risingEdges .pllSysCsN p port.wave).filter Edge.selected = risingEdges .pllSysCsN p port.wave := by
    rw [hFrames, selected_frames]
  obtain ⟨hDone, hPrefix, hAll⟩ := playback_selected gSimulation hTraced hFits hOk hReset
  rw [hSelected] at hPrefix hAll
  exact ⟨hDone, hPrefix, hAll, hFrames⟩

/-- A chip that answers 0xc3: in every frame the line is low for bits 5 to 2. A call reads the register 99 times. -/
def answering (n : Nat) : InputPins := ⟨n % 99 < 76 || 88 < n % 99, true, 0⟩

theorem boot_answering (regs : List (BitVec 16 × BitVec 8)) (p : Pins) :
    ((ad9516Boot (tracedGpio answering) regs).run (⟨p, [], 0⟩, .start)).1 = true := by
  have hBits : ∀ k : Fin 8, (answering (0 + 297 + sampleAt (23 - k))).pllVcxoSdo = (0xc3#8).getLsbD k := by decide
  have hChip : answered answering (⟨p, [], 0⟩, .start) = 0xc3 :=
    BitVec.eq_of_getLsbD_eq fun k hk => (getLsbD_answered answering _ hk).trans (hBits ⟨k, hk⟩)
  rw [run_ad9516Boot]
  exact decide_eq_true hChip

/-- A set-up of one register, with an answer: the knocking and the load of the table are played. -/
theorem setUp_replayed_one :
    let boot := (ad9516Boot (tracedGpio answering) [(0x10, 0x7c)]).run (⟨⟨0, false⟩, [], 0⟩, .start)
    let seq := pllInitSeq boot.2.2.printed
    let inputs := List.replicate (setUpTime true) true
    let s : PllInit := ⟨.idle, 0, 0, false, true, true, true⟩
    (run (PllInit.clock true seq) inputs s).doneO = true ∧
      (trace (PllInit.clock true seq) (PllInit.emit true seq) inputs s).filter Edge.selected =
        (knocking ++ loading [(0x10, 0x7c)]).flatMap (frameEdges 24) := by
  have hFits := boot_fits answering [(0x10, 0x7c)] ⟨0, false⟩ (by decide)
  have hOk : ∀ j ∈ List.replicate (setUpTime true) true, j = true := fun j hj => List.eq_of_mem_replicate hj
  have hReset : InReset ⟨true, true, true⟩ ⟨.idle, 0, 0, false, true, true, true⟩ := ⟨rfl, rfl, rfl⟩
  have hTime : setUpTime true ≤ (List.replicate (setUpTime true) true).length := by rw [List.length_replicate]
  obtain ⟨hDone, -, hSent, hFrames⟩ := setUp_replayed answering [(0x10, 0x7c)] ⟨0, false⟩ true hReset hOk hFits
  have hSeen := hSent hTime
  rw [hFrames, boot_answering, if_pos rfl] at hSeen
  exact ⟨hDone.mpr hTime, hSeen⟩

end WrRfDemo.Pll

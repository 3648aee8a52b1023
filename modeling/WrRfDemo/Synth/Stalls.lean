import WrRfDemo.Synth.QuadChannel

/-! # Stalled clocks

The registers behind the tables do not wait for `dreq_i`. A stall leaves the channel as it was only where they hold
what the tables show already; then it is no more than a delay. A wrong entry is out of the pipeline six clocks later.
-/

namespace WrRfDemo.Synth

open Clocked

/-- The channel is not touched but for `dreq_i`: no reset, no new accumulator value, the same tuning word. -/
def QuadIn.Keeps (tune : BitVec 43) (i : QuadIn) : Prop :=
  i.rstN = true ∧ i.accLoad = false ∧ (i.tuneLoad = true → i.tuneI = tune)

instance (tune : BitVec 43) (i : QuadIn) : Decidable (i.Keeps tune) := inferInstanceAs (Decidable (_ ∧ _))

def requests (inputs : List QuadIn) : Nat := inputs.countP QuadIn.dreq

namespace QuadChannel

/-- The registers behind the tables hold the entries at the present addresses. -/
def Settled (s : QuadChannel) : Prop := ∀ k, s.lutData.get k = lut (s.stages.get k).lutAddrO

instance (s : QuadChannel) : Decidable s.Settled := inferInstanceAs (Decidable (∀ _, _))

def countRequests (count : Nat) (i : QuadIn) (_ : QuadChannel) : Nat := if i.dreq then count + 1 else count

/-- A stall, unless it comes before `lead` clocks with `dreq_i`, finds the channel settled. -/
def SettledFrom (lead : Nat) (i : QuadIn) (p : Nat × QuadChannel) : Prop := i.dreq = false → lead ≤ p.1 → p.2.Settled

instance (lead : Nat) (i : QuadIn) (p : Nat × QuadChannel) : Decidable (SettledFrom lead i p) :=
  inferInstanceAs (Decidable (_ → _ → _))

def advance (s : QuadChannel) : QuadChannel := s.clock ⟨true, false, false, true, 0, 0⟩

variable {s t : QuadChannel} {i : QuadIn} {inputs first second : List QuadIn}

theorem tune_clock (h : i.Keeps s.tune) : (s.clock i).tune = s.tune := by
  obtain ⟨hRst, -, hTune⟩ := h
  simp only [clock, hRst, Bool.not_true, Bool.false_eq_true, if_false]
  split_ifs with hLoad
  · exact hTune hLoad
  · rfl

theorem clock_of_dreq (h : i.Keeps s.tune) (hDreq : i.dreq = true) : s.clock i = s.advance := by
  have hTune := tune_clock h
  obtain ⟨hRst, hLoad, -⟩ := h
  rw [QuadChannel.mk.injEq]
  refine ⟨hTune, ?_, ?_, ?_, ?_, ?_, rfl⟩ <;> simp [clock, advance, QuadIn.advances, hRst, hLoad, hDreq]

theorem clock_of_stall (h : i.Keeps s.tune) (hDreq : i.dreq = false) :
    s.clock i = { s with lutData := .ofFn fun k => lut (s.stages.get k).lutAddrO } := by
  have hTune := tune_clock h
  obtain ⟨hRst, hLoad, -⟩ := h
  have hStages : (s.clock i).stages = s.stages := by
    apply Quad.ext_get
    intro k
    simp [clock, Stage.clock, hRst, hDreq]
  rw [QuadChannel.mk.injEq]
  refine ⟨hTune, ?_, ?_, ?_, ?_, hStages, rfl⟩ <;> simp [clock, QuadIn.advances, hRst, hLoad, hDreq]

theorem clock_of_settled (h : i.Keeps s.tune) (hDreq : i.dreq = false) (hSettled : s.Settled) : s.clock i = s := by
  have hData : Quad.ofFn (fun k => lut (s.stages.get k).lutAddrO) = s.lutData := by
    apply Quad.ext_get
    intro k
    rw [Quad.get_ofFn, hSettled k]
  rw [clock_of_stall h hDreq, hData]

/-- Any other stall lets a wrong entry into a stage. -/
theorem stall_harmless_iff (h : i.Keeps s.tune) (hDreq : i.dreq = false) :
    (∀ k, ((s.clock i).advance.stages.get k).lutIn = (s.advance.stages.get k).lutIn) ↔ s.Settled := by
  refine forall_congr' fun k => ?_
  simp only [advance, clock, Stage.clock, Stage.advance, h.1, hDreq, Quad.get_ofFn]
  exact eq_comm

end QuadChannel

/-! ### How far a wrong entry gets -/

/-- Two stages that differ at most in what comes from table entries, and there only behind the first `depth` registers of
the pipeline, of which the one behind the table is the first. -/
structure Stage.Alike (depth : Nat) (s t : Stage) : Prop where
  lfsr : s.lfsr = t.lfsr
  addr0 : s.addr0 = t.addr0
  sign : s.sign = t.sign
  lutAddrO : s.lutAddrO = t.lutAddrO
  fracD0 : s.fracD0 = t.fracD0
  fracD1 : s.fracD1 = t.fracD1
  fracD2 : s.fracD2 = t.fracD2
  fracD3 : s.fracD3 = t.fracD3
  lutIn : 2 ≤ depth → s.lutIn = t.lutIn
  interp : 3 ≤ depth → s.interp = t.interp
  sampleD0 : 3 ≤ depth → s.sampleD0 = t.sampleD0
  qv : 4 ≤ depth → s.qv = t.qv
  yt : 5 ≤ depth → s.yt = t.yt
  yO : 6 ≤ depth → s.yO = t.yO

theorem Stage.Alike.advance {depth : Nat} {s t : Stage} (h : s.Alike depth t) (accI : BitVec 43)
    {dataS dataT : BitVec 36} (hData : 1 ≤ depth → dataS = dataT) :
    (s.advance accI dataS).Alike (depth + 1) (t.advance accI dataT) := by
  have hDither : s.ditherIn = t.ditherIn := by rw [ditherIn, ditherIn, h.lfsr]
  constructor
  case lfsr => simp only [Stage.advance, lfsrNext, h.lfsr]
  case addr0 => rfl
  case sign => simp only [Stage.advance, h.sign]
  case lutAddrO => exact h.addr0
  case fracD0 => rfl
  case fracD1 => exact h.fracD0
  case fracD2 => exact h.fracD1
  case fracD3 => exact h.fracD2
  case lutIn => exact fun hDepth => hData (by omega)
  case interp =>
    intro hDepth
    simp only [Stage.advance, interpMul, h.lutIn (by omega), h.fracD3]
  case sampleD0 =>
    intro hDepth
    simp only [Stage.advance, h.lutIn (by omega)]
  case qv =>
    intro hDepth
    simp only [Stage.advance, h.interp (by omega), h.sampleD0 (by omega), hDither]
  case yt =>
    intro hDepth
    simp only [Stage.advance, ytNext, h.qv (by omega), h.sign]
  case yO =>
    intro hDepth
    simp only [Stage.advance, yNext, h.yt (by omega)]

namespace QuadChannel

structure Alike (depth : Nat) (s t : QuadChannel) : Prop where
  tune : s.tune = t.tune
  acc : s.acc = t.acc
  accD0 : s.accD0 = t.accD0
  accF : s.accF = t.accF
  stages : ∀ k, (s.stages.get k).Alike depth (t.stages.get k)
  lutData : 1 ≤ depth → s.lutData = t.lutData

variable {depth less lead : Nat}

theorem Alike.refl (depth : Nat) (s : QuadChannel) : Alike depth s s := by
  constructor
  case stages => exact fun k => by constructor <;> intros <;> rfl
  all_goals intros; rfl

theorem Alike.mono (h : Alike depth s t) (hLess : less ≤ depth) : Alike less s t := by
  refine ⟨h.tune, h.acc, h.accD0, h.accF, fun k => ?_, fun hOne => h.lutData (by omega)⟩
  have hStage := h.stages k
  exact { hStage with
    lutIn := fun hDepth => hStage.lutIn (by omega)
    interp := fun hDepth => hStage.interp (by omega)
    sampleD0 := fun hDepth => hStage.sampleD0 (by omega)
    qv := fun hDepth => hStage.qv (by omega)
    yt := fun hDepth => hStage.yt (by omega)
    yO := fun hDepth => hStage.yO (by omega) }

theorem Alike.advance (h : Alike depth s t) : Alike (depth + 1) s.advance t.advance := by
  constructor
  case tune => exact h.tune
  case acc => simp only [QuadChannel.advance, clock, h.acc, h.tune]
  case accD0 => simp only [QuadChannel.advance, clock, h.acc, h.accD0]
  case accF => simp only [QuadChannel.advance, clock, h.accD0, h.accF, h.tune]
  case stages =>
    intro k
    have hData : 1 ≤ depth → s.lutData.get k = t.lutData.get k := fun hDepth => by rw [h.lutData hDepth]
    have hNext := (h.stages k).advance (s.accF.get k) hData
    simp only [QuadChannel.advance, clock, Quad.get_ofFn, ← h.accF]
    exact hNext
  case lutData =>
    intro _
    apply Quad.ext_get
    intro k
    simp only [QuadChannel.advance, clock, Quad.get_ofFn, (h.stages k).lutAddrO]

theorem Alike.stall (h : Alike 0 s t) (hKeeps : i.Keeps s.tune) (hDreq : i.dreq = false) : Alike 0 (s.clock i) t := by
  rw [clock_of_stall hKeeps hDreq]
  exact ⟨h.tune, h.acc, h.accD0, h.accF, h.stages, by omega⟩

/-- A run beside as many clocks with `dreq_i`: what has come in since the lead is the same. -/
theorem run_alike (hKeeps : ∀ j ∈ inputs, j.Keeps s.tune) {count : Nat}
    (hSettled : Along (watch clock countRequests) (SettledFrom lead) inputs (count, s)) (h : Alike (count - lead) s t) :
    Alike (count + requests inputs - lead) (run clock inputs s) (advance^[requests inputs] t) := by
  induction inputs generalizing s t count with
  | nil => exact h
  | cons i rest ih =>
    obtain ⟨hFirst, hRest⟩ := hSettled
    have hKeep := hKeeps i List.mem_cons_self
    have hKeepRest : ∀ j ∈ rest, j.Keeps (s.clock i).tune := by
      rw [tune_clock hKeep]
      exact fun j hj => hKeeps j (List.mem_cons_of_mem i hj)
    rw [run_cons]
    cases hDreq : i.dreq with
    | true =>
      have hCount : requests (i :: rest) = requests rest + 1 := List.countP_cons_of_pos hDreq
      have hNext : Alike (count + 1 - lead) (s.clock i) t.advance := by
        rw [clock_of_dreq hKeep hDreq]
        exact h.advance.mono (by omega)
      simp only [watch, countRequests, hDreq, if_true] at hRest
      rw [hCount, Function.iterate_succ_apply, show count + (requests rest + 1) = count + 1 + requests rest by omega]
      exact ih hKeepRest hRest hNext
    | false =>
      have hCount : requests (i :: rest) = requests rest := List.countP_cons_of_neg (by simp [hDreq])
      have hNext : Alike (count - lead) (s.clock i) t := by
        rcases Nat.lt_or_ge count lead with hEarly | hLate
        · rw [Nat.sub_eq_zero_of_le (Nat.le_of_lt hEarly)] at h ⊢
          exact h.stall hKeep hDreq
        · rw [clock_of_settled hKeep hDreq (hFirst hDreq hLate)]
          exact h
      simp only [watch, countRequests, hDreq, Bool.false_eq_true, if_false] at hRest
      rw [hCount]
      exact ih hKeepRest hRest hNext

/-- In two runs with settled stalls after the lead, the channel shows the same whenever as many clocks had `dreq_i` and
six of them came after the lead. -/
theorem stalls_delay (hFirst : ∀ j ∈ first, j.Keeps s.tune) (hSecond : ∀ j ∈ second, j.Keeps s.tune)
    (hSettledFirst : Along (watch clock countRequests) (SettledFrom lead) first (0, s))
    (hSettledSecond : Along (watch clock countRequests) (SettledFrom lead) second (0, s)) {n m : Nat}
    (hSame : requests (first.take n) = requests (second.take m)) (hFilled : lead + 6 ≤ requests (first.take n)) :
    (stateAt clock first s n).y = (stateAt clock second s m).y := by
  have hDelayed : ∀ (inputs : List QuadIn) (n : Nat), (∀ j ∈ inputs, j.Keeps s.tune) →
      Along (watch clock countRequests) (SettledFrom lead) inputs (0, s) → lead + 6 ≤ requests (inputs.take n) →
        (stateAt clock inputs s n).y = (advance^[requests (inputs.take n)] s).y := by
    intro inputs n hKeeps hSettled hEnough
    rw [← List.take_append_drop n inputs] at hSettled
    have hAlike := run_alike (fun j hj => hKeeps j (List.mem_of_mem_take hj)) (along_append.mp hSettled).1 (Alike.refl _ s)
    apply Quad.ext_get
    intro k
    rw [y, y, Quad.get_ofFn, Quad.get_ofFn, stateAt]
    exact (hAlike.stages k).yO (by omega)
  rw [hDelayed first n hFirst hSettledFirst hFilled, hSame]
  exact (hDelayed second m hSecond hSettledSecond (by omega)).symm

/-- A stall before the pipeline is filled, and one at a standstill. -/
theorem stalls_delay_standstill :
    let stage : Stage := ⟨1, 5, 0, 7, 9, 0, 0, 0, 0, 0, 0, 0, 0, 0⟩
    let s : QuadChannel := ⟨0, 0, 0, ⟨0, 0, 0, 0⟩, 0, ⟨stage, stage, stage, stage⟩, ⟨0, 0, 0, 0⟩⟩
    let go : QuadIn := ⟨true, false, false, true, 0, 0⟩
    let stall : QuadIn := ⟨true, false, true, false, 0, 0⟩
    (stateAt clock ([go, stall] ++ List.replicate 8 go ++ [stall, go]) s 12).y = (stateAt clock (List.replicate 10 go) s 10).y := by
  intro stage s go stall
  have hFirst : ∀ j ∈ [go, stall] ++ List.replicate 8 go ++ [stall, go], j.Keeps s.tune := by decide
  have hSecond : ∀ j ∈ List.replicate 10 go, j.Keeps s.tune := by decide
  have hSettled : Along (watch clock countRequests) (SettledFrom 4) ([go, stall] ++ List.replicate 8 go ++ [stall, go]) (0, s) := by
    decide +kernel
  exact stalls_delay hFirst hSecond hSettled (by decide +kernel) rfl (by decide)

/-- A stall after fourteen samples of a filled pipeline, five more samples, and the output is another one. -/
theorem stall_skips :
    let stage : Stage := ⟨1, 0, 0, 0, 0, 0, 0, 0, 0, 0, 0, 0, 0, 0⟩
    let zero : QuadChannel := ⟨0, 0, 0, ⟨0, 0, 0, 0⟩, 0, ⟨stage, stage, stage, stage⟩, ⟨0, 0, 0, 0⟩⟩
    let s := run clock [⟨false, false, false, false, 0, 0⟩, ⟨true, false, true, false, 0, .twoPow 43 38⟩] zero
    let go : QuadIn := ⟨true, false, false, true, 0, 0⟩
    let stall : QuadIn := ⟨true, false, false, false, 0, 0⟩
    let plain := List.replicate 19 go
    let stalled := List.replicate 14 go ++ stall :: List.replicate 5 go
    (run clock plain s).y.c0 = 408 ∧ (run clock stalled s).y.c0 = 860 ∧
      ¬ ∀ (s : QuadChannel) (first second : List QuadIn), (∀ j ∈ first, j.Keeps s.tune) → (∀ j ∈ second, j.Keeps s.tune) →
        12 ≤ requests first → requests first = requests second → (run clock first s).y = (run clock second s).y := by
  intro stage zero s go stall plain stalled
  have hPlain : (run clock plain s).y.c0 = 408 := by decide +kernel
  have hStalled : (run clock stalled s).y.c0 = 860 := by decide +kernel
  refine ⟨hPlain, hStalled, ?_⟩
  intro hAlways
  have hSame := hAlways s plain stalled (by decide +kernel) (by decide +kernel) (by decide) rfl
  rw [hSame, hStalled] at hPlain
  exact absurd hPlain (by decide)

end QuadChannel

end WrRfDemo.Synth

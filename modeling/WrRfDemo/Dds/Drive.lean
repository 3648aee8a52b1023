import WrRfDemo.Dds.DrivePath

/-! # Samples that come well ahead of their time

The comparator's verdict on a sample is read before the adder has seen the sample, and its
`a_great_o`, up for timestamps still ahead, is taken for a miss. So the path works when no
sample is late and nothing ahead of the WR time is left in the pipeline: then the flag is
never up, and every sample waits for its time and is applied.
-/

namespace WrRfDemo.Dds

open Clocked Timing

namespace DrivePath

/-- The sum that enters the adder. -/
def adjustedRef (delay : BitVec 16) (s : DrivePath) : Stamp 32 28 :=
  TsAdder.sumOf refClkRate
    (⟨true, false, true, ⟨s.ref.tai, s.ref.cycles⟩, 0, ⟨0, delay.setWidth 28⟩, 0⟩ : TsAdderIn 2 28 32)

/-- The adjusted timestamps between the FIFO and the comparator. -/
def inFlight (delay : BitVec 16) (s : DrivePath) : List (Stamp 32 28) :=
  [s.adj, s.adder.result2 refClkRate, s.adder.result1 refClkRate, s.adder.result0 refClkRate,
    s.adjustedRef delay]

end DrivePath

namespace Session

variable (delay : BitVec 16) (i : SessionIn) (s : Session)

/-- Nothing that is left in the pipeline is ahead of the WR time. -/
def Behind (delay : BitVec 16) (s : Session) : Prop :=
  (∀ v ∈ s.path.inFlight delay, v.Earlier (tickStamp 32 (s.now - 1))) ∧ s.path.compare.aGreatNext = false

instance : Decidable (Behind delay s) := inferInstanceAs (Decidable (_ ∧ _))

/-- The sample about to be popped is at least four ticks ahead, in seconds that do not wrap. -/
def Timely (delay : BitVec 16) (s : Session) (e : Entry) : Prop :=
  e.cycles.toNat < 2 ^ 27 ∧ e.due delay / refClkRate < 2 ^ 32 ∧ s.now + 4 ≤ e.due delay

instance (e : Entry) : Decidable (Timely delay s e) := inferInstanceAs (Decidable (_ ∧ _))

/-- Each sample is timely when it is read, and at the first one of the session the pipeline
holds nothing ahead of the WR time. -/
def InTime (delay : BitVec 16) (_ : SessionIn) (p : DriveLog × Session) : Prop :=
  p.2.now / refClkRate < 2 ^ 32 ∧ (p.2.path.state = .readSample →
    p.2.Timely delay (unpack (p.2.path.fifo.headD p.2.path.fifoOut)) ∧
      (p.1.verdicts = [] → p.2.Behind delay))

instance (p : DriveLog × Session) : Decidable (InTime delay i p) := inferInstanceAs (Decidable (_ ∧ (_ → _)))

/-! ### One step of the pipeline -/

theorem tai_low (tick : Nat) : field 0 32 (tickStamp 40 tick).tai = (tickStamp 32 tick).tai := by
  apply BitVec.eq_of_toNat_eq
  simp [field, tickStamp]

@[simp] theorem now_step : (s.step delay i).now = s.now + 1 := rfl

@[simp] theorem tmD0_step : (s.step delay i).path.tmD0 = tickStamp 32 s.now := by
  simp only [step, DrivePath.clock, driveIn, tai_low]
  rfl

@[simp] theorem adj_step : (s.step delay i).path.adj = s.path.adder.result2 refClkRate := by
  rw [DrivePath.adj]
  exact TsAdder.q_clock refClkRate rfl

@[simp] theorem result2_step :
    (s.step delay i).path.adder.result2 refClkRate = s.path.adder.result1 refClkRate :=
  TsAdder.result2_clock refClkRate rfl

@[simp] theorem result1_step :
    (s.step delay i).path.adder.result1 refClkRate = s.path.adder.result0 refClkRate :=
  TsAdder.result1_clock refClkRate rfl

@[simp] theorem result0_step :
    (s.step delay i).path.adder.result0 refClkRate = s.path.adjustedRef delay :=
  TsAdder.result0_clock refClkRate rfl rfl

@[simp] theorem equalO_step : (s.step delay i).path.compare.equalO = s.path.compare.equalNext :=
  TsCompare.equalO_clock rfl

@[simp] theorem aGreatO_step : (s.step delay i).path.compare.aGreatO = s.path.compare.aGreatNext :=
  TsCompare.aGreatO_clock rfl

@[simp] theorem equalNext_step :
    (s.step delay i).path.compare.equalNext = decide (s.path.adj = s.path.tmD0) :=
  TsCompare.equalNext_clock rfl

@[simp] theorem aGreatNext_step :
    (s.step delay i).path.compare.aGreatNext = decide (s.path.tmD0.Earlier s.path.adj) :=
  TsCompare.aGreatNext_clock rfl

@[simp] theorem stage1_step : (s.step delay i).path.compare.stage1 = s.path.compareEnable := rfl

@[simp] theorem validO_step : (s.step delay i).path.compare.validO = s.path.compare.stage1 := rfl

theorem fifoOut_step : (s.step delay i).path.fifoOut =
    if s.path.fifoRd then s.path.fifo.headD s.path.fifoOut else s.path.fifoOut := rfl

end Session

theorem adjustedRef_eq (delay : BitVec 16) (s : DrivePath) (h : s.ref.cycles.toNat < 2 ^ 27) :
    s.adjustedRef delay = tickStamp 32 (s.ref.due delay) := by
  have hDelay : (delay.setWidth 28).toNat = delay.toNat := by
    rw [BitVec.toNat_setWidth]
    exact Nat.mod_eq_of_lt (by omega)
  have hRate : refClkRate = 125000000 := rfl
  rw [DrivePath.adjustedRef, sumOf_eq_tickStamp _ ⟨rfl, rfl⟩ h (by simp only [hDelay]; omega)
    (by simp only [hDelay]; omega)]
  simp [Entry.due, hDelay]

namespace Session

variable {delay : BitVec 16} {i : SessionIn} {s : Session}

/-- The delayed time base follows the WR time. -/
structure OnTime (s : Session) : Prop where
  started : 0 < s.now
  tmD0 : s.path.tmD0 = tickStamp 32 (s.now - 1)

theorem onTime_step : (s.step delay i).OnTime := ⟨Nat.succ_pos _, tmD0_step delay i s⟩

theorem earlier_later {v : Stamp 32 28} (hOn : s.OnTime) (hWrap : s.now / refClkRate < 2 ^ 32)
    (h : v.Earlier (tickStamp 32 (s.now - 1))) : v.Earlier (tickStamp 32 s.now) :=
  h.trans (earlier_tickStamp (Nat.sub_lt hOn.started (by decide)) hWrap)

theorem Behind.stages (h : s.Behind delay) (hOn : s.OnTime) (hWrap : s.now / refClkRate < 2 ^ 32) :
    (s.step delay i).path.compare.aGreatNext = false ∧ (s.step delay i).path.compare.equalNext = false ∧
      (s.step delay i).path.compare.aGreatO = false ∧
      ∀ v ∈ [(s.step delay i).path.adj, (s.step delay i).path.adder.result2 refClkRate,
        (s.step delay i).path.adder.result1 refClkRate, (s.step delay i).path.adder.result0 refClkRate],
        v.Earlier (tickStamp 32 s.now) := by
  obtain ⟨hFlight, hGreat⟩ := h
  have hAdj : s.path.adj.Earlier s.path.tmD0 := by
    rw [hOn.tmD0]
    exact hFlight _ (by simp [DrivePath.inFlight])
  refine ⟨by simp [hAdj.asymm], by simp [hAdj.ne], by simp [hGreat], ?_⟩
  intro v hv
  simp only [adj_step, result2_step, result1_step, result0_step] at hv
  exact earlier_later hOn hWrap (hFlight v (List.mem_cons_of_mem _ hv))

theorem Behind.step (h : s.Behind delay) (hOn : s.OnTime) (hWrap : s.now / refClkRate < 2 ^ 32)
    (hRd : s.path.fifoRd = false) : (s.step delay i).Behind delay := by
  obtain ⟨hGreat, -, -, hStages⟩ := h.stages (i := i) hOn hWrap
  refine ⟨fun v hv => ?_, hGreat⟩
  have hSame : (s.step delay i).path.adjustedRef delay = s.path.adjustedRef delay := by
    simp [DrivePath.adjustedRef, DrivePath.ref, fifoOut_step, hRd]
  rw [DrivePath.inFlight, hSame] at hv
  simp only [now_step, Nat.add_sub_cancel]
  have hCases : v ∈ [(s.step delay i).path.adj, (s.step delay i).path.adder.result2 refClkRate,
      (s.step delay i).path.adder.result1 refClkRate, (s.step delay i).path.adder.result0 refClkRate] ∨
      v = s.path.adjustedRef delay := by simpa [or_assoc] using hv
  rcases hCases with hStage | rfl
  · exact hStages v hStage
  · exact earlier_later hOn hWrap (h.1 _ (by simp [DrivePath.inFlight]))

def dueTick (delay : BitVec 16) (s : Session) : Nat := s.path.ref.due delay

/-- A stage that the sample in hand reaches `after` cycles from its reading, `k` cycles after it. -/
def Holds (delay : BitVec 16) (s : Session) (after k : Nat) (v : Stamp 32 28) : Prop :=
  if after ≤ k then v = tickStamp 32 (s.dueTick delay) else v.Earlier (tickStamp 32 (s.now - 1))

/-- The sample in hand `k` cycles after it was read. -/
structure InHand (delay : BitVec 16) (k : Nat) (s : Session) : Prop where
  fifoRd : s.path.fifoRd = false
  onTime : s.OnTime
  wellFormed : s.path.ref.cycles.toNat < 2 ^ 27
  noWrap : s.dueTick delay / refClkRate < 2 ^ 32
  read : 1 ≤ k
  ahead : s.now + 4 ≤ s.dueTick delay + k
  notLate : s.now ≤ s.dueTick delay + triggerLatency
  result0 : s.Holds delay 2 k (s.path.adder.result0 refClkRate)
  result1 : s.Holds delay 3 k (s.path.adder.result1 refClkRate)
  result2 : s.Holds delay 4 k (s.path.adder.result2 refClkRate)
  adj : s.Holds delay 5 k s.path.adj
  equalNext : s.path.compare.equalNext = decide (s.now = s.dueTick delay + 2)
  equalO : 2 ≤ k → s.path.compare.equalO = decide (s.now = s.dueTick delay + triggerLatency)
  aGreatNext : k ≤ 2 → s.path.compare.aGreatNext = false
  aGreatO : k ≤ 3 → s.path.compare.aGreatO = false

theorem ref_step (delay : BitVec 16) (hRd : s.path.fifoRd = false) : (s.step delay i).path.ref = s.path.ref := by
  simp [DrivePath.ref, fifoOut_step, hRd]

theorem Holds.step {after k : Nat} {v : Stamp 32 28} (h : s.Holds delay after k v)
    (hRd : s.path.fifoRd = false) (hOn : s.OnTime) (hWrap : s.now / refClkRate < 2 ^ 32) :
    (s.step delay i).Holds delay (after + 1) (k + 1) v := by
  unfold Holds at h ⊢
  simp only [dueTick, ref_step _ hRd, now_step, Nat.add_sub_cancel, Nat.add_le_add_iff_right] at h ⊢
  split_ifs at h ⊢
  · exact h
  · exact earlier_later hOn hWrap h

/-- The sample moves on through the pipeline until its time is seen to have come. -/
theorem InHand.step {k : Nat} (h : s.InHand delay k) (hWrap : s.now / refClkRate < 2 ^ 32)
    (hRd : (s.step delay i).path.fifoRd = false) (hWait : s.now ≠ s.dueTick delay + triggerLatency) :
    (s.step delay i).InHand delay (k + 1) := by
  have hRef := ref_step delay (i := i) h.fifoRd
  have hDue : (s.step delay i).dueTick delay = s.dueTick delay := by simp only [dueTick, hRef]
  have hAhead := h.ahead
  have hNotLate := h.notLate
  have hStarted := h.onTime.started
  have hMatch : decide (s.path.adj = s.path.tmD0) = decide (s.now + 1 = s.dueTick delay + 2) := by
    rw [decide_eq_decide, h.onTime.tmD0]
    have hAdj := h.adj
    unfold Holds at hAdj
    split_ifs at hAdj with hThere
    · rw [hAdj]
      constructor
      · intro hEq
        have hBefore : (s.now - 1) / refClkRate < 2 ^ 32 :=
          Nat.lt_of_le_of_lt (Nat.div_le_div_right (Nat.sub_le _ _)) hWrap
        have := tickStamp_inj h.noWrap hBefore hEq
        omega
      · intro hEq
        rw [show s.now - 1 = s.dueTick delay by omega]
    · constructor
      · intro hEq
        exact absurd hEq hAdj.ne
      · omega
  constructor
  · exact hRd
  · exact onTime_step
  · rw [hRef]
    exact h.wellFormed
  · rw [hDue]
    exact h.noWrap
  · omega
  · rw [hDue, now_step]
    omega
  · rw [hDue, now_step]
    omega
  · rw [result0_step, adjustedRef_eq delay s.path h.wellFormed, Holds, if_pos (by have := h.read; omega), hDue]
    rfl
  · rw [result1_step]
    exact h.result0.step h.fifoRd h.onTime hWrap
  · rw [result2_step]
    exact h.result1.step h.fifoRd h.onTime hWrap
  · rw [adj_step]
    exact h.result2.step h.fifoRd h.onTime hWrap
  · rw [equalNext_step, hDue, now_step]
    exact hMatch
  · intro _
    rw [equalO_step, hDue, now_step, h.equalNext, decide_eq_decide, triggerLatency]
    omega
  · intro hk
    have hAdj := h.adj
    rw [Holds, if_neg (by omega), ← h.onTime.tmD0] at hAdj
    simp [hAdj.asymm]
  · intro hk
    rw [aGreatO_step]
    exact h.aGreatNext (by omega)

theorem InHand.of_read (hRd : s.path.fifoRd = true) (hNext : (s.step delay i).path.fifoRd = false)
    (hTimely : s.Timely delay (unpack (s.path.fifo.headD s.path.fifoOut)))
    (hBehind : s.Behind delay) (hOn : s.OnTime) (hWrap : s.now / refClkRate < 2 ^ 32) :
    (s.step delay i).InHand delay 1 := by
  obtain ⟨hGreat, hEqual, hGreatO, hStages⟩ := hBehind.stages (i := i) hOn hWrap
  obtain ⟨hCycles, hNoWrap, hAhead⟩ := hTimely
  have hRef : (s.step delay i).path.ref = unpack (s.path.fifo.headD s.path.fifoOut) := by
    simp only [DrivePath.ref, fifoOut_step, hRd, if_true]
  have hDue : (s.step delay i).dueTick delay = (unpack (s.path.fifo.headD s.path.fifoOut)).due delay := by
    simp only [dueTick, hRef]
  have hHolds : ∀ after v, 1 < after → v.Earlier (tickStamp 32 s.now) →
      (s.step delay i).Holds delay after 1 v := by
    intro after v hAfter hv
    rw [Holds, if_neg (by omega), now_step, Nat.add_sub_cancel]
    exact hv
  constructor
  · exact hNext
  · exact onTime_step
  · rwa [hRef]
  · rwa [hDue]
  · exact Nat.le_refl 1
  · rw [hDue, now_step]
    omega
  · rw [hDue, now_step, triggerLatency]
    omega
  · exact hHolds 2 _ (by decide) (hStages _ (by simp))
  · exact hHolds 3 _ (by decide) (hStages _ (by simp))
  · exact hHolds 4 _ (by decide) (hStages _ (by simp))
  · exact hHolds 5 _ (by decide) (hStages _ (by simp))
  · rw [hEqual, hDue, now_step, eq_comm, decide_eq_false_iff_not]
    omega
  · omega
  · exact fun _ => hGreat
  · exact fun _ => hGreatO

theorem InHand.behind_of_hit {k : Nat} (h : s.InHand delay k) (hWrap : s.now / refClkRate < 2 ^ 32)
    (hHit : s.now = s.dueTick delay + triggerLatency) : (s.step delay i).Behind delay := by
  have hAhead := h.ahead
  have hLatency : triggerLatency = 3 := rfl
  have hLate : (tickStamp 32 (s.dueTick delay)).Earlier (tickStamp 32 s.now) :=
    earlier_tickStamp (by omega) hWrap
  have hAll : ∀ after v, after ≤ 5 → s.Holds delay after k v → v = tickStamp 32 (s.dueTick delay) := by
    intro after v hAfter hv
    rwa [Holds, if_pos (by omega)] at hv
  have hAdj := hAll 5 _ (by decide) h.adj
  have hSame : (s.step delay i).path.adjustedRef delay = tickStamp 32 (s.dueTick delay) := by
    rw [adjustedRef_eq]
    · rw [ref_step _ h.fifoRd]
      rfl
    · rw [ref_step _ h.fifoRd]
      exact h.wellFormed
  constructor
  · intro v hv
    rw [now_step, Nat.add_sub_cancel]
    have hDue : v = tickStamp 32 (s.dueTick delay) := by
      simp only [DrivePath.inFlight, adj_step, result2_step, result1_step, result0_step, hSame,
        hAll 4 _ (by decide) h.result2, hAll 3 _ (by decide) h.result1, hAll 2 _ (by decide) h.result0,
        adjustedRef_eq delay s.path h.wellFormed, List.mem_cons, List.not_mem_nil, or_false] at hv
      rcases hv with hv | hv | hv | hv | hv <;> exact hv
    rw [hDue]
    exact hLate
  · rw [aGreatNext_step, hAdj, h.onTime.tmD0, decide_eq_false_iff_not]
    exact (earlier_tickStamp (by omega)
      (Nat.lt_of_le_of_lt (Nat.div_le_div_right (Nat.sub_le _ _)) hWrap)).asymm

end Session

end WrRfDemo.Dds

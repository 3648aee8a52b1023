import WrRfDemo.Registers.Handshake

/-! # Registers between the two clocks

A toggle of two system cycles is seen by three flip-flops of the reference clock, and its rising edge copies the
register. The reference clock has to tick between any two edges of the system clock; then the copy is made before
the acknowledge.
-/

namespace WrRfDemo.Registers

open Clocked

/-- `swb_s0` to `swb_s2` or `lwb_s0` to `lwb_s2`, with the register that they load. -/
structure Crossing (n : Nat) where
  s0 : Bool
  s1 : Bool
  s2 : Bool
  copy : BitVec n
deriving DecidableEq

namespace Crossing

variable {n : Nat}

def reset (n : Nat) : Crossing n := ⟨false, false, false, 0⟩

def clock (toggle : Bool) (source : BitVec n) (c : Crossing n) : Crossing n :=
  ⟨toggle, c.s0, c.s1, if c.s1 && !c.s2 then source else c.copy⟩

/-- The steps of a transfer, one for each system cycle from the one that raises the toggle on, the reference clock
having ticked `refs` times in the present one; `P` is what is wanted of the copy. -/
def Stage (refs : Nat) (c : Crossing n) (up delay : Bool) (P : BitVec n → Prop) : Nat → Prop
  | 0 => (up = true ∧ delay = true) ∧ (c.s1 = true → c.s0 = true) ∧ (c.s2 = true → c.s1 = true ∧ P c.copy) ∧
    (0 < refs → c.s0 = true)
  | 1 => (up = true ∧ delay = false) ∧ c.s0 = true ∧ (c.s2 = true → c.s1 = true ∧ P c.copy) ∧ (0 < refs → c.s1 = true)
  | 2 => (up = false ∧ delay = false) ∧ (c.s0 = true → c.s1 = true ∧ (c.s2 = true → P c.copy) ∧ refs = 0) ∧
    (c.s0 = false → P c.copy)
  | 3 => (up = false ∧ delay = false) ∧ c.s0 = false ∧ P c.copy ∧ (0 < refs → c.s1 = false)
  | 4 => (up = false ∧ delay = false) ∧ c.s0 = false ∧ c.s1 = false ∧ P c.copy ∧ (0 < refs → c.s2 = false)
  | _ => (up = false ∧ delay = false) ∧ c.s0 = false ∧ c.s1 = false ∧ c.s2 = false ∧ P c.copy

variable {refs stage : Nat} {c : Crossing n} {up delay : Bool} {P Q : BitVec n → Prop} {source : BitVec n}

theorem copy_clock (hCopy : c.s1 = true ∧ c.s2 = true ∨ c.s1 = false → P c.copy) (hSource : P source) :
    P (c.clock up source).copy := by
  rw [clock]
  split_ifs with hLoads
  · exact hSource
  · apply hCopy
    cases hFirst : c.s1 with
    | false => exact .inr rfl
    | true => exact .inl ⟨rfl, by simpa [hFirst] using hLoads⟩

theorem Stage.ref (h : Stage refs c up delay P stage) (hSource : P source) :
    Stage (refs + 1) (c.clock up source) up delay P stage := by
  match stage, h with
  | 0, ⟨⟨hUp, hDelay⟩, hFirst, hSecond, hSeen⟩ =>
    refine ⟨⟨hUp, hDelay⟩, fun _ => hUp, fun hLater => ⟨hFirst hLater, ?_⟩, fun _ => hUp⟩
    refine copy_clock ?_ hSource
    rintro (⟨-, hLast⟩ | hNone)
    · exact (hSecond hLast).2
    · exact absurd (hLater.symm.trans hNone) (by decide)
  | 1, ⟨⟨hUp, hDelay⟩, hFirst, hSecond, hSeen⟩ =>
    refine ⟨⟨hUp, hDelay⟩, hUp, fun hLater => ⟨hFirst, ?_⟩, fun _ => hFirst⟩
    refine copy_clock ?_ hSource
    rintro (⟨-, hLast⟩ | hNone)
    · exact (hSecond hLast).2
    · exact absurd (hLater.symm.trans hNone) (by decide)
  | 2, ⟨⟨hUp, hDelay⟩, hFirst, hDone⟩ =>
    refine ⟨⟨hUp, hDelay⟩, fun hAgain => absurd (hAgain.symm.trans hUp) (by decide), fun _ => ?_⟩
    refine copy_clock ?_ hSource
    cases hZero : c.s0 with
    | false => exact fun _ => hDone hZero
    | true =>
      obtain ⟨hOn, hLoaded, -⟩ := hFirst hZero
      rintro (⟨-, hLast⟩ | hNone)
      · exact hLoaded hLast
      · exact absurd (hOn.symm.trans hNone) (by decide)
  | 3, ⟨⟨hUp, hDelay⟩, hZero, hCopy, hSeen⟩ =>
    exact ⟨⟨hUp, hDelay⟩, hUp, copy_clock (fun _ => hCopy) hSource, fun _ => hZero⟩
  | 4, ⟨⟨hUp, hDelay⟩, hZero, hFirst, hCopy, hSeen⟩ =>
    exact ⟨⟨hUp, hDelay⟩, hUp, hZero, copy_clock (fun _ => hCopy) hSource, fun _ => hFirst⟩
  | _ + 5, ⟨⟨hUp, hDelay⟩, hZero, hFirst, hSecond, hCopy⟩ =>
    exact ⟨⟨hUp, hDelay⟩, hUp, hZero, hFirst, copy_clock (fun _ => hCopy) hSource⟩

/-- A system edge: the toggle follows its delayed copy. -/
theorem Stage.wait (h : Stage refs c up delay P stage) (hRefs : 0 < refs) :
    Stage 0 c delay false P (stage + 1) := by
  match stage, h with
  | 0, ⟨⟨hUp, hDelay⟩, hFirst, hSecond, hSeen⟩ =>
    exact ⟨⟨hDelay, rfl⟩, hSeen hRefs, hSecond, fun hNone => absurd hNone (Nat.lt_irrefl 0)⟩
  | 1, ⟨⟨hUp, hDelay⟩, hFirst, hSecond, hSeen⟩ =>
    exact ⟨⟨hDelay, rfl⟩, fun _ => ⟨hSeen hRefs, fun hLast => (hSecond hLast).2, rfl⟩,
      fun hZero => absurd (hFirst.symm.trans hZero) (by decide)⟩
  | 2, ⟨⟨hUp, hDelay⟩, hFirst, hDone⟩ =>
    have hZero : c.s0 = false := by
      by_contra hOn
      exact Nat.ne_of_gt hRefs (hFirst (by simpa using hOn)).2.2
    exact ⟨⟨hDelay, rfl⟩, hZero, hDone hZero, fun hNone => absurd hNone (Nat.lt_irrefl 0)⟩
  | 3, ⟨⟨hUp, hDelay⟩, hZero, hCopy, hSeen⟩ =>
    exact ⟨⟨hDelay, rfl⟩, hZero, hSeen hRefs, hCopy, fun hNone => absurd hNone (Nat.lt_irrefl 0)⟩
  | 4, ⟨⟨hUp, hDelay⟩, hZero, hFirst, hCopy, hSeen⟩ =>
    exact ⟨⟨hDelay, rfl⟩, hZero, hFirst, hSeen hRefs, hCopy⟩
  | _ + 5, ⟨⟨hUp, hDelay⟩, hZero, hFirst, hSecond, hCopy⟩ =>
    exact ⟨⟨hDelay, rfl⟩, hZero, hFirst, hSecond, hCopy⟩

/-- From the third step on the toggle is down. -/
theorem Stage.down (h : Stage refs c up delay P stage) (hStage : 2 ≤ stage) : up = false ∧ delay = false := by
  match stage, h with
  | 2, h => exact h.1
  | 3, h => exact h.1
  | 4, h => exact h.1
  | _ + 5, h => exact h.1

theorem Stage.copied (h : Stage refs c up delay P stage) (hStage : 3 ≤ stage) : P c.copy := by
  match stage, h with
  | 3, ⟨_, _, hCopy, _⟩ => exact hCopy
  | 4, ⟨_, _, _, hCopy, _⟩ => exact hCopy
  | _ + 5, ⟨_, _, _, _, hCopy⟩ => exact hCopy

theorem Stage.mono (h : Stage refs c up delay P stage) (hWeaker : ∀ v, P v → Q v) : Stage refs c up delay Q stage := by
  match stage, h with
  | 0, ⟨hToggle, hFirst, hSecond, hSeen⟩ =>
    exact ⟨hToggle, hFirst, fun hLast => ⟨(hSecond hLast).1, hWeaker _ (hSecond hLast).2⟩, hSeen⟩
  | 1, ⟨hToggle, hFirst, hSecond, hSeen⟩ =>
    exact ⟨hToggle, hFirst, fun hLast => ⟨(hSecond hLast).1, hWeaker _ (hSecond hLast).2⟩, hSeen⟩
  | 2, ⟨hToggle, hFirst, hDone⟩ =>
    exact ⟨hToggle, fun hZero => ⟨(hFirst hZero).1, fun hLast => hWeaker _ ((hFirst hZero).2.1 hLast), (hFirst hZero).2.2⟩,
      fun hZero => hWeaker _ (hDone hZero)⟩
  | 3, ⟨hToggle, hZero, hCopy, hSeen⟩ => exact ⟨hToggle, hZero, hWeaker _ hCopy, hSeen⟩
  | 4, ⟨hToggle, hZero, hFirst, hCopy, hSeen⟩ => exact ⟨hToggle, hZero, hFirst, hWeaker _ hCopy, hSeen⟩
  | _ + 5, ⟨hToggle, hZero, hFirst, hSecond, hCopy⟩ => exact ⟨hToggle, hZero, hFirst, hSecond, hWeaker _ hCopy⟩

/-- A new transfer, once the flip-flops are down. -/
theorem Stage.start (h : Stage refs c up delay P stage) (hStage : 4 ≤ stage) (hRefs : 0 < refs) (Q : BitVec n → Prop) :
    Stage 0 c true true Q 0 := by
  have hDown : c.s1 = false ∧ c.s2 = false := by
    match stage, h with
    | 4, ⟨_, _, hFirst, _, hSeen⟩ => exact ⟨hFirst, hSeen hRefs⟩
    | _ + 5, ⟨_, _, hFirst, hSecond, _⟩ => exact ⟨hFirst, hSecond⟩
  refine ⟨⟨rfl, rfl⟩, fun hOn => ?_, fun hOn => ?_, fun hNone => absurd hNone (Nat.lt_irrefl 0)⟩
  · exact absurd (hOn.symm.trans hDown.1) (by decide)
  · exact absurd (hOn.symm.trans hDown.2) (by decide)

end Crossing

/-! ### Both clocks -/

structure RegisterBlock where
  slave : WbSlave
  freqHi : Crossing 32
  freqLo : Crossing 32
  gain : Crossing 16
  hitCnt : Crossing 24
  missCnt : Crossing 24

/-- An edge of one clock; the counters are those of the reference clock in its cycle. -/
inductive ClockEvent
  | sys (bus : BusIn) (device : DeviceIn)
  | ref (hitCnt missCnt : BitVec 24)
deriving DecidableEq

namespace RegisterBlock

def reset : RegisterBlock := ⟨.reset, .reset 32, .reset 32, .reset 16, .reset 24, .reset 24⟩

def sysIn (bus : BusIn) (device : DeviceIn) (s : RegisterBlock) : SysIn := ⟨bus, device, s.hitCnt.copy, s.missCnt.copy⟩

def step : ClockEvent → RegisterBlock → RegisterBlock
  | .sys bus device, s => { s with slave := s.slave.clock (s.sysIn bus device) }
  | .ref hitCnt missCnt, s =>
    { s with
      freqHi := s.freqHi.clock s.slave.freqHi.swb (s.slave.bank .freqHi)
      freqLo := s.freqLo.clock s.slave.freqLo.swb (s.slave.bank .freqLo)
      gain := s.gain.clock s.slave.gain.swb (field 0 16 (s.slave.bank .gain))
      hitCnt := s.hitCnt.clock s.slave.hitCnt.lwb hitCnt
      missCnt := s.missCnt.clock s.slave.missCnt.lwb missCnt }

end RegisterBlock

/-- The cycles on the bus; the ticks of the reference clock in the present one; what is read, and the counters that
the reference clock showed since that access began. -/
structure RefLog where
  bus : BusLog
  refs : Nat
  reading : Option Reg
  hitSeen : List (BitVec 24)
  missSeen : List (BitVec 24)

namespace RefLog

def empty : RefLog := ⟨.empty, 0, none, [], []⟩

def see (o : RefLog) : ClockEvent → RegisterBlock → RefLog
  | .sys bus device, s =>
    let i := s.sysIn bus device
    if BusLog.begins bus s.slave then ⟨o.bus.see i s.slave, 0, if bus.we then none else some (Reg.decode bus.adr), [], []⟩
    else { o with bus := o.bus.see i s.slave, refs := 0 }
  | .ref hitCnt missCnt, _ =>
    { o with refs := o.refs + 1, hitSeen := o.hitSeen ++ [hitCnt], missSeen := o.missSeen ++ [missCnt] }

end RefLog

/-- The reference clock is not the slower one. -/
def Paced : ClockEvent → RefLog × RegisterBlock → Prop
  | .sys _ _, p => 0 < p.1.refs
  | .ref _ _, _ => True

instance : ∀ (e : ClockEvent) (p : RefLog × RegisterBlock), Decidable (Paced e p)
  | .sys _ _, p => inferInstanceAs (Decidable (0 < p.1.refs))
  | .ref _ _, _ => .isTrue trivial

/-! ### Registers on their way out -/

/-- The toggle of a register, by the kinds of cycles. -/
structure Toggles (own : Reg) (toggle : WbSlave → Swb) : Prop where
  latency : own.ackBit = 3
  ack : ∀ s, toggle (s.beside s.shift.finish) = toggle s
  wait : ∀ i last s, toggle (s.beside (s.shift.wait i last)) = (toggle s).wait
  access : ∀ i s, toggle (s.beside (s.shift.access i)) = (toggle s).access i.bus own
  idle : ∀ s, toggle (s.beside s.shift) = toggle s

theorem freqHi_toggles : Toggles .freqHi WbSlave.freqHi :=
  ⟨rfl, fun _ => rfl, fun _ _ _ => rfl, fun _ _ => rfl, fun _ => rfl⟩

theorem freqLo_toggles : Toggles .freqLo WbSlave.freqLo :=
  ⟨rfl, fun _ => rfl, fun _ _ _ => rfl, fun _ _ => rfl, fun _ => rfl⟩

theorem gain_toggles : Toggles .gain WbSlave.gain :=
  ⟨rfl, fun _ => rfl, fun _ _ _ => rfl, fun _ _ => rfl, fun _ => rfl⟩

/-- The copy of a register follows its word: far enough by the acknowledge, and done with it between two accesses. -/
def Follows {n : Nat} (refs : Nat) (c : Crossing n) (toggle : Swb) (word : BitVec n) (s : WbSlave) : Prop :=
  ∃ stage, c.Stage refs toggle.swb toggle.delay (· = word) stage ∧ (s.ackInProgress = false → 4 ≤ stage) ∧
    ∀ k ≤ 5, s.ackInProgress = true → s.ackSreg = BitVec.twoPow 10 k → 3 ≤ stage + k

variable {n refs : Nat} {c : Crossing n} {own : Reg} {toggle : WbSlave → Swb} {value : BitVec 32 → BitVec n} {s : WbSlave}

theorem Follows.ref {lines : Swb} {word : BitVec n} (h : Follows refs c lines word s) :
    Follows (refs + 1) (c.clock lines.swb word) lines word s := by
  obtain ⟨stage, hStage, hPhase⟩ := h
  exact ⟨stage, hStage.ref rfl, hPhase⟩

theorem twoPow_inj {j k : Nat} (hj : j ≤ 5) (hk : k ≤ 5) (h : BitVec.twoPow 10 j = BitVec.twoPow 10 k) : j = k := by
  have hBit := congrArg (fun w => w.getLsbD k) h
  simpa [getLsbD_twoPow hj, getLsbD_twoPow hk] using hBit

theorem access_granted {i : SysIn} (hSreg : s.ackSreg = 0) (hGranted : s.granted (Reg.decode i.bus.adr) = true) :
    (s.beside (s.shift.access i)).ackInProgress = true ∧
      (s.beside (s.shift.access i)).ackSreg = BitVec.twoPow 10 (Reg.decode i.bus.adr).ackBit := by
  refine ⟨hGranted, ?_⟩
  change (if s.granted (Reg.decode i.bus.adr) = true then
    s.ackSreg >>> 1 ||| BitVec.twoPow 10 (Reg.decode i.bus.adr).ackBit else _) = _
  rw [if_pos hGranted, hSreg]
  exact BitVec.zero_or

theorem wait_bit {i : SysIn} {last : Bool} {j k : Nat} (hk : k + 1 ≤ 5) (hSreg : s.ackSreg = BitVec.twoPow 10 (k + 1))
    (hj : j ≤ 5) (hNext : (s.beside (s.shift.wait i last)).ackSreg = BitVec.twoPow 10 j) : k = j := by
  have hShift : s.ackSreg >>> 1 = BitVec.twoPow 10 j := hNext
  rw [hSreg, twoPow_shift (by omega)] at hShift
  exact twoPow_inj (by omega) hj hShift

/-- Between two accesses, a system edge that leaves the register alone. -/
theorem Follows.still (hIdle : s.ackInProgress = false) (hRefs : 0 < refs)
    (h : Follows refs c (toggle s) (value (s.bank own)) s) {s' : WbSlave} (hToggle : toggle s' = toggle s)
    (hWord : s'.bank own = s.bank own) : Follows 0 c (toggle s') (value (s'.bank own)) s' := by
  obtain ⟨stage, hStage, hIdlePhase, -⟩ := h
  have hLate := hIdlePhase hIdle
  obtain ⟨hUp, hDelay⟩ := hStage.down (by omega)
  have hNext := hStage.wait hRefs
  rw [hDelay] at hNext
  rw [hToggle, hWord]
  refine ⟨stage + 1, ?_, fun _ => by omega, fun k _ _ _ => by omega⟩
  rw [hUp, hDelay]
  exact hNext

theorem Follows.access (hToggles : Toggles own toggle) (hIdle : s.ackInProgress = false) (hSreg : s.ackSreg = 0)
    (hRefs : 0 < refs) (h : Follows refs c (toggle s) (value (s.bank own)) s) (i : SysIn) :
    Follows 0 c (toggle (s.beside (s.shift.access i))) (value ((s.beside (s.shift.access i)).bank own))
      (s.beside (s.shift.access i)) := by
  have hToggle := hToggles.access i s
  have hBank : (s.beside (s.shift.access i)).bank own = if i.bus.we then
      Function.update s.bank (Reg.decode i.bus.adr) (i.bus.dat &&& (Reg.decode i.bus.adr).stored) own else s.bank own := by
    rw [← apply_ite (fun bank : Reg → BitVec 32 => bank own)]
    rfl
  by_cases hOwn : i.bus.we ∧ Reg.decode i.bus.adr = own
  · obtain ⟨stage, hStage, hIdlePhase, -⟩ := h
    have hNotFifo : Reg.decode i.bus.adr ≠ .pdFifoR0 := by
      intro hFifo
      have hLatency := hToggles.latency
      rw [← hOwn.2, hFifo] at hLatency
      cases hLatency
    obtain ⟨hBusy, hBit⟩ := access_granted hSreg (i := i) (WbSlave.granted_of_ne hNotFifo s)
    rw [hOwn.2, hToggles.latency] at hBit
    rw [hToggle, Swb.access, if_pos hOwn]
    refine ⟨0, hStage.start (hIdlePhase hIdle) hRefs _, fun hNone => ?_, fun k hk _ hNext => ?_⟩
    · exact absurd (hBusy.symm.trans hNone) (by decide)
    · have hSame := twoPow_inj (by omega) hk (hBit.symm.trans hNext)
      omega
  · rw [Swb.access, if_neg hOwn] at hToggle
    apply h.still hIdle hRefs hToggle
    rw [hBank]
    split_ifs with hWrite
    · exact Function.update_of_ne (fun hSame => hOwn ⟨hWrite, hSame.symm⟩) _ _
    · rfl

theorem Follows.sys (value : BitVec 32 → BitVec n) (hToggles : Toggles own toggle) (hTimed : Timed s) (hRefs : 0 < refs)
    (h : Follows refs c (toggle s) (value (s.bank own)) s) (i : SysIn) :
    Follows 0 c (toggle (s.clock i)) (value ((s.clock i).bank own)) (s.clock i) := by
  rcases hTimed with ⟨hIdle, hSreg⟩ | ⟨hBusy, k, hk, hSreg⟩
  · cases hStrobe : i.bus.cyc && i.bus.stb with
    | true =>
      rw [WbSlave.clock_access hIdle hStrobe]
      exact h.access hToggles hIdle hSreg hRefs i
    | false =>
      rw [WbSlave.clock_idle hIdle hStrobe]
      exact h.still hIdle hRefs (hToggles.idle s) rfl
  · obtain ⟨stage, hStage, -, hBusyPhase⟩ := h
    have hEnough := hBusyPhase k hk hBusy hSreg
    cases k with
    | zero =>
      have hAck : s.wbAckO = true := by rw [WbSlave.wbAckO, hSreg]; rfl
      have hNotCr : own ≠ .cr := by rintro rfl; cases hToggles.latency
      obtain ⟨hUp, hDelay⟩ := hStage.down (by omega)
      rw [WbSlave.clock_ack hBusy hAck, hToggles.ack]
      refine ⟨stage + 1, ?_, fun _ => by omega, fun _ _ hOn => absurd hOn Bool.false_ne_true⟩
      have hNext := hStage.wait hRefs
      rw [hDelay] at hNext
      rw [hUp, hDelay]
      refine hNext.mono fun v hv => hv.trans (congrArg value ?_)
      exact (Function.update_of_ne hNotCr _ _).symm
    | succ k =>
      have hAck : s.wbAckO = false := by rw [WbSlave.wbAckO, hSreg, getLsbD_twoPow hk]; rfl
      rw [WbSlave.clock_wait hBusy hAck, hToggles.wait]
      refine ⟨stage + 1, hStage.wait hRefs, fun hIdle => ?_, fun j hj _ hNext => ?_⟩
      · exact absurd (hBusy.symm.trans hIdle) (by decide)
      · have hSame := wait_bit hk hSreg hj hNext
        omega

/-! ### Counters on their way in -/

/-- The toggle of a counter, by the kinds of cycles, and where the last cycle before the acknowledge puts it;
`other` is the counter that the same cycle might put there. -/
structure Counts (own : Reg) (lwb other : WbSlave → Lwb) (count : SysIn → BitVec 24) : Prop where
  latency : own.ackBit = 5
  ack : ∀ s, lwb (s.beside s.shift.finish) = lwb s
  wait : ∀ i last s, lwb (s.beside (s.shift.wait i last)) = (lwb s).wait last
  access : ∀ i s, lwb (s.beside (s.shift.access i)) = (lwb s).access i.bus own
  idle : ∀ s, lwb (s.beside s.shift) = lwb s
  loads : ∀ i s, (lwb s).inProgress = true → (other s).inProgress = false →
    field 0 24 (s.beside (s.shift.wait i true)).rddataReg = count i

theorem hitCnt_counts : Counts .hitCnt WbSlave.hitCnt WbSlave.missCnt SysIn.hitCntInt where
  latency := rfl
  ack _ := rfl
  wait _ _ _ := rfl
  access _ _ := rfl
  idle _ := rfl
  loads i s hOwn hOther := by
    change field 0 24 (if (true && s.missCnt.inProgress) = true then _ else
      if (true && s.hitCnt.inProgress) = true then setField 0 i.hitCntInt s.rddataReg else _) = _
    rw [hOther, hOwn, if_neg (by decide), if_pos (by decide)]
    exact field_setField_same _ _ (by decide)

theorem missCnt_counts : Counts .missCnt WbSlave.missCnt WbSlave.hitCnt SysIn.missCntInt where
  latency := rfl
  ack _ := rfl
  wait _ _ _ := rfl
  access _ _ := rfl
  idle _ := rfl
  loads i s hOwn _ := by
    change field 0 24 (if (true && s.missCnt.inProgress) = true then setField 0 i.missCntInt _ else _) = _
    rw [hOwn, if_pos (by decide)]
    exact field_setField_same _ _ (by decide)

/-- A counter that is read is on its way until it is put out; what is put out was shown since the access began. -/
def Fetches (refs : Nat) (c : Crossing 24) (lwb : Lwb) (own : Reg) (reading : Option Reg) (seen : List (BitVec 24))
    (s : WbSlave) : Prop :=
  ∃ stage, c.Stage refs lwb.lwb lwb.delay (fun v => lwb.inProgress = true → v ∈ seen) stage ∧
    (s.ackInProgress = false → lwb.inProgress = false) ∧ (lwb.inProgress = false → 5 ≤ stage) ∧
    ∀ k ≤ 5, s.ackInProgress = true → s.ackSreg = BitVec.twoPow 10 k →
      (lwb.inProgress = true → reading = some own ∧ 0 < k ∧ stage + k = 5) ∧
      (lwb.inProgress = false → reading = some own → k = 0 ∧ field 0 24 s.rddataReg ∈ seen)

variable {lwb other : WbSlave → Lwb} {count : SysIn → BitVec 24} {reading : Option Reg} {seen : List (BitVec 24)}
  {d : Crossing 24} {k : Nat}

theorem Fetches.ref {lines : Lwb} (h : Fetches refs d lines own reading seen s) (shown : BitVec 24) :
    Fetches (refs + 1) (d.clock lines.lwb shown) lines own reading (seen ++ [shown]) s := by
  obtain ⟨stage, hStage, hIdlePhase, hLate, hBusyPhase⟩ := h
  have hMore := hStage.mono (Q := fun v => lines.inProgress = true → v ∈ seen ++ [shown])
    fun v hv hBusy => List.mem_append_left _ (hv hBusy)
  refine ⟨stage, hMore.ref fun _ => List.mem_append_right _ (List.mem_singleton.mpr rfl), hIdlePhase, hLate, ?_⟩
  intro k hk hBusy hSreg
  obtain ⟨hOn, hOff⟩ := hBusyPhase k hk hBusy hSreg
  refine ⟨hOn, fun hDone hReading => ?_⟩
  obtain ⟨hZero, hData⟩ := hOff hDone hReading
  exact ⟨hZero, List.mem_append_left _ hData⟩

/-- A system edge to a state between two accesses. -/
theorem Fetches.still (hDone : (lwb s).inProgress = false) (hRefs : 0 < refs)
    (h : Fetches refs d (lwb s) own reading seen s) {s' : WbSlave} (hToggle : lwb s' = lwb s)
    (hIdle : s'.ackInProgress = false) : Fetches 0 d (lwb s') own reading seen s' := by
  obtain ⟨stage, hStage, -, hLate, -⟩ := h
  have hFive := hLate hDone
  obtain ⟨hUp, hDelay⟩ := hStage.down (by omega)
  have hNext := hStage.wait hRefs
  rw [hDelay] at hNext
  rw [hToggle]
  refine ⟨stage + 1, ?_, fun _ => hDone, fun _ => by omega, fun _ _ hBusy => ?_⟩
  · rw [hUp, hDelay]
    exact hNext
  · exact absurd (hIdle.symm.trans hBusy) (by decide)

theorem Fetches.begin (hCounts : Counts own lwb other count) (hIdle : s.ackInProgress = false) (hSreg : s.ackSreg = 0)
    (hRefs : 0 < refs) (h : Fetches refs d (lwb s) own reading seen s) (i : SysIn)
    (hGranted : s.granted (Reg.decode i.bus.adr) = true) :
    Fetches 0 d (lwb (s.beside (s.shift.access i))) own (if i.bus.we then none else some (Reg.decode i.bus.adr)) []
      (s.beside (s.shift.access i)) := by
  obtain ⟨stage, hStage, hIdlePhase, hLate, -⟩ := h
  have hDone := hIdlePhase hIdle
  have hFive := hLate hDone
  obtain ⟨hBusy, hBit⟩ := access_granted hSreg hGranted
  have hIdleAfter : ∀ b : Bool, (s.beside (s.shift.access i)).ackInProgress = false → b = false :=
    fun _ hNone => absurd (hBusy.symm.trans hNone) (by decide)
  rw [hCounts.access, Lwb.access]
  by_cases hOwn : (!i.bus.we) = true ∧ Reg.decode i.bus.adr = own
  · have hRead : i.bus.we = false := by simpa using hOwn.1
    rw [if_pos hOwn, hRead, hOwn.2]
    refine ⟨0, hStage.start (by omega) hRefs _, hIdleAfter _, fun hNone => absurd hNone (by decide), ?_⟩
    intro k hk _ hNext
    rw [hBit, hOwn.2, hCounts.latency] at hNext
    have hSame := twoPow_inj le_rfl hk hNext
    exact ⟨fun _ => ⟨rfl, by omega, by omega⟩, fun hNone => absurd hNone (by decide)⟩
  · obtain ⟨hUp, hDelay⟩ := hStage.down (by omega)
    have hNext := hStage.wait hRefs
    rw [hDelay] at hNext
    rw [if_neg hOwn]
    refine ⟨stage + 1, ?_, hIdleAfter _, fun _ => by omega, fun k _ _ _ => ⟨fun hOn => ?_, fun _ hReading => ?_⟩⟩
    · rw [hUp, hDelay]
      exact hNext.mono fun _ _ hOn => absurd (hDone.symm.trans hOn) (by decide)
    · exact absurd (hDone.symm.trans hOn) (by decide)
    · refine absurd ⟨?_, ?_⟩ hOwn <;> split_ifs at hReading with hWrite
      · simp [hWrite]
      · exact Option.some.inj hReading

theorem Fetches.wait (hCounts : Counts own lwb other count) (hBusy : s.ackInProgress = true) (hk : k + 1 ≤ 5)
    (hSreg : s.ackSreg = BitVec.twoPow 10 (k + 1)) (hAlone : (lwb s).inProgress = true → (other s).inProgress = false)
    (hRefs : 0 < refs) (h : Fetches refs d (lwb s) own reading seen s) {i : SysIn} (hCount : count i = d.copy) :
    Fetches 0 d (lwb (s.beside (s.shift.wait i (s.ackSreg.getLsbD 1)))) own reading seen
      (s.beside (s.shift.wait i (s.ackSreg.getLsbD 1))) := by
  have hLast : s.ackSreg.getLsbD 1 = decide (k = 0) := by
    rw [hSreg, getLsbD_twoPow hk]
    simp
  have hStillBusy : ∀ b : Bool, (s.beside (s.shift.wait i (s.ackSreg.getLsbD 1))).ackInProgress = false → b = false :=
    fun _ hNone => absurd (hBusy.symm.trans hNone) (by decide)
  obtain ⟨stage, hStage, -, hLate, hBusyPhase⟩ := h
  obtain ⟨hOn, hOff⟩ := hBusyPhase (k + 1) hk hBusy hSreg
  have hNext := hStage.wait hRefs
  rw [hCounts.wait, hLast] at *
  cases hProgress : (lwb s).inProgress with
  | false =>
    refine ⟨stage + 1, hNext.mono fun _ _ hAgain => ?_, hStillBusy _, fun _ => ?_, fun j hj _ hShift => ⟨fun hAgain => ?_, ?_⟩⟩
    · exact absurd (Bool.and_eq_true _ _ ▸ hAgain : (lwb s).inProgress = true ∧ _).1 (by simp [hProgress])
    · have hFive := hLate hProgress
      omega
    · exact absurd (Bool.and_eq_true _ _ ▸ hAgain : (lwb s).inProgress = true ∧ _).1 (by simp [hProgress])
    · exact fun _ hReading => absurd (hOff hProgress hReading).1 (Nat.succ_ne_zero k)
  | true =>
    obtain ⟨hReading, -, hSum⟩ := hOn hProgress
    cases k with
    | zero =>
      -- The last cycle before the acknowledge: the copy is there, and is put out.
      have hData : field 0 24 (s.beside (s.shift.wait i true)).rddataReg = d.copy :=
        (hCounts.loads i s hProgress (hAlone hProgress)).trans hCount
      refine ⟨stage + 1, hNext.mono fun v hv _ => hv hProgress, hStillBusy _, fun _ => by omega, fun j hj _ hShift => ?_⟩
      refine ⟨fun hAgain => ?_, fun _ _ => ⟨(wait_bit hk hSreg hj hShift).symm, ?_⟩⟩
      · exact absurd (Bool.and_eq_true _ _ ▸ hAgain : _ ∧ (!true) = true).2 (by decide)
      · have hCopied := hStage.copied (by omega) hProgress
        rwa [← hData] at hCopied
    | succ k =>
      refine ⟨stage + 1, hNext.mono fun v hv _ => hv hProgress, hStillBusy _, fun hDone => ?_, fun j hj _ hShift => ?_⟩
      · exact absurd hDone (by simp [Lwb.wait, hProgress])
      · have hSame := wait_bit hk hSreg hj hShift
        refine ⟨fun _ => ⟨hReading, by omega, by omega⟩, fun hDone => ?_⟩
        exact absurd hDone (by simp [Lwb.wait, hProgress])

theorem Fetches.finish (hCounts : Counts own lwb other count) (hBusy : s.ackInProgress = true)
    (hSreg : s.ackSreg = BitVec.twoPow 10 0) (hRefs : 0 < refs) (h : Fetches refs d (lwb s) own reading seen s) :
    Fetches 0 d (lwb (s.beside s.shift.finish)) own reading seen (s.beside s.shift.finish) := by
  obtain ⟨stage, hStage, hIdlePhase, hLate, hBusyPhase⟩ := h
  have hDone : (lwb s).inProgress = false := by
    by_contra hStill
    exact Nat.lt_irrefl 0 ((hBusyPhase 0 (by omega) hBusy hSreg).1 (by simpa using hStill)).2.1
  exact Fetches.still hDone hRefs ⟨stage, hStage, hIdlePhase, hLate, hBusyPhase⟩ (hCounts.ack s) rfl

theorem Fetches.sys (hCounts : Counts own lwb other count) (hTimed : Timed s)
    (hAlone : s.ackInProgress = true → (lwb s).inProgress = true → (other s).inProgress = false) (hRefs : 0 < refs)
    (h : Fetches refs d (lwb s) own reading seen s) {i : SysIn} (hCount : count i = d.copy) :
    Fetches 0 d (lwb (s.clock i)) own
      (if BusLog.begins i.bus s then if i.bus.we then none else some (Reg.decode i.bus.adr) else reading)
      (if BusLog.begins i.bus s then [] else seen) (s.clock i) := by
  rcases hTimed with ⟨hIdle, hSreg⟩ | ⟨hBusy, k, hk, hSreg⟩
  · have hDone : (lwb s).inProgress = false := h.elim fun _ hPhases => hPhases.2.1 hIdle
    cases hStrobe : i.bus.cyc && i.bus.stb with
    | true =>
      have hBegins : BusLog.begins i.bus s = s.granted (Reg.decode i.bus.adr) := by
        simp [BusLog.begins, hIdle, hStrobe]
      rw [WbSlave.clock_access hIdle hStrobe, hBegins]
      cases hGranted : s.granted (Reg.decode i.bus.adr) with
      | true => exact h.begin hCounts hIdle hSreg hRefs i hGranted
      | false =>
        have hFifo : Reg.decode i.bus.adr = .pdFifoR0 := by
          by_contra hOther
          simp [WbSlave.granted, hOther] at hGranted
        refine h.still hDone hRefs ?_ hGranted
        rw [hCounts.access, Lwb.access, if_neg]
        rintro ⟨-, hOwn⟩
        have hLatency := hCounts.latency
        rw [← hOwn, hFifo] at hLatency
        cases hLatency
    | false =>
      rw [WbSlave.clock_idle hIdle hStrobe, show BusLog.begins i.bus s = false by simp [BusLog.begins, hStrobe]]
      exact h.still hDone hRefs (hCounts.idle s) hIdle
  · rw [begins_of_inProgress hBusy]
    cases k with
    | zero =>
      rw [WbSlave.clock_ack hBusy (by rw [WbSlave.wbAckO, hSreg]; rfl)]
      exact h.finish hCounts hBusy hSreg hRefs
    | succ k =>
      rw [WbSlave.clock_wait hBusy (by rw [WbSlave.wbAckO, hSreg, getLsbD_twoPow hk]; rfl)]
      exact h.wait hCounts hBusy hk hSreg (hAlone hBusy) hRefs hCount

theorem Fetches.alone {e : Crossing 24} (hTimed : Timed s) (hHit : Fetches refs d s.hitCnt .hitCnt reading seen s)
    {seen' : List (BitVec 24)} (hMiss : Fetches refs e s.missCnt .missCnt reading seen' s) (hBusy : s.ackInProgress = true)
    (hOne : s.hitCnt.inProgress = true) : s.missCnt.inProgress = false := by
  obtain ⟨hIdle, -⟩ | ⟨-, k, hk, hSreg⟩ := hTimed
  · exact absurd (hBusy.symm.trans hIdle) (by decide)
  · obtain ⟨_, -, -, -, hHit⟩ := hHit
    obtain ⟨_, -, -, -, hMiss⟩ := hMiss
    by_contra hTwo
    have hFirst := ((hHit k hk hBusy hSreg).1 hOne).1
    have hSecond := ((hMiss k hk hBusy hSreg).1 (by simpa using hTwo)).1
    exact absurd (hFirst.symm.trans hSecond) (by decide)

theorem Fetches.data {lines : Lwb} (h : Fetches refs d lines own reading seen s) (hBusy : s.ackInProgress = true)
    (hSreg : s.ackSreg = BitVec.twoPow 10 0) (hReading : reading = some own) : field 0 24 s.rddataReg ∈ seen := by
  obtain ⟨_, -, -, -, hBusyPhase⟩ := h
  obtain ⟨hOn, hOff⟩ := hBusyPhase 0 (by omega) hBusy hSreg
  have hDone : lines.inProgress = false := by
    by_contra hStill
    exact Nat.lt_irrefl 0 (hOn (by simpa using hStill)).2.1
  exact (hOff hDone hReading).2

/-! ### Runs of both clocks -/

structure Crossed (o : RefLog) (s : RegisterBlock) : Prop where
  serving : Serving o.bus s.slave
  freqHi : Follows o.refs s.freqHi s.slave.freqHi (s.slave.bank .freqHi) s.slave
  freqLo : Follows o.refs s.freqLo s.slave.freqLo (s.slave.bank .freqLo) s.slave
  gain : Follows o.refs s.gain s.slave.gain (field 0 16 (s.slave.bank .gain)) s.slave
  hitCnt : Fetches o.refs s.hitCnt s.slave.hitCnt .hitCnt o.reading o.hitSeen s.slave
  missCnt : Fetches o.refs s.missCnt s.slave.missCnt .missCnt o.reading o.missSeen s.slave

theorem crossed_reset : Crossed .empty .reset where
  serving := serving_reset
  freqHi := ⟨5, ⟨⟨rfl, rfl⟩, rfl, rfl, rfl, rfl⟩, fun _ => by omega, fun _ _ hBusy => absurd hBusy Bool.false_ne_true⟩
  freqLo := ⟨5, ⟨⟨rfl, rfl⟩, rfl, rfl, rfl, rfl⟩, fun _ => by omega, fun _ _ hBusy => absurd hBusy Bool.false_ne_true⟩
  gain := ⟨5, ⟨⟨rfl, rfl⟩, rfl, rfl, rfl, rfl⟩, fun _ => by omega, fun _ _ hBusy => absurd hBusy Bool.false_ne_true⟩
  hitCnt := ⟨5, ⟨⟨rfl, rfl⟩, rfl, rfl, rfl, fun hOn => absurd hOn Bool.false_ne_true⟩, fun _ => rfl, fun _ => le_rfl,
    fun _ _ hBusy => absurd hBusy Bool.false_ne_true⟩
  missCnt := ⟨5, ⟨⟨rfl, rfl⟩, rfl, rfl, rfl, fun hOn => absurd hOn Bool.false_ne_true⟩, fun _ => rfl, fun _ => le_rfl,
    fun _ _ hBusy => absurd hBusy Bool.false_ne_true⟩

theorem Crossed.step {e : ClockEvent} {p : RefLog × RegisterBlock} (h : Crossed p.1 p.2) (hPaced : Paced e p) :
    Crossed (watch RegisterBlock.step RefLog.see e p).1 (watch RegisterBlock.step RefLog.see e p).2 := by
  obtain ⟨o, s⟩ := p
  cases e with
  | sys bus device =>
    have hTimed := h.serving.timed
    have hRefs : 0 < o.refs := hPaced
    have hHitAlone := h.hitCnt.alone hTimed h.missCnt
    have hMissAlone : s.slave.ackInProgress = true → s.slave.missCnt.inProgress = true → s.slave.hitCnt.inProgress = false := by
      intro hBusy hOn
      by_contra hHit
      exact absurd (hOn.symm.trans (hHitAlone hBusy (by simpa using hHit))) (by decide)
    have hHit := h.hitCnt.sys hitCnt_counts hTimed hHitAlone hRefs (i := s.sysIn bus device) rfl
    have hMiss := h.missCnt.sys missCnt_counts hTimed hMissAlone hRefs (i := s.sysIn bus device) rfl
    have hLog : RefLog.see o (.sys bus device) s = ⟨o.bus.see (s.sysIn bus device) s.slave, 0, if BusLog.begins bus s.slave then
        if bus.we then none else some (Reg.decode bus.adr) else o.reading,
        if BusLog.begins bus s.slave then [] else o.hitSeen, if BusLog.begins bus s.slave then [] else o.missSeen⟩ := by
      rw [RefLog.see]
      split_ifs <;> rfl
    simp only [watch_fst, watch_snd, hLog]
    exact ⟨h.serving.step (s.sysIn bus device), h.freqHi.sys id freqHi_toggles hTimed hRefs _,
      h.freqLo.sys id freqLo_toggles hTimed hRefs _, h.gain.sys (field 0 16) gain_toggles hTimed hRefs _, hHit, hMiss⟩
  | ref hitCnt missCnt =>
    exact ⟨h.serving, h.freqHi.ref, h.freqLo.ref, h.gain.ref, h.hitCnt.ref hitCnt, h.missCnt.ref missCnt⟩

theorem crossed_run {events : List ClockEvent}
    (hPaced : Along (watch RegisterBlock.step RefLog.see) Paced events (.empty, .reset)) :
    Crossed (run (watch RegisterBlock.step RefLog.see) events (.empty, .reset)).1
      (run (watch RegisterBlock.step RefLog.see) events (.empty, .reset)).2 := by
  have hInit : Crossed (RefLog.empty, RegisterBlock.reset).1 (RefLog.empty, RegisterBlock.reset).2 := crossed_reset
  have hStep : ∀ e (p : RefLog × RegisterBlock), Crossed p.1 p.2 → Paced e p →
      Crossed (watch RegisterBlock.step RefLog.see e p).1 (watch RegisterBlock.step RefLog.see e p).2 :=
    fun e p h hOk => Crossed.step h hOk
  exact run_invariant hStep events hInit hPaced

/-- Between two accesses, and when one is acknowledged, a register is over. -/
theorem Follows.over {word : BitVec n} {lines : Swb} (h : Follows refs c lines word s) (hTimed : Timed s)
    (hQuiet : s.ackInProgress = false ∨ s.wbAckO = true) : c.copy = word := by
  obtain ⟨stage, hStage, hIdlePhase, hBusyPhase⟩ := h
  apply hStage.copied
  rcases hTimed with ⟨hIdle, -⟩ | ⟨hBusy, k, hk, hSreg⟩
  · have hLate := hIdlePhase hIdle
    omega
  · have hAck : s.wbAckO = true := hQuiet.resolve_left (by simp [hBusy])
    have hZero : k = 0 := by
      rw [WbSlave.wbAckO, hSreg, getLsbD_twoPow hk] at hAck
      simpa using hAck
    have hEnough := hBusyPhase k hk hBusy hSreg
    omega

/-- In every run whose reference clock keeps up, the registers behind it are what a memory holds that took the writes,
at each acknowledge and between two accesses. -/
theorem registers_over {events : List ClockEvent}
    (hPaced : Along (watch RegisterBlock.step RefLog.see) Paced events (.empty, .reset)) :
    let o := (run (watch RegisterBlock.step RefLog.see) events (.empty, .reset)).1
    let s := (run (watch RegisterBlock.step RefLog.see) events (.empty, .reset)).2
    s.slave.ackInProgress = false ∨ s.slave.wbAckO = true →
      s.freqHi.copy = o.bus.memory .freqHi ∧ s.freqLo.copy = o.bus.memory .freqLo ∧
        s.gain.copy = field 0 16 (o.bus.memory .gain) := by
  intro o s hQuiet
  have hCrossed : Crossed o s := crossed_run hPaced
  have hTimed := hCrossed.serving.timed
  have hWhole : ∀ w : BitVec 32, w &&& 0xffffffff#32 = w := fun w => BitVec.and_allOnes
  have hGain : ∀ w : BitVec 32, field 0 16 (w &&& 0xffff#32) = field 0 16 w := by
    intro w
    apply BitVec.eq_of_getLsbD_eq
    intro k hk
    have hIn : (0xffff#32).getLsbD k = true := by
      have hAll : ∀ k < 16, (0xffff#32).getLsbD k = true := by decide
      exact hAll k hk
    simp [field, hk, hIn]
  refine ⟨(hCrossed.freqHi.over hTimed hQuiet).trans ?_, (hCrossed.freqLo.over hTimed hQuiet).trans ?_,
    (hCrossed.gain.over hTimed hQuiet).trans ?_⟩
  · exact (hWhole _).symm.trans (hCrossed.serving.memory .freqHi)
  · exact (hWhole _).symm.trans (hCrossed.serving.memory .freqLo)
  · rw [← hCrossed.serving.memory .gain]
    exact (hGain _).symm

/-- A write of `GAIN`, the reference clock at twice the pace of the system clock. -/
theorem registers_over_gain :
    let cycle (bus : BusIn) : List ClockEvent :=
      [.ref 0 0, .ref 0 0, .sys bus ⟨false, false, false, false, false, true, true, 0, 0, 7, false, false, false, true, 0⟩]
    let write : BusIn := ⟨true, true, true, 4, 0x1234⟩
    let events := (List.replicate 4 write).flatMap cycle
    let p := run (watch RegisterBlock.step RefLog.see) events (.empty, .reset)
    p.2.slave.wbAckO = true ∧ p.2.gain.copy = 0x1234 := by
  intro cycle write events p
  have hAck : p.2.slave.wbAckO = true := by decide +kernel
  refine ⟨hAck, ?_⟩
  have hOver := (registers_over (by decide +kernel : Along _ Paced events _) (.inr hAck)).2.2
  exact hOver.trans (by decide +kernel)

/-- In every run whose reference clock keeps up, a read of a counter is acknowledged with a value that the reference
clock showed since the access began. -/
theorem counters_fresh {events : List ClockEvent}
    (hPaced : Along (watch RegisterBlock.step RefLog.see) Paced events (.empty, .reset)) :
    let o := (run (watch RegisterBlock.step RefLog.see) events (.empty, .reset)).1
    let s := (run (watch RegisterBlock.step RefLog.see) events (.empty, .reset)).2
    s.slave.wbAckO = true →
      (o.reading = some .hitCnt → field 0 24 s.slave.rddataReg ∈ o.hitSeen) ∧
        (o.reading = some .missCnt → field 0 24 s.slave.rddataReg ∈ o.missSeen) := by
  intro o s hAck
  have hCrossed : Crossed o s := crossed_run hPaced
  have hSreg : s.slave.ackInProgress = true ∧ s.slave.ackSreg = BitVec.twoPow 10 0 := by
    rw [WbSlave.wbAckO] at hAck
    rcases hCrossed.serving.timed with ⟨-, hSreg⟩ | ⟨hBusy, k, hk, hSreg⟩
    · rw [hSreg] at hAck
      exact absurd hAck (by decide)
    · rw [hSreg, getLsbD_twoPow hk] at hAck
      exact ⟨hBusy, by rw [hSreg, show k = 0 by simpa using hAck]⟩
  exact ⟨hCrossed.hitCnt.data hSreg.1 hSreg.2, hCrossed.missCnt.data hSreg.1 hSreg.2⟩

/-- A read of `HIT_CNT`, the reference clock at twice the pace of the system clock. -/
theorem counters_fresh_hit :
    let cycle (bus : BusIn) (first : BitVec 24) : List ClockEvent :=
      [.ref first 7, .ref (first + 1) 7, .sys bus ⟨false, false, false, false, false, true, true, 0, 0, 7, false, false, false, true, 0⟩]
    let read : BusIn := ⟨true, true, false, 12, 0⟩
    let events := (List.range 6).flatMap fun n => cycle read (BitVec.ofNat 24 (10 * n))
    let p := run (watch RegisterBlock.step RefLog.see) events (.empty, .reset)
    p.2.slave.wbAckO = true ∧ field 0 24 p.2.slave.rddataReg ∈ [10, 11, 20, 21, 30, 31, 40, 41, 50, 51] := by
  intro cycle read events p
  have hAck : p.2.slave.wbAckO = true := by decide +kernel
  refine ⟨hAck, ?_⟩
  have hSeen : p.1.hitSeen = [10, 11, 20, 21, 30, 31, 40, 41, 50, 51] := by decide +kernel
  rw [← hSeen]
  exact (counters_fresh (by decide +kernel : Along _ Paced events _) hAck).1 (by decide +kernel)

end WrRfDemo.Registers

import Mathlib.Data.List.Forall2
import WrRfDemo.Registers.WbSlave

/-! # Accesses and their acknowledges

Whatever the bus does, the slave takes one access at a time, acknowledges it once after a number of cycles
that depends on its register alone, and answers as a memory of the words would.
-/

namespace WrRfDemo.Registers

open Clocked

/-- An access that has begun, with what the memory held at its register. -/
structure Access where
  cycle : Nat
  reg : Reg
  we : Bool
  dat : BitVec 32
  memory : BitVec 32
deriving DecidableEq

def Access.due (a : Access) : Nat := a.cycle + 1 + a.reg.ackBit

structure Ack where
  cycle : Nat
  data : BitVec 32
deriving DecidableEq

/-- The cycles on the bus, with a memory that takes the writes. -/
structure BusLog where
  now : Nat
  memory : Reg → BitVec 32
  accesses : List Access
  acks : List Ack

namespace BusLog

def empty : BusLog := ⟨0, fun r => if r = .i2cr then 0x3 else 0, [], []⟩

def begins (i : BusIn) (s : WbSlave) : Bool :=
  !s.ackInProgress && (i.cyc && i.stb) && s.granted (Reg.decode i.adr)

def see (o : BusLog) (i : SysIn) (s : WbSlave) : BusLog :=
  let r := Reg.decode i.bus.adr
  { now := o.now + 1
    memory := if begins i.bus s && i.bus.we then Function.update o.memory r (i.bus.dat &&& r.shown) else o.memory
    accesses := o.accesses ++ if begins i.bus s then [⟨o.now, r, i.bus.we, i.bus.dat, o.memory r⟩] else []
    acks := o.acks ++ if s.wbAckO then [⟨o.now, s.rddataReg⟩] else [] }

end BusLog

/-- The acknowledge of an access: in its cycle, and with the bits that are stored. -/
def Answers (a : Access) (ack : Ack) : Prop := ack.cycle = a.due ∧ ack.data &&& a.reg.shown = a.memory

/-! ### The registers -/

theorem Readout.onto_word_and {defined m : BitVec 32} (h : defined &&& m = m) (value x old : BitVec 32) :
    (Readout.word defined value).onto x old &&& m = value &&& m := by
  apply BitVec.eq_of_getLsbD_eq
  intro k hk
  have hIn := congrArg (fun w => w.getLsbD k) h
  simp only [BitVec.getLsbD_and] at hIn
  simp only [Readout.onto, Readout.word, BitVec.getLsbD_and, BitVec.getLsbD_or, BitVec.getLsbD_not]
  cases hBit : m.getLsbD k with
  | false => simp
  | true =>
    rw [hBit, Bool.and_true] at hIn
    simp [hIn]

theorem and_or_and {w m b : BitVec 32} (h : b &&& m = 0#32) : (w &&& m ||| b) &&& m = w &&& m := by
  apply BitVec.eq_of_getLsbD_eq
  intro k _
  have hOut := congrArg (fun w => w.getLsbD k) h
  simp only [BitVec.getLsbD_and, BitVec.getLsbD_zero] at hOut
  simp only [BitVec.getLsbD_and, BitVec.getLsbD_or]
  cases hBit : m.getLsbD k with
  | false => simp
  | true =>
    rw [hBit, Bool.and_true] at hOut
    simp [hOut]

theorem bitAt_and {k : Nat} {m : BitVec 32} (h : BitVec.twoPow 32 k &&& m = 0#32) (b : Bool) : bitAt k b &&& m = 0#32 := by
  cases b with
  | false => exact BitVec.zero_and
  | true => exact h

/-- An access puts out the stored bits of its word. -/
theorem readout_shown (d : DeviceIn) (granted : Bool) (word x old : BitVec 32) (r : Reg) :
    (readout d granted word r).onto x old &&& r.shown = word &&& r.shown := by
  have hNone : ∀ w : BitVec 32, w &&& 0#32 = 0#32 := fun w => BitVec.and_zero
  cases r with
  | cr =>
    rw [readout, Readout.onto_word_and (by decide), BitVec.or_assoc, and_or_and]
    rw [BitVec.and_or_distrib_right, bitAt_and (by decide), bitAt_and (by decide), BitVec.zero_or]
  | gpior =>
    rw [readout, Readout.onto_word_and (by decide), BitVec.or_assoc, BitVec.or_assoc]
    apply and_or_and
    rw [BitVec.and_or_distrib_right, BitVec.and_or_distrib_right, bitAt_and (by decide), bitAt_and (by decide),
      bitAt_and (by decide), BitVec.zero_or, BitVec.zero_or]
  | i2cr =>
    rw [readout, Readout.onto_word_and (by decide), BitVec.or_assoc, and_or_and]
    rw [BitVec.and_or_distrib_right, bitAt_and (by decide), bitAt_and (by decide), BitVec.zero_or]
  | freqHi | freqLo | gain | rstr | pir | dlyr | phaser | macl | mach =>
    rw [readout, Readout.onto_word_and (by decide)]
  | hitCnt | missCnt | rxCnt | txCnt | pdFifoR0 | pdFifoCsr | tuneFifoR0 | tuneFifoCsr | others =>
    exact (hNone _).trans (hNone _).symm

theorem twoPow_shift {k : Nat} (hk : k ≤ 5) : BitVec.twoPow 10 (k + 1) >>> 1 = BitVec.twoPow 10 k := by
  have hAll : ∀ k : Fin 6, BitVec.twoPow 10 (k.val + 1) >>> 1 = BitVec.twoPow 10 k.val := by decide
  exact hAll ⟨k, Nat.lt_succ_of_le hk⟩

theorem getLsbD_twoPow {k j : Nat} (hk : k ≤ 5) : (BitVec.twoPow 10 k).getLsbD j = decide (k = j) := by
  rw [BitVec.getLsbD_twoPow]
  simp [show k < 10 by omega]

theorem stored_and_shown (r : Reg) : r.stored &&& r.shown = r.shown := by
  cases r <;> decide

theorem ackBit_le (r : Reg) : r.ackBit ≤ 5 := by
  cases r <;> decide

/-! ### What holds in every cycle -/

/-- An access that has begun and is acknowledged in `k` cycles. -/
structure Waiting (o : BusLog) (s : WbSlave) (earlier : List Access) (a : Access) (k : Nat) : Prop where
  inProgress : s.ackInProgress = true
  accesses : o.accesses = earlier ++ [a]
  answered : List.Forall₂ Answers earlier o.acks
  due : o.now + k = a.due
  soon : k ≤ 5
  sreg : s.ackSreg = BitVec.twoPow 10 k
  data : s.rddataReg &&& a.reg.shown = a.memory
  hit : s.hitCnt.inProgress = true → a.reg = .hitCnt ∧ 0 < k
  miss : s.missCnt.inProgress = true → a.reg = .missCnt ∧ 0 < k

structure Idle (o : BusLog) (s : WbSlave) : Prop where
  inProgress : s.ackInProgress = false
  answered : List.Forall₂ Answers o.accesses o.acks
  sreg : s.ackSreg = 0
  hit : s.hitCnt.inProgress = false
  miss : s.missCnt.inProgress = false

structure Serving (o : BusLog) (s : WbSlave) : Prop where
  memory : ∀ r, s.bank r &&& r.shown = o.memory r
  phase : Idle o s ∨ ∃ earlier a k, Waiting o s earlier a k

variable {o : BusLog} {s : WbSlave} {earlier : List Access} {a : Access} {k : Nat}

theorem serving_reset : Serving .empty .reset := by
  refine ⟨fun r => ?_, .inl ⟨rfl, .nil, rfl, rfl, rfl⟩⟩
  cases r <;> decide

theorem begins_of_inProgress (h : s.ackInProgress = true) (i : BusIn) : BusLog.begins i s = false := by
  simp [BusLog.begins, h]

theorem see_of_not_begins {i : SysIn} (h : BusLog.begins i.bus s = false) : o.see i s =
    ⟨o.now + 1, o.memory, o.accesses, o.acks ++ if s.wbAckO then [⟨o.now, s.rddataReg⟩] else []⟩ := by
  simp [BusLog.see, h]

/-- The cycle of the acknowledge. -/
theorem Waiting.finish (h : Waiting o s earlier a 0) (i : SysIn) : Idle (o.see i s) (s.clock i) := by
  have hAck : s.wbAckO = true := by rw [WbSlave.wbAckO, h.sreg, getLsbD_twoPow h.soon]; rfl
  have hHit : s.hitCnt.inProgress = false := Bool.eq_false_iff.mpr fun hHit => Nat.lt_irrefl 0 (h.hit hHit).2
  have hMiss : s.missCnt.inProgress = false := Bool.eq_false_iff.mpr fun hMiss => Nat.lt_irrefl 0 (h.miss hMiss).2
  rw [see_of_not_begins (begins_of_inProgress h.inProgress i.bus), if_pos hAck, WbSlave.clock_ack h.inProgress hAck]
  refine ⟨rfl, ?_, ?_, hHit, hMiss⟩
  · rw [h.accesses]
    exact List.rel_append h.answered (.cons ⟨h.due, h.data⟩ .nil)
  · change s.ackSreg >>> 1 = 0
    rw [h.sreg]
    decide

theorem Waiting.wait (h : Waiting o s earlier a (k + 1)) (i : SysIn) :
    Waiting (o.see i s) (s.clock i) earlier a k := by
  have hAck : s.wbAckO = false := by rw [WbSlave.wbAckO, h.sreg, getLsbD_twoPow h.soon]; rfl
  have hLast : s.ackSreg.getLsbD 1 = decide (k + 1 = 1) := by rw [h.sreg, getLsbD_twoPow h.soon]
  have hSoon := h.soon
  have hDue := h.due
  have hCounter : ∀ (busy : Bool) (own : Reg), (own = .hitCnt ∨ own = .missCnt) → (busy = true → a.reg = own) →
      ∀ (v : BitVec 24) (w : BitVec 32), w &&& a.reg.shown = a.memory →
      (if (decide (k + 1 = 1) && busy) = true then setField 0 v w else w) &&& a.reg.shown = a.memory := by
    intro busy own hOwn hBusy v w hw
    split_ifs with hLoads
    · -- A counter is put out: its word has no stored bits.
      have hReg := hBusy (by simpa using (Bool.and_eq_true _ _ ▸ hLoads : _ ∧ _).2)
      have hNone : a.reg.shown = 0#32 := by rcases hOwn with rfl | rfl <;> rw [hReg] <;> rfl
      rw [hNone, BitVec.and_zero] at hw ⊢
      exact hw
    · exact hw
  rw [see_of_not_begins (begins_of_inProgress h.inProgress i.bus), if_neg (by simp [hAck]), List.append_nil,
    WbSlave.clock_wait h.inProgress hAck, hLast]
  refine ⟨h.inProgress, h.accesses, h.answered, by simp only []; omega, by omega, ?_, ?_, ?_, ?_⟩
  · change s.ackSreg >>> 1 = BitVec.twoPow 10 k
    rw [h.sreg, twoPow_shift (by omega)]
  · exact hCounter _ .missCnt (.inr rfl) (fun hMiss => (h.miss hMiss).1) _ _
      (hCounter _ .hitCnt (.inl rfl) (fun hHit => (h.hit hHit).1) _ _ h.data)
  · intro hHit
    obtain ⟨hBusy, hMore⟩ := (Bool.and_eq_true _ _ ▸ hHit : s.hitCnt.inProgress = true ∧ _)
    exact ⟨(h.hit hBusy).1, by simpa [Nat.pos_iff_ne_zero] using hMore⟩
  · intro hMiss
    obtain ⟨hBusy, hMore⟩ := (Bool.and_eq_true _ _ ▸ hMiss : s.missCnt.inProgress = true ∧ _)
    exact ⟨(h.miss hBusy).1, by simpa [Nat.pos_iff_ne_zero] using hMore⟩

theorem Lwb.access_inProgress {c : Lwb} (hIdle : c.inProgress = false) {i : BusIn} {own : Reg}
    (h : (c.access i own).inProgress = true) : Reg.decode i.adr = own := by
  rw [Lwb.access] at h
  split_ifs at h with hOwn
  · exact hOwn.2
  · simp [hIdle] at h

theorem Idle.begin (h : Idle o s) (hMemory : ∀ r, s.bank r &&& r.shown = o.memory r) {i : SysIn}
    (hBegins : BusLog.begins i.bus s = true) : Waiting (o.see i s) (s.clock i) o.accesses
      ⟨o.now, Reg.decode i.bus.adr, i.bus.we, i.bus.dat, o.memory (Reg.decode i.bus.adr)⟩ (Reg.decode i.bus.adr).ackBit := by
  obtain ⟨hStrobe, hGranted⟩ : (i.bus.cyc && i.bus.stb) = true ∧ s.granted (Reg.decode i.bus.adr) = true := by
    simpa [BusLog.begins, h.inProgress] using hBegins
  have hAck : ¬s.wbAckO = true := by simp [WbSlave.wbAckO, h.sreg]
  have hSreg : s.ackSreg >>> 1 ||| BitVec.twoPow 10 (Reg.decode i.bus.adr).ackBit =
      BitVec.twoPow 10 (Reg.decode i.bus.adr).ackBit := by
    rw [h.sreg]
    exact BitVec.zero_or
  rw [WbSlave.clock_access h.inProgress hStrobe, WbSlave.access, WbSlave.granted_shift, hGranted, if_pos rfl]
  refine ⟨rfl, ?_, ?_, ?_, ackBit_le _, hSreg, ?_, ?_, ?_⟩
  · simp [BusLog.see, hBegins]
  · simpa [BusLog.see, hAck] using h.answered
  · simp only [BusLog.see, Access.due]
  · rw [← hMemory]
    exact readout_shown i.device _ _ _ _ _
  · intro hHit
    have hOwn := Lwb.access_inProgress h.hit hHit
    exact ⟨hOwn, by rw [hOwn]; decide⟩
  · intro hMiss
    have hOwn := Lwb.access_inProgress h.miss hMiss
    exact ⟨hOwn, by rw [hOwn]; decide⟩

theorem Idle.stay (h : Idle o s) {i : SysIn} (hBegins : BusLog.begins i.bus s = false) :
    Idle (o.see i s) (s.clock i) := by
  have hAck : ¬s.wbAckO = true := by simp [WbSlave.wbAckO, h.sreg]
  have hShift : s.shift.ackSreg = 0 := by rw [WbSlave.shift, h.sreg]; rfl
  rw [see_of_not_begins hBegins, if_neg hAck, List.append_nil]
  cases hStrobe : i.bus.cyc && i.bus.stb with
  | true =>
    have hGranted : s.granted (Reg.decode i.bus.adr) = false := by
      simpa [BusLog.begins, h.inProgress, hStrobe] using hBegins
    have hFifo : Reg.decode i.bus.adr = .pdFifoR0 := by
      by_contra hOther
      simp [WbSlave.granted, hOther] at hGranted
    rw [WbSlave.clock_access h.inProgress hStrobe, WbSlave.access, WbSlave.granted_shift, hGranted]
    refine ⟨rfl, h.answered, hShift, ?_, ?_⟩
    · simp [WbSlave.beside, WbSlave.shift, Lwb.access, hFifo, h.hit]
    · simp [WbSlave.beside, WbSlave.shift, Lwb.access, hFifo, h.miss]
  | false =>
    rw [WbSlave.clock_idle h.inProgress hStrobe]
    exact ⟨h.inProgress, h.answered, hShift, h.hit, h.miss⟩

/-- The registers take the writes that the memory takes. -/
theorem Serving.bank (h : Serving o s) (i : SysIn) (r : Reg) :
    (s.clock i).bank r &&& r.shown = (o.see i s).memory r := by
  have hMemory := h.memory r
  rw [WbSlave.clock]
  split_ifs with hBusy hAck hStrobe <;> rw [WbSlave.beside]
  · rw [see_of_not_begins (begins_of_inProgress hBusy i.bus), ← hMemory]
    by_cases hCr : r = .cr
    · subst hCr
      simp [WbSlave.finish, WbSlave.shift, BitVec.and_assoc]
    · simp [WbSlave.finish, WbSlave.shift, hCr]
  · rw [see_of_not_begins (begins_of_inProgress hBusy i.bus)]
    exact hMemory
  · have hWrite : ∀ r, (if i.bus.we = true then Function.update s.bank (Reg.decode i.bus.adr)
        (i.bus.dat &&& (Reg.decode i.bus.adr).stored) else s.bank) r &&& r.shown =
        (if i.bus.we = true then Function.update o.memory (Reg.decode i.bus.adr)
          (i.bus.dat &&& (Reg.decode i.bus.adr).shown) else o.memory) r := by
      intro r
      split_ifs
      · by_cases hOwn : r = Reg.decode i.bus.adr
        · rw [hOwn, Function.update_self, Function.update_self, BitVec.and_assoc, stored_and_shown]
        · rw [Function.update_of_ne hOwn, Function.update_of_ne hOwn, h.memory r]
      · exact h.memory r
    cases hBegins : BusLog.begins i.bus s with
    | true =>
      rw [BusLog.see, hBegins, Bool.true_and]
      exact hWrite r
    | false =>
      -- The first cycles at the test FIFO: its word stores nothing.
      have hGranted : s.granted (Reg.decode i.bus.adr) = false := by
        simpa [BusLog.begins, hBusy, hStrobe] using hBegins
      have hFifo : Reg.decode i.bus.adr = .pdFifoR0 := by
        by_contra hOther
        simp [WbSlave.granted, hOther] at hGranted
      rw [see_of_not_begins hBegins, ← hMemory, WbSlave.access, hFifo]
      by_cases hOwn : r = .pdFifoR0
      · subst hOwn
        exact BitVec.and_zero.trans BitVec.and_zero.symm
      · change (if i.bus.we = true then Function.update s.bank .pdFifoR0 _ else s.bank) r &&& r.shown = _
        split_ifs
        · rw [Function.update_of_ne hOwn]
        · rfl
  · rw [see_of_not_begins (by simp [BusLog.begins, hStrobe])]
    exact hMemory

theorem Serving.step (h : Serving o s) (i : SysIn) : Serving (o.see i s) (s.clock i) := by
  refine ⟨h.bank i, ?_⟩
  rcases h.phase with hIdle | ⟨earlier, a, k, hWaiting⟩
  · cases hBegins : BusLog.begins i.bus s with
    | true => exact .inr ⟨_, _, _, hIdle.begin h.memory hBegins⟩
    | false => exact .inl (hIdle.stay hBegins)
  · cases k with
    | zero => exact .inl (hWaiting.finish i)
    | succ k => exact .inr ⟨_, _, _, hWaiting.wait i⟩

theorem serving_run (inputs : List SysIn) :
    Serving (run (watch WbSlave.clock BusLog.see) inputs (.empty, .reset)).1
      (run (watch WbSlave.clock BusLog.see) inputs (.empty, .reset)).2 := by
  have hInit : Serving (BusLog.empty, WbSlave.reset).1 (BusLog.empty, WbSlave.reset).2 := serving_reset
  exact run_keeps (fun p : BusLog × WbSlave => Serving p.1 p.2) (fun i p h => Serving.step h i) inputs hInit

/-- In every run, each access is acknowledged once, in turn, after the cycles of its register; the acknowledge shows what
the memory held at the register, and what is not acknowledged yet will be. -/
theorem accesses_served (inputs : List SysIn) :
    let o := (run (watch WbSlave.clock BusLog.see) inputs (.empty, .reset)).1
    ∃ answered pending, o.accesses = answered ++ pending ∧ List.Forall₂ Answers answered o.acks ∧
      pending.length ≤ 1 ∧ ∀ a ∈ pending, o.now ≤ a.due := by
  intro o
  have hServing := serving_run inputs
  rcases hServing.phase with hIdle | ⟨earlier, a, k, hWaiting⟩
  · exact ⟨_, [], (List.append_nil _).symm, hIdle.answered, Nat.zero_le 1, fun a ha => absurd ha List.not_mem_nil⟩
  · refine ⟨earlier, [a], hWaiting.accesses, hWaiting.answered, le_rfl, fun b hb => ?_⟩
    rw [List.mem_singleton.mp hb, ← hWaiting.due]
    exact Nat.le_add_right _ k

/-! ### No access hangs the bus -/

/-- The cycles to the next acknowledge at most, if the master keeps the strobe up. -/
def patience (s : WbSlave) : Nat :=
  if s.ackInProgress then s.ackSreg.toNat.log2
  else if s.pdFifoRdreqD0 then 7 else if s.pdFifoRdreq then 8 else 9

/-- The shift register has one bit in an access, and none between two. -/
def Timed (s : WbSlave) : Prop :=
  (s.ackInProgress = false ∧ s.ackSreg = 0) ∨ s.ackInProgress = true ∧ ∃ k ≤ 5, s.ackSreg = BitVec.twoPow 10 k

theorem Serving.timed (h : Serving o s) : Timed s := by
  rcases h.phase with hIdle | ⟨_, _, k, hWaiting⟩
  · exact .inl ⟨hIdle.inProgress, hIdle.sreg⟩
  · exact .inr ⟨hWaiting.inProgress, k, hWaiting.soon, hWaiting.sreg⟩

theorem patience_busy (hBusy : s.ackInProgress = true) (hk : k ≤ 5) (hSreg : s.ackSreg = BitVec.twoPow 10 k) :
    patience s = k := by
  rw [patience, if_pos hBusy, hSreg, BitVec.toNat_twoPow_of_lt (by omega), Nat.log2_two_pow]

theorem Timed.step (h : Timed s) {i : SysIn} (hStrobe : (i.bus.cyc && i.bus.stb) = true) (hAck : ¬s.wbAckO = true) :
    Timed (s.clock i) ∧ patience (s.clock i) < patience s := by
  rcases h with ⟨hIdle, hSreg⟩ | ⟨hBusy, k, hk, hSreg⟩
  · have hZero : s.shift.ackSreg = 0 := by rw [WbSlave.shift, hSreg]; rfl
    have hNext := WbSlave.clock_access hIdle hStrobe
    rw [WbSlave.access, WbSlave.granted_shift] at hNext
    cases hGranted : s.granted (Reg.decode i.bus.adr) with
    | true =>
      rw [hGranted, if_pos rfl, hZero] at hNext
      have hBusy : (s.clock i).ackInProgress = true := by rw [hNext]; rfl
      have hBit : (s.clock i).ackSreg = BitVec.twoPow 10 (Reg.decode i.bus.adr).ackBit := by
        rw [hNext]
        exact BitVec.zero_or
      have hPatience : 7 ≤ patience s := by
        rw [patience, if_neg (by simp [hIdle])]
        split_ifs <;> decide
      have hSoon := ackBit_le (Reg.decode i.bus.adr)
      refine ⟨.inr ⟨hBusy, _, hSoon, hBit⟩, ?_⟩
      rw [patience_busy hBusy hSoon hBit]
      omega
    | false =>
      -- The first cycles at the test FIFO: the read request comes, and its delayed copy.
      rw [hGranted] at hNext
      have hEmpty : s.pdFifoRdreqD0 = false := by
        by_contra hShows
        simp [WbSlave.granted, hShows] at hGranted
      have hStill : (s.clock i).ackInProgress = false ∧ (s.clock i).ackSreg = 0 := by
        rw [hNext]
        exact ⟨rfl, hZero⟩
      have hRequest : (s.clock i).pdFifoRdreq = !s.pdFifoRdreq ∧ (s.clock i).pdFifoRdreqD0 = s.pdFifoRdreq := by
        rw [hNext]
        exact ⟨rfl, rfl⟩
      refine ⟨.inl hStill, ?_⟩
      have hBefore : patience s = if s.pdFifoRdreq then 8 else 9 := by simp [patience, hIdle, hEmpty]
      have hAfter : patience (s.clock i) = if s.pdFifoRdreq then 7 else 8 := by
        rw [patience, if_neg (by simp [hStill.1]), hRequest.1, hRequest.2]
        cases s.pdFifoRdreq <;> rfl
      rw [hBefore, hAfter]
      split_ifs <;> decide
  · cases k with
    | zero =>
      rw [WbSlave.wbAckO, hSreg] at hAck
      exact absurd rfl hAck
    | succ k =>
      have hNext : (s.clock i).ackInProgress = true ∧ (s.clock i).ackSreg = BitVec.twoPow 10 k := by
        rw [WbSlave.clock_wait hBusy (by simpa using hAck), ← twoPow_shift (by omega), ← hSreg]
        exact ⟨hBusy, rfl⟩
      rw [patience_busy hBusy hk hSreg, patience_busy hNext.1 (by omega) hNext.2]
      exact ⟨.inr ⟨hNext.1, k, by omega, hNext.2⟩, Nat.lt_succ_self k⟩

/-- However the bus was used before, a master that keeps the strobe up has its acknowledge within nine cycles, at any
address. -/
theorem acknowledged_within (before : List SysIn) {strobes : List SysIn}
    (hStrobe : ∀ i ∈ strobes, (i.bus.cyc && i.bus.stb) = true) (hLong : 9 ≤ strobes.length) :
    ∃ first rest, strobes = first ++ rest ∧ (run WbSlave.clock (before ++ first) .reset).wbAckO = true := by
  have hTimed : Timed (run WbSlave.clock before .reset) := by
    have hServing := (serving_run before).timed
    rwa [run_watch_snd] at hServing
  have hPatience : patience (run WbSlave.clock before .reset) ≤ 9 := by
    rcases hTimed with ⟨hIdle, hSreg⟩ | ⟨hBusy, k, hk, hSreg⟩
    · rw [patience, if_neg (by simp [hIdle])]
      split_ifs <;> decide
    · rw [patience_busy hBusy hk hSreg]
      omega
  have hDone : ∀ s, Timed s → patience s = 0 → s.wbAckO = true := by
    rintro s (⟨hIdle, hSreg⟩ | ⟨hBusy, k, hk, hSreg⟩) hZero
    · rw [patience, if_neg (by simp [hIdle])] at hZero
      split_ifs at hZero
    · rw [patience_busy hBusy hk hSreg] at hZero
      rw [WbSlave.wbAckO, hSreg, hZero]
      rfl
  have hStep : ∀ (i : SysIn) s, (i.bus.cyc && i.bus.stb) = true → Timed s → ¬s.wbAckO = true →
      Timed (s.clock i) ∧ patience (s.clock i) < patience s := fun i s hOn hTimed hAck => hTimed.step hOn hAck
  obtain ⟨first, rest, hSplit, hAck⟩ := reaches_of_decreasing patience hDone hStep strobes hStrobe hTimed
    (hPatience.trans hLong)
  refine ⟨first, rest, hSplit, ?_⟩
  rw [run_append]
  exact hAck

/-- A read of the test FIFO. -/
theorem acknowledged_fifo :
    let read (levels : DeviceIn) : SysIn := ⟨⟨true, true, false, 16, 0⟩, levels, 0, 0⟩
    let quiet : DeviceIn := ⟨false, false, false, false, false, true, true, 0, 0, 7, false, false, false, true, 0⟩
    ∃ first rest, List.replicate 9 (read quiet) = first ++ rest ∧ (run WbSlave.clock ([] ++ first) .reset).wbAckO = true := by
  intro read quiet
  refine acknowledged_within [] (fun i hi => ?_) (by decide)
  obtain rfl := List.eq_of_mem_replicate hi
  rfl

end WrRfDemo.Registers

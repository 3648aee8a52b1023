import WrRfDemo.Clocked.Program
import WrRfDemo.Memory.Fifo
import WrRfDemo.Registers.Handshake

/-! # Programs of the host

The register block with the two FIFOs of its test mode, and a master that keeps its request up until the acknowledge.
Each of its accesses is one step of a memory with two queues, at some cycle between its begin and its end. The FIFOs are any that
obey the rules of their ports.
-/

namespace WrRfDemo.Registers

open Clocked Memory

structure Ports where
  pd : ReadPort (BitVec 16)
  tune : WritePort (BitVec 32)

structure Host (ports : Ports) where
  slave : WbSlave
  pd : ports.pd.state
  tune : ports.tune.state
  now : Nat

/-- `g_size` of the FIFOs. -/
def fifoSize : Nat := 512

structure Ports.Obey (ports : Ports) : Prop where
  pd : ports.pd.Obeys
  tune : ports.tune.Obeys fifoSize

namespace Host

variable {ports : Ports}

def reset (pd : ports.pd.state) (tune : ports.tune.state) : Host ports := ⟨.reset, pd, tune, 0⟩

def wired (e : SysIn) (bus : BusIn) (s : Host ports) : SysIn :=
  { e with
    bus := bus
    device := { e.device with
      pdFifoOut := ports.pd.data s.pd
      pdFifoEmpty := ports.pd.empty s.pd
      tuneFifoFull := ports.tune.full s.tune } }

variable (around : Nat → SysIn)

def clock (bus : BusIn) (s : Host ports) : Host ports where
  slave := s.slave.clock (s.wired (around s.now) bus)
  pd := ports.pd.step s.now s.slave.pdFifoRdreq s.pd
  tune := ports.tune.step s.now (if s.slave.tuneFifoWrreq then some s.slave.tuneFifoIn else none) s.tune
  now := s.now + 1

def idle : Nat → Host ports → Host ports
  | 0, s => s
  | n + 1, s => idle n (s.clock around { (around s.now).bus with stb := false })

/-- A request that stays up until its acknowledge, at most for these cycles. -/
def await (bus : BusIn) : Nat → Host ports → Option (BitVec 32 × Host ports)
  | 0, _ => none
  | limit + 1, s =>
    if s.slave.wbAckO then some (s.slave.rddataReg, s.clock around bus) else await bus limit (s.clock around bus)

variable (gap : Nat → Nat)

/-- The block decodes the bits 6 to 2 of an address. -/
def transfer (we : Bool) (adr dat : BitVec 32) (s : Host ports) : Option (BitVec 32 × Host ports) :=
  (s.idle around (gap s.now)).await around ⟨true, true, we, field 2 5 adr, dat⟩ 10

/-- `rf_readl` and `rf_writel`, each after a gap. -/
def bus : Bus (BitVec 32) (BitVec 32) (Host ports) where
  read adr s := s.transfer around gap false adr 0
  write adr data s := (s.transfer around gap true adr data).map Prod.snd

end Host

/-! ### What a program is to see -/

/-- A memory of the words, with the FIFOs. -/
structure Card where
  memory : Reg → BitVec 32
  pd : Fifo (BitVec 16)
  tune : Fifo (BitVec 32)

def regAt (adr : BitVec 32) : Reg := Reg.decode (field 2 5 adr)

namespace Card

def after (we : Bool) (r : Reg) (dat : BitVec 32) (m : Card) : Card where
  memory := if we then Function.update m.memory r (dat &&& r.shown) else m.memory
  pd := if r = .pdFifoR0 then m.pd.take 1 else m.pd
  tune := if we ∧ r = .tuneFifoR0 ∧ m.tune.content.length < fifoSize then m.tune.put [dat] else m.tune

structure Access (we : Bool) (r : Reg) (dat : BitVec 32) (m : Card) (v : BitVec 32) (m' : Card) : Prop where
  memory : v &&& r.shown = m.memory r
  word : r = .pdFifoR0 → ∀ x ∈ m.pd.content.head?, field 0 16 v = x
  empty : r = .pdFifoCsr → (v.getLsbD 17 = true ↔ m.pd.content = [])
  full : r = .tuneFifoCsr → (v.getLsbD 16 = true ↔ fifoSize ≤ m.tune.content.length)
  after : m' = m.after we r dat

/-- The reference clock writes to the one FIFO and takes from the other. -/
structure Moves (m m' : Card) : Prop where
  memory : m'.memory = m.memory
  pd : m.pd.Fills m'.pd
  tune : m.tune.Drains m'.tune

theorem Moves.refl (m : Card) : Moves m m := ⟨rfl, .refl _, .refl _⟩

theorem Moves.trans {m m₁ m' : Card} (h : Moves m m₁) (h' : Moves m₁ m') : Moves m m' :=
  ⟨h'.memory.trans h.memory, h.pd.trans h'.pd, h.tune.trans h'.tune⟩

def device : Device (BitVec 32) (BitVec 32) Card where
  Reads adr m v m' := Access false (regAt adr) 0 m v m'
  Writes adr data m m' := ∃ v, Access true (regAt adr) data m v m'
  Moves := Moves

end Card

variable {ports : Ports}

def Host.card (s : Host ports) : Card := ⟨fun r => s.slave.bank r &&& r.shown, ports.pd.history s.pd, ports.tune.history s.tune⟩

/-! ### Between two accesses -/

/-- The block between two accesses, with no request to a FIFO. -/
structure Resting (s : WbSlave) : Prop where
  inProgress : s.ackInProgress = false
  sreg : s.ackSreg = 0
  hit : s.hitCnt.inProgress = false
  miss : s.missCnt.inProgress = false
  rdreq : s.pdFifoRdreq = false
  rdreqD0 : s.pdFifoRdreqD0 = false
  wrreq : s.tuneFifoWrreq = false

theorem resting_reset : Resting .reset := ⟨rfl, rfl, rfl, rfl, rfl, rfl, rfl⟩

def logOf (s : WbSlave) : BusLog := ⟨0, fun r => s.bank r &&& r.shown, [], []⟩

theorem Resting.idle {s : WbSlave} (h : Resting s) : Idle (logOf s) s := ⟨h.inProgress, .nil, h.sreg, h.hit, h.miss⟩

theorem serving_logOf {s : WbSlave} (h : Idle (logOf s) s) : Serving (logOf s) s := ⟨fun _ => rfl, .inl h⟩

variable (around : Nat → SysIn) (gap : Nat → Nat) {s : Host ports} (bus : BusIn)

theorem fills_clock (hPorts : ports.Obey) (s : Host ports) :
    (if s.slave.pdFifoRdreq then s.card.pd.take 1 else s.card.pd).Fills (s.clock around bus).card.pd := by
  obtain ⟨words, hStep⟩ := hPorts.pd.step s.now s.slave.pdFifoRdreq s.pd
  change Fifo.Fills _ (ports.pd.history (ports.pd.step s.now s.slave.pdFifoRdreq s.pd))
  rw [hStep]
  exact Fifo.fills_put _ _

theorem drains_clock (hPorts : ports.Obey) (s : Host ports) :
    (if s.slave.tuneFifoWrreq ∧ s.card.tune.content.length < fifoSize then s.card.tune.put [s.slave.tuneFifoIn]
      else s.card.tune).Drains (s.clock around bus).card.tune := by
  obtain ⟨n, hStep⟩ :=
    hPorts.tune.step s.now (if s.slave.tuneFifoWrreq then some s.slave.tuneFifoIn else none) s.tune
  have hWords : ∀ f : Fifo (BitVec 32), f.put (if f.content.length < fifoSize then
      (if s.slave.tuneFifoWrreq then some s.slave.tuneFifoIn else none).toList else []) =
      if s.slave.tuneFifoWrreq ∧ f.content.length < fifoSize then f.put [s.slave.tuneFifoIn] else f := by
    intro f
    cases s.slave.tuneFifoWrreq <;> split_ifs <;> simp_all [Fifo.put_nil]
  rw [hWords] at hStep
  change Fifo.Drains _ (ports.tune.history (ports.tune.step s.now _ s.tune))
  rw [hStep]
  exact Fifo.drains_take _ _

theorem fifos_clock (hPorts : ports.Obey) (hRdreq : s.slave.pdFifoRdreq = false) (hWrreq : s.slave.tuneFifoWrreq = false) :
    s.card.pd.Fills (s.clock around bus).card.pd ∧ s.card.tune.Drains (s.clock around bus).card.tune := by
  have hFills := fills_clock around bus hPorts s
  have hDrains := drains_clock around bus hPorts s
  rw [hRdreq] at hFills
  rw [hWrreq, if_neg (by simp)] at hDrains
  exact ⟨hFills, hDrains⟩

theorem moves_clock (hPorts : ports.Obey) (hRdreq : s.slave.pdFifoRdreq = false) (hWrreq : s.slave.tuneFifoWrreq = false)
    (hMemory : (s.clock around bus).card.memory = s.card.memory) : Card.Moves s.card (s.clock around bus).card :=
  ⟨hMemory, (fifos_clock around bus hPorts hRdreq hWrreq).1, (fifos_clock around bus hPorts hRdreq hWrreq).2⟩

theorem card_memory_clock {o : BusLog} (hServing : Serving o s.slave) (r : Reg) :
    (s.clock around bus).card.memory r = (o.see (s.wired (around s.now) bus) s.slave).memory r :=
  (hServing.step (s.wired (around s.now) bus)).memory r

theorem card_memory_quiet {o : BusLog} (hServing : Serving o s.slave) (hBegins : BusLog.begins bus s.slave = false) :
    (s.clock around bus).card.memory = s.card.memory := by
  funext r
  rw [card_memory_clock around bus hServing, see_of_not_begins hBegins]
  exact (hServing.memory r).symm

theorem Resting.clock_idle (h : Resting s.slave) (hPorts : ports.Obey) (hStrobe : (bus.cyc && bus.stb) = false) :
    Resting (s.clock around bus).slave ∧ Card.Moves s.card (s.clock around bus).card := by
  have hClock : (s.clock around bus).slave = s.slave.beside s.slave.shift := WbSlave.clock_idle h.inProgress hStrobe
  have hMemory : (s.clock around bus).card.memory = s.card.memory := by
    apply card_memory_quiet around bus (serving_logOf h.idle)
    simp [BusLog.begins, hStrobe]
  refine ⟨?_, moves_clock around bus hPorts h.rdreq h.wrreq hMemory⟩
  rw [hClock]
  refine ⟨h.inProgress, ?_, h.hit, h.miss, h.rdreq, h.rdreq, h.wrreq⟩
  change s.slave.ackSreg >>> 1 = 0
  rw [h.sreg]
  rfl

theorem Resting.idles (h : Resting s.slave) (hPorts : ports.Obey) (n : Nat) :
    Resting (s.idle around n).slave ∧ Card.Moves s.card (s.idle around n).card := by
  induction n generalizing s with
  | zero => exact ⟨h, .refl _⟩
  | succ n ih =>
    obtain ⟨hNext, hFirst⟩ := h.clock_idle around { (around s.now).bus with stb := false } hPorts (Bool.and_false _)
    obtain ⟨hEnd, hRest⟩ := ih hNext
    exact ⟨hEnd, hFirst.trans hRest⟩


/-! ### One access -/

theorem begin_access (we : Bool) {adr : BitVec 5} (dat : BitVec 32) (hIdle : Idle (logOf s.slave) s.slave)
    (hGranted : s.slave.granted (Reg.decode adr) = true) (hRdreq : s.slave.pdFifoRdreq = false)
    (hWrreq : s.slave.tuneFifoWrreq = false) :
    let s' := s.clock around ⟨true, true, we, adr, dat⟩
    Waiting ((logOf s.slave).see (s.wired (around s.now) ⟨true, true, we, adr, dat⟩) s.slave) s'.slave []
        ⟨0, Reg.decode adr, we, dat, s.card.memory (Reg.decode adr)⟩ (Reg.decode adr).ackBit ∧
      s'.slave.pdFifoRdreq = false ∧ s'.slave.pdFifoRdreqD0 = false ∧
      s'.slave.tuneFifoWrreq = (we && decide (Reg.decode adr = .tuneFifoR0)) ∧
      (we = true → Reg.decode adr = .tuneFifoR0 → s'.slave.tuneFifoIn = dat) ∧
      s'.slave.rddataReg = (readout (s.wired (around s.now) ⟨true, true, we, adr, dat⟩).device true
        (s.slave.bank (Reg.decode adr)) (Reg.decode adr)).onto (around s.now).device.undefined s.slave.rddataReg := by
  intro s'
  let i := s.wired (around s.now) ⟨true, true, we, adr, dat⟩
  have hBegins : BusLog.begins i.bus s.slave = true := by
    simp [BusLog.begins, hIdle.inProgress, hGranted, i, Host.wired]
  have hClock : s'.slave = s.slave.beside (s.slave.shift.access i) := WbSlave.clock_access hIdle.inProgress rfl
  have hShift : s.slave.shift.granted (Reg.decode i.bus.adr) = true := hGranted
  refine ⟨hIdle.begin (fun _ => rfl) hBegins, ?_, ?_, ?_, ?_, ?_⟩ <;> rw [hClock]
  · change (if s.slave.shift.granted (Reg.decode i.bus.adr) = true then s.slave.pdFifoRdreq else _) = false
    rw [if_pos hShift, hRdreq]
  · exact hRdreq
  · change (if we = true ∧ Reg.decode adr = .tuneFifoR0 then true else s.slave.tuneFifoWrreq) = _
    rw [hWrreq]
    cases we <;> simp
  · intro hWe hReg
    exact if_pos ⟨hWe, hReg⟩
  · change (readout i.device (s.slave.shift.granted (Reg.decode i.bus.adr)) _ _).onto _ _ = _
    rw [hShift]
    rfl

theorem finish_access {o : BusLog} {earlier : List Access} {a : Access} (h : Waiting o s.slave earlier a 0)
    (hRdreq : s.slave.pdFifoRdreq = false) (limit : Nat) :
    s.await around bus (limit + 1) = some (s.slave.rddataReg, s.clock around bus) ∧ Resting (s.clock around bus).slave := by
  have hAck : s.slave.wbAckO = true := by
    rw [WbSlave.wbAckO, h.sreg]
    rfl
  have hClock : (s.clock around bus).slave = s.slave.beside s.slave.shift.finish := WbSlave.clock_ack h.inProgress hAck
  have hIdle := h.finish (s.wired (around s.now) bus)
  refine ⟨by rw [Host.await, if_pos hAck], hIdle.inProgress, hIdle.sreg, hIdle.hit, hIdle.miss, ?_, ?_, ?_⟩ <;> rw [hClock]
  · exact hRdreq
  · exact hRdreq
  · rfl

theorem await_access (hPorts : ports.Obey) {o : BusLog} {earlier : List Access} {a : Access} {k : Nat} (h : Waiting o s.slave earlier a k)
    (hServing : Serving o s.slave) (hRdreq : s.slave.pdFifoRdreq = false) (hWrreq : s.slave.tuneFifoWrreq = false)
    (limit : Nat) :
    ∃ v s', s.await around bus (limit + k + 1) = some (v, s') ∧ v &&& a.reg.shown = a.memory ∧ Resting s'.slave ∧
      Card.Moves s.card s'.card ∧ (k = 0 → v = s.slave.rddataReg) := by
  have hQuiet : (s.clock around bus).card.memory = s.card.memory :=
    card_memory_quiet around bus hServing (begins_of_inProgress h.inProgress bus)
  induction k generalizing o s with
  | zero =>
    obtain ⟨hAwait, hResting⟩ := finish_access around bus h hRdreq limit
    exact ⟨_, _, hAwait, h.data, hResting, moves_clock around bus hPorts hRdreq hWrreq hQuiet, fun _ => rfl⟩
  | succ k ih =>
    have hAck : s.slave.wbAckO = false := by
      rw [WbSlave.wbAckO, h.sreg, getLsbD_twoPow h.soon]
      rfl
    have hClock : (s.clock around bus).slave =
        s.slave.beside (s.slave.shift.wait (s.wired (around s.now) bus) (s.slave.ackSreg.getLsbD 1)) :=
      WbSlave.clock_wait h.inProgress hAck
    have hNext := h.wait (s.wired (around s.now) bus)
    have hLater := hServing.step (s.wired (around s.now) bus)
    have hFirst := moves_clock around bus hPorts hRdreq hWrreq hQuiet
    obtain ⟨v, s', hAwait, hData, hResting, hRest, -⟩ := ih (s := s.clock around bus) hNext hLater
      (by rw [hClock]; exact hRdreq) (by rw [hClock]; exact hWrreq)
      (card_memory_quiet around bus hLater (begins_of_inProgress hNext.inProgress bus))
    refine ⟨v, s', ?_, hData, hResting, hFirst.trans hRest, fun hZero => absurd hZero (Nat.succ_ne_zero k)⟩
    rw [Host.await, if_neg (by simp [hAck])]
    exact hAwait

theorem flags_onto (full empty : Bool) (x old : BitVec 32) :
    ((Readout.word 0x30000 (bitAt 16 full ||| bitAt 17 empty)).onto x old).getLsbD 16 = full ∧
      ((Readout.word 0x30000 (bitAt 16 full ||| bitAt 17 empty)).onto x old).getLsbD 17 = empty := by
  cases full <;> cases empty <;> simp [Readout.onto, Readout.word, bitAt]

theorem begin_memory {we : Bool} {adr : BitVec 5} {dat : BitVec 32} (hIdle : Idle (logOf s.slave) s.slave)
    (hGranted : s.slave.granted (Reg.decode adr) = true) :
    (s.clock around ⟨true, true, we, adr, dat⟩).card.memory = (s.card.after we (Reg.decode adr) dat).memory := by
  have hBegins : BusLog.begins ⟨true, true, we, adr, dat⟩ s.slave = true := by
    simp [BusLog.begins, hIdle.inProgress, hGranted]
  funext r
  rw [card_memory_clock around _ (serving_logOf hIdle), BusLog.see]
  change (if (BusLog.begins ⟨true, true, we, adr, dat⟩ s.slave && we) = true then
    Function.update s.card.memory (Reg.decode adr) (dat &&& (Reg.decode adr).shown) else s.card.memory) r = _
  rw [hBegins, Bool.true_and]
  rfl

theorem after_memory {r : Reg} (hNone : r.shown = 0#32) (we : Bool) (dat : BitVec 32) (s : Host ports) :
    (s.card.after we r dat).memory = s.card.memory := by
  have hOwn : s.card.memory r = dat &&& r.shown := by
    change s.slave.bank r &&& r.shown = _
    rw [hNone, BitVec.and_zero, BitVec.and_zero]
  change (if we = true then Function.update s.card.memory r (dat &&& r.shown) else s.card.memory) = _
  rw [← hOwn, Function.update_eq_self, ite_self]

/-- A word that is written to the test FIFO goes in with the acknowledge. -/
theorem transfer_tune (hPorts : ports.Obey) {adr : BitVec 5} (dat : BitVec 32) (hResting : Resting s.slave)
    (hReg : Reg.decode adr = .tuneFifoR0) (limit : Nat) :
    ∃ v s' m₁ m₂, s.await around ⟨true, true, true, adr, dat⟩ (limit + 2) = some (v, s') ∧ Resting s'.slave ∧
      Card.Moves s.card m₁ ∧ Card.Access true .tuneFifoR0 dat m₁ v m₂ ∧ Card.Moves m₂ s'.card := by
  have hGranted : s.slave.granted (Reg.decode adr) = true := WbSlave.granted_of_ne (by rw [hReg]; decide) _
  let s₁ := s.clock around ⟨true, true, true, adr, dat⟩
  obtain ⟨hWaiting, hRdreq, -, hWrreq, hIn, -⟩ :=
    begin_access around true dat hResting.idle hGranted hResting.rdreq hResting.wrreq
  have hMemory : s₁.card.memory = s.card.memory := by
    rw [begin_memory around hResting.idle hGranted, hReg]
    exact after_memory rfl _ _ _
  have hLater : Serving ((logOf s.slave).see (s.wired (around s.now) ⟨true, true, true, adr, dat⟩) s.slave) s₁.slave :=
    (serving_logOf hResting.idle).step _
  rw [hReg] at hWaiting
  obtain ⟨hAwait, hEnd⟩ := finish_access around ⟨true, true, true, adr, dat⟩ hWaiting hRdreq limit
  have hQuiet := card_memory_quiet around ⟨true, true, true, adr, dat⟩ hLater
    (begins_of_inProgress hWaiting.inProgress _)
  have hNone : s.slave.wbAckO = false := by
    rw [WbSlave.wbAckO, hResting.sreg]
    rfl
  refine ⟨_, _, s₁.card, s₁.card.after true .tuneFifoR0 dat, ?_, hEnd, moves_clock around _ hPorts hResting.rdreq hResting.wrreq hMemory,
    ⟨hWaiting.data.trans ?_, ?_, ?_, ?_, rfl⟩, ?_, ?_, ?_⟩
  · rw [Host.await, if_neg (by simp [hNone])]
    exact hAwait
  · rw [hMemory]
  · exact fun hOther => absurd hOther (by decide)
  · exact fun hOther => absurd hOther (by decide)
  · exact fun hOther => absurd hOther (by decide)
  · exact hQuiet.trans (after_memory rfl _ _ _).symm
  · have hFills := fills_clock around ⟨true, true, true, adr, dat⟩ hPorts s₁
    rwa [hRdreq] at hFills
  · have hOn : s₁.slave.tuneFifoWrreq = true := hWrreq.trans (by rw [hReg]; rfl)
    have hWord : s₁.slave.tuneFifoIn = dat := hIn rfl hReg
    have hDrains := drains_clock around ⟨true, true, true, adr, dat⟩ hPorts s₁
    rw [hOn, hWord] at hDrains
    change Fifo.Drains (if true = true ∧ Reg.tuneFifoR0 = .tuneFifoR0 ∧ s₁.card.tune.content.length < fifoSize then
      s₁.card.tune.put [dat] else s₁.card.tune) _
    simpa only [true_and] using hDrains

theorem transfer_word (hPorts : ports.Obey) {we : Bool} {adr : BitVec 5} (dat : BitVec 32) (hResting : Resting s.slave)
    (hPd : Reg.decode adr ≠ .pdFifoR0) (hTune : ¬(we = true ∧ Reg.decode adr = .tuneFifoR0)) :
    ∃ v s' m₁ m₂, s.await around ⟨true, true, we, adr, dat⟩ 10 = some (v, s') ∧ Resting s'.slave ∧
      Card.Moves s.card m₁ ∧ Card.Access we (Reg.decode adr) dat m₁ v m₂ ∧ Card.Moves m₂ s'.card := by
  have hGranted : s.slave.granted (Reg.decode adr) = true := WbSlave.granted_of_ne hPd _
  let s₁ := s.clock around ⟨true, true, we, adr, dat⟩
  obtain ⟨hWaiting, hRdreq, -, hWrreq, -, hData⟩ :=
    begin_access around we dat hResting.idle hGranted hResting.rdreq hResting.wrreq
  have hNoWrreq : s₁.slave.tuneFifoWrreq = false := by
    rw [hWrreq]
    simpa using hTune
  have hLater : Serving ((logOf s.slave).see (s.wired (around s.now) ⟨true, true, we, adr, dat⟩) s.slave) s₁.slave :=
    (serving_logOf hResting.idle).step _
  have hShort := ackBit_le (Reg.decode adr)
  obtain ⟨v, s', hAwait, hShown, hEnd, hRest, hNow⟩ := await_access around ⟨true, true, we, adr, dat⟩ hPorts hWaiting hLater hRdreq
    hNoWrreq (8 - (Reg.decode adr).ackBit)
  have hNone : s.slave.wbAckO = false := by
    rw [WbSlave.wbAckO, hResting.sreg]
    rfl
  obtain ⟨hFills, hDrains⟩ := fifos_clock around ⟨true, true, we, adr, dat⟩ hPorts hResting.rdreq hResting.wrreq
  have hFirst : Card.Moves (s.card.after we (Reg.decode adr) dat) s₁.card := by
    refine ⟨begin_memory around hResting.idle hGranted, ?_, ?_⟩
    · change Fifo.Fills (if Reg.decode adr = .pdFifoR0 then _ else s.card.pd) _
      rwa [if_neg hPd]
    · change Fifo.Drains (if we = true ∧ Reg.decode adr = .tuneFifoR0 ∧ _ then _ else s.card.tune) _
      rwa [if_neg (by rw [← and_assoc]; exact fun h => hTune h.1)]
  have hEmpty : Reg.decode adr = .pdFifoCsr → v.getLsbD 17 = ports.pd.empty s.pd := by
    intro hReg
    rw [hNow (by rw [hReg]; rfl), hData, hReg]
    exact (flags_onto _ _ _ _).2
  have hFull : Reg.decode adr = .tuneFifoCsr → v.getLsbD 16 = ports.tune.full s.tune := by
    intro hReg
    rw [hNow (by rw [hReg]; rfl), hData, hReg]
    exact (flags_onto _ _ _ _).1
  refine ⟨v, s', s.card, _, ?_, hEnd, .refl _, ⟨hShown, fun hOther => absurd hOther hPd, ?_, ?_, rfl⟩, hFirst.trans hRest⟩
  · have hLimit : 8 - (Reg.decode adr).ackBit + (Reg.decode adr).ackBit + 1 = 9 := by omega
    rw [hLimit] at hAwait
    rw [Host.await, if_neg (by simp [hNone])]
    exact hAwait
  · intro hReg
    rw [hEmpty hReg]
    exact hPorts.pd.empty s.pd
  · intro hReg
    rw [hFull hReg]
    exact hPorts.tune.full s.tune

theorem word_onto (out : BitVec 16) (x old : BitVec 32) :
    field 0 16 ((⟨0xffff, out.setWidth 32, 0xffff0000⟩ : Readout).onto x old) = out := by
  have hIn : ∀ k < 16, (0xffff : BitVec 32).getLsbD k = true ∧ (0xffff0000 : BitVec 32).getLsbD k = false := by decide
  apply BitVec.eq_of_getLsbD_eq
  intro k hk
  simp only [field, Readout.onto, BitVec.getLsbD_extractLsb', BitVec.getLsbD_or, BitVec.getLsbD_and, BitVec.getLsbD_not,
    BitVec.getLsbD_setWidth, Nat.zero_add]
  rw [(hIn k hk).1, (hIn k hk).2]
  simp [hk, Nat.lt_trans hk (by decide : 16 < 32)]

theorem request_clock (hPorts : ports.Obey) (we : Bool) {adr : BitVec 5} (dat : BitVec 32) (hIdle : Idle (logOf s.slave) s.slave)
    (hReg : Reg.decode adr = .pdFifoR0) (hD0 : s.slave.pdFifoRdreqD0 = false) (hWrreq : s.slave.tuneFifoWrreq = false) :
    let s' := s.clock around ⟨true, true, we, adr, dat⟩
    s.slave.wbAckO = false ∧ Idle (logOf s'.slave) s'.slave ∧ s'.card.memory = s.card.memory ∧
      s'.slave.pdFifoRdreq = !s.slave.pdFifoRdreq ∧ s'.slave.pdFifoRdreqD0 = s.slave.pdFifoRdreq ∧
      s'.slave.tuneFifoWrreq = false ∧ s.card.tune.Drains s'.card.tune := by
  intro s'
  let i := s.wired (around s.now) ⟨true, true, we, adr, dat⟩
  have hGranted : s.slave.granted (Reg.decode adr) = false := by
    rw [WbSlave.granted, hReg, hD0]
    rfl
  have hBegins : BusLog.begins i.bus s.slave = false := by
    simp [BusLog.begins, hGranted, i, Host.wired]
  have hClock : s'.slave = s.slave.beside (s.slave.shift.access i) := WbSlave.clock_access hIdle.inProgress rfl
  have hShift : s.slave.shift.granted (Reg.decode i.bus.adr) = false := hGranted
  have hStay := hIdle.stay hBegins
  have hNoWrreq : s'.slave.tuneFifoWrreq = false := by
    rw [hClock]
    change (if we = true ∧ Reg.decode adr = .tuneFifoR0 then true else s.slave.tuneFifoWrreq) = false
    rw [hReg, if_neg (by simp), hWrreq]
  refine ⟨?_, ⟨hStay.inProgress, .nil, hStay.sreg, hStay.hit, hStay.miss⟩,
    card_memory_quiet around _ (serving_logOf hIdle) hBegins, ?_, ?_, hNoWrreq, ?_⟩
  · rw [WbSlave.wbAckO, hIdle.sreg]
    rfl
  · rw [hClock]
    change (if s.slave.shift.granted (Reg.decode i.bus.adr) = true then _ else !s.slave.pdFifoRdreq) = _
    rw [hShift, if_neg (by decide)]
  · rw [hClock]
    rfl
  · have hDrains := drains_clock around ⟨true, true, we, adr, dat⟩ hPorts s
    rwa [hWrreq, if_neg (by simp)] at hDrains

/-- An access to the test FIFO: the word is asked for, taken, and shown. -/
theorem transfer_pd (hPorts : ports.Obey) {we : Bool} {adr : BitVec 5} (dat : BitVec 32) (hResting : Resting s.slave)
    (hReg : Reg.decode adr = .pdFifoR0) (limit : Nat) :
    ∃ v s' m₁ m₂, s.await around ⟨true, true, we, adr, dat⟩ (limit + 4) = some (v, s') ∧ Resting s'.slave ∧
      Card.Moves s.card m₁ ∧ Card.Access we .pdFifoR0 dat m₁ v m₂ ∧ Card.Moves m₂ s'.card := by
  let bus : BusIn := ⟨true, true, we, adr, dat⟩
  let s₁ := s.clock around bus
  let s₂ := s₁.clock around bus
  let s₃ := s₂.clock around bus
  obtain ⟨hNone, hIdle₁, hMemory₁, hRdreq₁, hD0₁, hWrreq₁, -⟩ :=
    request_clock around hPorts we dat hResting.idle hReg hResting.rdreqD0 hResting.wrreq
  rw [hResting.rdreq] at hRdreq₁ hD0₁
  obtain ⟨hNone₁, hIdle₂, hMemory₂, hRdreq₂, hD0₂, hWrreq₂, hDrains₂⟩ :=
    request_clock around hPorts we dat hIdle₁ hReg hD0₁ hWrreq₁
  rw [hRdreq₁] at hRdreq₂ hD0₂
  have hGranted : s₂.slave.granted (Reg.decode adr) = true := by
    rw [WbSlave.granted, hD0₂]
    simp
  have hNone₂ : s₂.slave.wbAckO = false := by
    rw [WbSlave.wbAckO, hIdle₂.sreg]
    rfl
  obtain ⟨hWaiting, hRdreq₃, -, hWrreq₃, -, hData⟩ := begin_access around we dat hIdle₂ hGranted hRdreq₂ hWrreq₂
  have hNoWrreq₃ : s₃.slave.tuneFifoWrreq = false := by
    rw [hWrreq₃, hReg]
    simp
  have hLater : Serving ((logOf s₂.slave).see (s₂.wired (around s₂.now) bus) s₂.slave) s₃.slave :=
    (serving_logOf hIdle₂).step _
  rw [hReg] at hWaiting
  obtain ⟨v, s', hAwait, hShown, hEnd, hRest, hNow⟩ := await_access around bus hPorts hWaiting hLater hRdreq₃ hNoWrreq₃ limit
  have hWord : field 0 16 v = ports.pd.data s₂.pd := by
    rw [hNow rfl, hData, hReg]
    exact word_onto _ _ _
  have hTaken : Card.Moves (s₁.card.after we .pdFifoR0 dat) s₂.card := by
    refine ⟨hMemory₂.trans (after_memory rfl _ _ _).symm, ?_, ?_⟩
    · have hFills := fills_clock around bus hPorts s₁
      rwa [hRdreq₁] at hFills
    · change Fifo.Drains (if we = true ∧ Reg.pdFifoR0 = .tuneFifoR0 ∧ _ then _ else s₁.card.tune) _
      rw [if_neg (by simp)]
      exact hDrains₂
  have hGoesOn : Card.Moves s₂.card s₃.card := by
    apply moves_clock around bus hPorts hRdreq₂ hWrreq₂
    rw [begin_memory around hIdle₂ hGranted, hReg]
    exact after_memory rfl _ _ _
  refine ⟨v, s', s₁.card, s₁.card.after we .pdFifoR0 dat, ?_, hEnd, moves_clock around bus hPorts hResting.rdreq hResting.wrreq hMemory₁,
    ⟨?_, ?_, ?_, ?_, rfl⟩, hTaken.trans (hGoesOn.trans hRest)⟩
  · rw [Host.await, if_neg (by simp [hNone]), Host.await, if_neg (by simp [hNone₁]), Host.await,
      if_neg (by simp [s₂, s₁, bus, hNone₂])]
    exact hAwait
  · exact BitVec.and_zero.trans BitVec.and_zero.symm
  · intro _ x hx
    have hShows : ports.pd.data (ports.pd.step s₁.now s₁.slave.pdFifoRdreq s₁.pd) = x := by
      rw [hRdreq₁]
      exact hPorts.pd.data s₁.now s₁.pd x hx
    exact hWord.trans hShows
  · exact fun hOther => absurd hOther (by decide)
  · exact fun hOther => absurd hOther (by decide)

/-- However long the gap, a transfer returns, and is one step of the memory with its FIFOs. -/
theorem Resting.transfer (hResting : Resting s.slave) (hPorts : ports.Obey) (we : Bool) (adr dat : BitVec 32) :
    ∃ v s' m₁ m₂, s.transfer around gap we adr dat = some (v, s') ∧ Resting s'.slave ∧ Card.Moves s.card m₁ ∧
      Card.Access we (regAt adr) dat m₁ v m₂ ∧ Card.Moves m₂ s'.card := by
  obtain ⟨hIdle, hGap⟩ := hResting.idles around hPorts (gap s.now)
  by_cases hPd : regAt adr = .pdFifoR0
  · obtain ⟨v, s', m₁, m₂, hAwait, hEnd, hBefore, hAccess, hAfter⟩ := transfer_pd around hPorts dat hIdle hPd 6
    exact ⟨v, s', m₁, m₂, hAwait, hEnd, hGap.trans hBefore, hPd ▸ hAccess, hAfter⟩
  · by_cases hTune : we = true ∧ regAt adr = .tuneFifoR0
    · obtain ⟨rfl, hReg⟩ := hTune
      obtain ⟨v, s', m₁, m₂, hAwait, hEnd, hBefore, hAccess, hAfter⟩ := transfer_tune around hPorts dat hIdle hReg 8
      exact ⟨v, s', m₁, m₂, hAwait, hEnd, hGap.trans hBefore, hReg ▸ hAccess, hAfter⟩
    · obtain ⟨v, s', m₁, m₂, hAwait, hEnd, hBefore, hAccess, hAfter⟩ := transfer_word around hPorts dat hIdle hPd hTune
      exact ⟨v, s', m₁, m₂, hAwait, hEnd, hGap.trans hBefore, hAccess, hAfter⟩

theorem host_implements (hPorts : ports.Obey) :
    Implements (Host.bus around gap) Card.device (fun s : Host ports => Resting s.slave) Host.card := by
  constructor
  · intro adr s hResting
    exact hResting.transfer around gap hPorts false adr 0
  · intro adr data s hResting
    obtain ⟨v, s', m₁, m₂, hTransfer, hEnd, hBefore, hAccess, hAfter⟩ := hResting.transfer around gap hPorts true adr data
    exact ⟨s', m₁, m₂, congrArg (Option.map Prod.snd) hTransfer, hEnd, hBefore, ⟨v, hAccess⟩, hAfter⟩

/-- Every program of reads and writes returns on the bus, with any gaps between its accesses and whatever is done at the FIFOs' far
ends, and each of its accesses is one step of the memory with the FIFOs. -/
theorem program_on_bus {α : Type} (p : Program (BitVec 32) (BitVec 32) α) (hPorts : ports.Obey) (hResting : Resting s.slave) :
    ∃ x s', p.run (Host.bus around gap) s = some (x, s') ∧ Resting s'.slave ∧ Does Card.device p s.card x s'.card :=
  (host_implements around gap hPorts).run p hResting

/-- FIFOs through which these words come, and from which one word is taken in every cycle. -/
def testPorts (words : Nat → List (BitVec 16)) : Ports := ⟨Fifo.arriving words, Fifo.leaving fifoSize fun _ => 1⟩

theorem testPorts_obey (words : Nat → List (BitVec 16)) : (testPorts words).Obey :=
  ⟨Fifo.arriving_obeys words, Fifo.leaving_obeys fifoSize _⟩

def quietCycle : SysIn :=
  ⟨⟨true, true, true, 0, 7⟩, ⟨false, false, false, true, false, true, true, 0, 0, 7, false, false, false, true, 0⟩, 0, 0⟩

/-- After reset, a program that reads a word and writes it back. -/
theorem program_on_bus_reset :
    let p : Program (BitVec 32) (BitVec 32) Unit := .read 0x10 fun v => .write 0x10 v (.done ())
    let s : Host (testPorts fun _ => [3]) := .reset (.empty, 0) .empty
    ∃ s', p.run (Host.bus (fun _ => quietCycle) fun _ => 3) s = some ((), s') ∧ Resting s'.slave := by
  intro p s
  have hReset : Resting s.slave := resting_reset
  obtain ⟨_, s', hRun, hResting, -⟩ := program_on_bus _ (fun _ => 3) p (testPorts_obey _) hReset
  exact ⟨s', hRun, hResting⟩

end WrRfDemo.Registers

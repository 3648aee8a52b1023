import WrRfDemo.Clocked.Levels
import WrRfDemo.Registers.Handshake
import WrRfDemo.Spi.Adf4002

/-! # The drivers on the bus

The register block with the latch of `PLL_SDIO`, and a master that keeps its request up until the acknowledge. What a
driver sees of the pins through it is what it sees through the register alone: only the time between its
accesses is open.
-/

namespace WrRfDemo.Registers

open Clocked Spi

structure Board where
  slave : WbSlave
  pllSdioB : Bool
  now : Nat
  wave : List Pins

/-- What a read shows of the levels at the inputs. -/
def inputPins (d : DeviceIn) : InputPins := ⟨d.pllVcxoSdo, d.adcSdo, d.undefined⟩

namespace Board

def pins (s : Board) : Pins := ⟨s.slave.bank .gpior, s.pllSdioB⟩

variable (around : Nat → SysIn)

/-- The inputs of a cycle: `pll_vcxo_sdo_i` is at both of the serial inputs. -/
def wired (i : SysIn) (bus : BusIn) : SysIn :=
  { i with bus := bus, device := { i.device with pllSdio := i.device.pllVcxoSdo } }

/-- A cycle of `clk_sys_i`: the latch takes what is on the bus then. -/
def clock (bus : BusIn) (s : Board) : Board :=
  let slave := s.slave.clock (wired (around s.now) bus)
  let sdio := if s.slave.sdioLoad then bus.dat.getLsbD 3 else s.pllSdioB
  ⟨slave, sdio, s.now + 1, s.wave ++ [⟨slave.bank .gpior, sdio⟩]⟩

def idle : Nat → Board → Board
  | 0, s => s
  | n + 1, s => idle n (s.clock around { (around s.now).bus with stb := false })

/-- A request that stays up until its acknowledge, at most for these cycles. -/
def await (bus : BusIn) : Nat → Board → Option (BitVec 32 × Board)
  | 0, _ => none
  | limit + 1, s =>
    if s.slave.wbAckO then some (s.slave.rddataReg, s.clock around bus) else await bus limit (s.clock around bus)

variable (gap : Nat → Nat)

/-- `spec_readl` and `spec_writel` at `DDS_REG_GPIOR`, each after a gap. -/
def transfer (we : Bool) (dat : BitVec 32) (s : Board) : Option (BitVec 32 × Board) :=
  (s.idle around (gap s.now)).await around ⟨true, true, we, 1, dat⟩ 10

def busPort : Port (BitVec 32) Board where
  read s := s.transfer around gap false 0
  write data s := (s.transfer around gap true data).map Prod.snd

end Board

/-! ### One access -/

variable (around : Nat → SysIn) (gap : Nat → Nat)

/-- Between two accesses to the register. -/
structure Board.Quiet (s : Board) : Prop where
  inProgress : s.slave.ackInProgress = false
  sreg : s.slave.ackSreg = 0
  load : s.slave.sdioLoad = false

theorem Board.Quiet.idle {s : Board} (h : s.Quiet) (n : Nat) :
    (s.idle around n).Quiet ∧ (s.idle around n).pins = s.pins ∧
      (s.idle around n).wave = s.wave ++ List.replicate n s.pins ∧ (s.idle around n).now = s.now + n := by
  induction n generalizing s with
  | zero => exact ⟨h, rfl, (List.append_nil _).symm, rfl⟩
  | succ n ih =>
    let bus : BusIn := { (around s.now).bus with stb := false }
    have hClock : s.slave.clock (Board.wired (around s.now) bus) = s.slave.beside s.slave.shift :=
      WbSlave.clock_idle h.inProgress (Bool.and_false _)
    have hSdio : (s.clock around bus).pllSdioB = s.pllSdioB := by
      rw [Board.clock, h.load]
      rfl
    have hPins : (s.clock around bus).pins = s.pins := by
      rw [Board.pins, hSdio, Board.clock, hClock]
      rfl
    have hNext : (s.clock around bus).Quiet := by
      rw [Board.clock, hClock]
      refine ⟨h.inProgress, ?_, h.load⟩
      change s.slave.ackSreg >>> 1 = 0
      rw [h.sreg]
      rfl
    obtain ⟨hQuiet, hLater, hWave, hNow⟩ := ih hNext
    have hShown : (s.clock around bus).wave = s.wave ++ [s.pins] := by
      rw [← hPins]
      rfl
    refine ⟨hQuiet, hLater.trans hPins, ?_, ?_⟩
    · calc (Board.idle around (n + 1) s).wave
        _ = (s.clock around bus).wave ++ List.replicate n (s.clock around bus).pins := hWave
        _ = s.wave ++ List.replicate (n + 1) s.pins := by
          rw [hShown, hPins, List.append_assoc, List.singleton_append, List.replicate_succ]
    · exact hNow.trans (Nat.succ_add_eq_add_succ s.now n)

def shownAt (d : DeviceIn) (word old : BitVec 32) : BitVec 32 :=
  (readout { d with pllSdio := d.pllVcxoSdo } true word .gpior).onto d.undefined old

structure Board.Answering (we : Bool) (dat : BitVec 32) (s s' : Board) : Prop where
  inProgress : s'.slave.ackInProgress = true
  sreg : s'.slave.ackSreg = BitVec.twoPow 10 0
  load : s'.slave.sdioLoad = we
  word : s'.slave.bank .gpior = if we then dat &&& outputBits else s.slave.bank .gpior
  data : s'.slave.rddataReg = shownAt (around s.now).device (s.slave.bank .gpior) s.slave.rddataReg
  sdio : s'.pllSdioB = s.pllSdioB
  now : s'.now = s.now + 1
  wave : s'.wave = s.wave ++ [s'.pins]

theorem Board.Quiet.begin {s : Board} (h : s.Quiet) (we : Bool) (dat : BitVec 32) :
    Board.Answering around we dat s (s.clock around ⟨true, true, we, 1, dat⟩) := by
  let i := Board.wired (around s.now) ⟨true, true, we, 1, dat⟩
  have hClock : s.slave.clock i = s.slave.beside (s.slave.shift.access i) := WbSlave.clock_access h.inProgress rfl
  have hReg : Reg.decode 1 = .gpior := rfl
  have hBank : (s.slave.clock i).bank .gpior = if we then dat &&& outputBits else s.slave.bank .gpior := by
    rw [hClock]
    change (if we then Function.update s.slave.bank .gpior (dat &&& outputBits) else s.slave.bank) .gpior = _
    cases we <;> rfl
  have hSreg : (s.slave.clock i).ackSreg = BitVec.twoPow 10 0 := by
    rw [hClock]
    change s.slave.ackSreg >>> 1 ||| BitVec.twoPow 10 0 = _
    rw [h.sreg]
    rfl
  have hLoad : (s.slave.clock i).sdioLoad = we := by
    rw [hClock]
    change (if we = true ∧ Reg.decode 1 = .gpior then true else s.slave.sdioLoad) = we
    rw [h.load, hReg]
    cases we <;> rfl
  have hSdio : (s.clock around ⟨true, true, we, 1, dat⟩).pllSdioB = s.pllSdioB := by
    rw [Board.clock, h.load]
    rfl
  refine ⟨?_, hSreg, hLoad, hBank, ?_, hSdio, rfl, rfl⟩
  · change (s.slave.clock i).ackInProgress = true
    rw [hClock]
    rfl
  · change (s.slave.clock i).rddataReg = _
    rw [hClock]
    rfl

theorem Board.Answering.finish {we : Bool} {dat : BitVec 32} {s s' : Board}
    (h : Board.Answering around we dat s s') (adr : BitVec 5) :
    s'.slave.wbAckO = true ∧ (s'.clock around ⟨true, true, we, adr, dat⟩).Quiet ∧
      (s'.clock around ⟨true, true, we, adr, dat⟩).pins =
        ⟨s'.slave.bank .gpior, if we then dat.getLsbD 3 else s.pllSdioB⟩ ∧
      (s'.clock around ⟨true, true, we, adr, dat⟩).now = s.now + 2 := by
  let i := Board.wired (around s'.now) ⟨true, true, we, adr, dat⟩
  have hAck : s'.slave.wbAckO = true := by
    rw [WbSlave.wbAckO, h.sreg]
    rfl
  have hClock : s'.slave.clock i = s'.slave.beside s'.slave.shift.finish := WbSlave.clock_ack h.inProgress hAck
  have hSreg : s'.slave.shift.ackSreg = 0 := by
    rw [WbSlave.shift, h.sreg]
    rfl
  refine ⟨hAck, ?_, ?_, congrArg (· + 1) h.now⟩
  · rw [Board.clock, hClock]
    exact ⟨rfl, hSreg, rfl⟩
  · rw [Board.pins, Board.clock, hClock, h.load, h.sdio]
    rfl

theorem await_now {bus : BusIn} {s : Board} (limit : Nat) (hAck : s.slave.wbAckO = true) :
    s.await around bus (limit + 1) = some (s.slave.rddataReg, s.clock around bus) := by
  rw [Board.await, if_pos hAck]

theorem await_later {bus : BusIn} {s : Board} (limit : Nat) (hAck : s.slave.wbAckO = false) :
    s.await around bus (limit + 1) = (s.clock around bus).await around bus limit := by
  rw [Board.await, if_neg (by simp [hAck])]

theorem Board.Quiet.transfer {s : Board} (h : s.Quiet) (we : Bool) (dat : BitVec 32) :
    let s₀ := s.idle around (gap s.now)
    ∃ s₁ s₂, Board.Answering around we dat s₀ s₁ ∧ s₂ = s₁.clock around ⟨true, true, we, 1, dat⟩ ∧
      s.transfer around gap we dat = some (s₁.slave.rddataReg, s₂) := by
  intro s₀
  obtain ⟨hQuiet, -⟩ := h.idle around (gap s.now)
  have hAnswering := hQuiet.begin around we dat
  have hNone : s₀.slave.wbAckO = false := by
    rw [WbSlave.wbAckO, hQuiet.sreg]
    rfl
  refine ⟨_, _, hAnswering, rfl, ?_⟩
  have hAck := (hAnswering.finish around 1).1
  rw [Board.transfer, await_later around _ hNone, await_now around _ hAck]

/-! ### The register behind the bus -/

/-- The board shows what the register shows, from these pins on. -/
structure Stands (p : Pins) (g : Gpior) (s : Board) : Prop where
  quiet : s.Quiet
  pins : s.pins = g.pins
  last : s.wave.getLastD p = s.pins
  portLast : g.wave.getLastD p = g.pins
  wave : s.wave.destutter' (· ≠ ·) p = g.wave.destutter' (· ≠ ·) p

theorem destutter'_replicate_last {p : Pins} {l : List Pins} {q : Pins} (hLast : l.getLastD p = q) (n : Nat) :
    (l ++ List.replicate n q).destutter' (· ≠ ·) p = l.destutter' (· ≠ ·) p ∧ (l ++ List.replicate n q).getLastD p = q := by
  induction n with
  | zero =>
    rw [List.replicate_zero, List.append_nil]
    exact ⟨rfl, hLast⟩
  | succ n ih =>
    rw [List.replicate_succ', ← List.append_assoc, destutter'_concat, ih.1, ih.2, if_pos rfl, List.append_nil]
    exact ⟨rfl, List.getLastD_concat ..⟩

theorem destutter'_concat_congr {p : Pins} {l m : List Pins} (hSame : l.destutter' (· ≠ ·) p = m.destutter' (· ≠ ·) p)
    (hLast : l.getLastD p = m.getLastD p) (q : Pins) :
    (l ++ [q]).destutter' (· ≠ ·) p = (m ++ [q]).destutter' (· ≠ ·) p := by
  rw [destutter'_concat, destutter'_concat, hSame, hLast]

variable {p : Pins} {g : Gpior} {s : Board}

theorem Stands.idle (h : Stands p g s) (n : Nat) : Stands p g (s.idle around n) := by
  obtain ⟨hQuiet, hPins, hWave, -⟩ := h.quiet.idle around n
  obtain ⟨hSame, hLast⟩ := destutter'_replicate_last h.last n
  rw [← hWave] at hSame hLast
  exact ⟨hQuiet, hPins.trans h.pins, hLast.trans hPins.symm, h.portLast, hSame.trans h.wave⟩

theorem Stands.write (h : Stands p g s) (data : BitVec 32) :
    ∃ s', (Board.busPort around gap).write data s = some s' ∧ Stands p (g.write data) s' ∧ s.now < s'.now := by
  have hIdle := h.idle around (gap s.now)
  obtain ⟨s₁, s₂, hAnswering, hLater, hTransfer⟩ := h.quiet.transfer around gap true data
  obtain ⟨-, hQuiet, hPins, hNow⟩ := hAnswering.finish around 1
  rw [← hLater] at hQuiet hPins hNow
  have hSdio : (s.idle around (gap s.now)).pllSdioB = g.pins.sdio := congrArg Pins.sdio hIdle.pins
  have hEarly : s₁.pins = ⟨data &&& outputBits, g.pins.sdio⟩ := by
    rw [Board.pins, hAnswering.word, hAnswering.sdio, hSdio]
    rfl
  have hLate : s₂.pins = ⟨data &&& outputBits, data.getLsbD 3⟩ := by
    rw [hPins, hAnswering.word]
    rfl
  have hWave : s₂.wave = (s.idle around (gap s.now)).wave ++ [s₁.pins] ++ [s₂.pins] := by
    rw [← hAnswering.wave, hLater]
    rfl
  have hPort : (g.write data).wave = g.wave ++ [s₁.pins] ++ [s₂.pins] := by
    rw [hEarly, hLate, List.append_assoc]
    rfl
  refine ⟨s₂, congrArg (Option.map Prod.snd) hTransfer, ⟨hQuiet, hLate, ?_, ?_, ?_⟩, ?_⟩
  · rw [hWave]
    exact List.getLastD_concat ..
  · rw [hPort, hLate]
    exact List.getLastD_concat ..
  · rw [hWave, hPort]
    refine destutter'_concat_congr (destutter'_concat_congr hIdle.wave ?_ _) ?_ _
    · rw [hIdle.last, hIdle.portLast, hIdle.pins]
    · rw [List.getLastD_concat, List.getLastD_concat]
  · rw [hNow, (h.quiet.idle around (gap s.now)).2.2.2]
    omega

theorem bitAt_within {k : Nat} {m : BitVec 32} (h : BitVec.twoPow 32 k &&& m = BitVec.twoPow 32 k) (b : Bool) :
    bitAt k b &&& m = bitAt k b := by
  cases b with
  | false => exact BitVec.zero_and
  | true => exact h

theorem shownAt_eq (d : DeviceIn) (g : Gpior) (old : BitVec 32) : shownAt d g.pins.out old = g.value (inputPins d) := by
  have hOutputs : g.pins.out &&& outputBits &&& 0x1ffff#32 = g.pins.out &&& outputBits := by
    rw [BitVec.and_assoc]
    rfl
  have hNone : old &&& ~~~(0x1ffff#32 ||| ~~~0x1ffff#32) = 0#32 := BitVec.and_zero
  have hBits : bitAt 3 d.pllVcxoSdo ||| bitAt 8 d.pllVcxoSdo =
      if d.pllVcxoSdo then pllSdio ||| BitVec.twoPow 32 8 else 0 := by
    cases d.pllVcxoSdo <;> rfl
  change ((g.pins.out &&& outputBits ||| bitAt 3 d.pllVcxoSdo ||| bitAt 8 d.pllVcxoSdo ||| bitAt 16 d.adcSdo) &&& 0x1ffff#32) |||
    (d.undefined &&& ~~~0x1ffff#32) ||| (old &&& ~~~(0x1ffff#32 ||| ~~~0x1ffff#32)) = _
  rw [hNone, BitVec.or_zero, BitVec.and_or_distrib_right, BitVec.and_or_distrib_right, BitVec.and_or_distrib_right,
    hOutputs, bitAt_within (by decide), bitAt_within (by decide), bitAt_within (by decide),
    BitVec.or_assoc (g.pins.out &&& outputBits), hBits]
  rfl

theorem Stands.read (h : Stands p g s) :
    ∃ t s', (Board.busPort around gap).read s = some (g.value (inputPins (around t).device), s') ∧
      Stands p g s' ∧ s.now ≤ t ∧ t < s'.now := by
  have hIdle := h.idle around (gap s.now)
  obtain ⟨s₁, s₂, hAnswering, hLater, hTransfer⟩ := h.quiet.transfer around gap false 0
  obtain ⟨-, hQuiet, hPins, hNow⟩ := hAnswering.finish around 1
  rw [← hLater] at hQuiet hPins hNow
  have hOut : (s.idle around (gap s.now)).slave.bank .gpior = g.pins.out := congrArg Pins.out hIdle.pins
  have hFirst : s₁.pins = (s.idle around (gap s.now)).pins := by
    rw [Board.pins, hAnswering.word, hAnswering.sdio]
    rfl
  have hSecond : s₂.pins = (s.idle around (gap s.now)).pins := by
    rw [hPins, hAnswering.word]
    rfl
  have hWave : s₂.wave = (s.idle around (gap s.now)).wave ++ List.replicate 2 (s.idle around (gap s.now)).pins := by
    have hLast : s₂.wave = s₁.wave ++ [s₂.pins] := by
      rw [hLater]
      rfl
    rw [hLast, hAnswering.wave, hFirst, hSecond, List.append_assoc]
    rfl
  obtain ⟨hSame, hEnd⟩ := destutter'_replicate_last hIdle.last 2
  rw [← hWave] at hSame hEnd
  refine ⟨(s.idle around (gap s.now)).now, s₂, ?_, ⟨hQuiet, hSecond.trans hIdle.pins, hEnd.trans hSecond.symm,
    h.portLast, hSame.trans hIdle.wave⟩, ?_, ?_⟩
  · apply hTransfer.trans
    rw [hAnswering.data, hOut, shownAt_eq]
  · rw [(h.quiet.idle around (gap s.now)).2.2.2]
    omega
  · rw [hNow]
    omega

/-! ### Drivers -/

/-- The cycles at which the reads from `first` to `last` see their inputs: in order, between the two. -/
structure Sampled (times : Nat → Nat) (first last start stop : Nat) : Prop where
  within : ∀ n, first ≤ n → n < last → start ≤ times n ∧ times n < stop
  inOrder : ∀ m n, first ≤ m → m < n → n < last → times m < times n

theorem Sampled.cons {times : Nat → Nat} {first last start middle stop : Nat} (h : Sampled times (first + 1) last middle stop)
    (hStart : start ≤ times first) (hMiddle : times first < middle) (hStop : middle ≤ stop) :
    Sampled times first last start stop := by
  constructor
  · intro n hFirst hLast
    rcases Nat.eq_or_lt_of_le hFirst with rfl | hLater
    · exact ⟨hStart, by omega⟩
    · have hWithin := h.within n hLater hLast
      omega
  · intro m n hFirst hOrder hLast
    rcases Nat.eq_or_lt_of_le hFirst with rfl | hLater
    · exact Nat.lt_of_lt_of_le hMiddle (h.within n hOrder hLast).1
    · exact h.inOrder m n hLater hOrder hLast

theorem Sampled.earlier {times : Nat → Nat} {first last start middle stop : Nat} (h : Sampled times first last middle stop)
    (hStart : start ≤ middle) : Sampled times first last start stop :=
  ⟨fun n hFirst hLast => ⟨hStart.trans (h.within n hFirst hLast).1, (h.within n hFirst hLast).2⟩, h.inOrder⟩

/-- A driver on the bus returns, with the result it has on the register for the levels at the cycles of its reads;
these are known only as it goes. -/
theorem driver_on_board {α : Type} (d : Driver (BitVec 32) α) (times : Nat → Nat) {g : Gpior} {s : Board}
    (h : Stands p g s) :
    ∃ a g' s' times', d.run (Board.busPort around gap) s = some (a, s') ∧
      d.run (gpiorPort fun n => inputPins (around (times' n)).device) g = some (a, g') ∧ Stands p g' s' ∧
      s.now ≤ s'.now ∧ (∀ n < g.reads, times' n = times n) ∧ Sampled times' g.reads g'.reads s.now s'.now := by
  induction d generalizing times g s with
  | done a =>
    refine ⟨a, g, s, times, rfl, rfl, h, le_rfl, fun _ _ => rfl, ?_⟩
    exact ⟨fun n hFirst hLast => by omega, fun m n hFirst hOrder hLast => by omega⟩
  | read next ih =>
    obtain ⟨t, s₁, hRead, hStands, hStart, hStop⟩ := h.read around gap
    have hStands₁ : Stands p { g with reads := g.reads + 1 } s₁ :=
      ⟨hStands.quiet, hStands.pins, hStands.last, hStands.portLast, hStands.wave⟩
    obtain ⟨a, g', s', times', hBus, hPort, hEnd, hLater, hOld, hSampled⟩ :=
      ih (g.value (inputPins (around t).device)) (Function.update times g.reads t) hStands₁
    have hTime : times' g.reads = t := (hOld g.reads (Nat.lt_succ_self _)).trans (Function.update_self ..)
    refine ⟨a, g', s', times', ?_, ?_, hEnd, by omega, fun n hn => ?_, ?_⟩
    · rw [Driver.run, hRead]
      exact hBus
    · rw [← hTime] at hPort
      exact hPort
    · exact (hOld n (Nat.lt_succ_of_lt hn)).trans (Function.update_of_ne (Nat.ne_of_lt hn) _ _)
    · exact hSampled.cons (hTime ▸ hStart) (hTime ▸ hStop) hLater
  | write data next ih =>
    obtain ⟨s₁, hWrite, hStands, hStart⟩ := h.write around gap data
    obtain ⟨a, g', s', times', hBus, hPort, hEnd, hLater, hOld, hSampled⟩ := ih times hStands
    refine ⟨a, g', s', times', ?_, hPort, hEnd, by omega, hOld, hSampled.earlier (Nat.le_of_lt hStart)⟩
    rw [Driver.run, hWrite]
    exact hBus

/-- The latch is loaded in a cycle of an access only. -/
theorem sdioLoad_inProgress (before : List SysIn) : (run WbSlave.clock before .reset).sdioLoad = true →
    (run WbSlave.clock before .reset).ackInProgress = true := by
  refine run_keeps (fun s : WbSlave => s.sdioLoad = true → s.ackInProgress = true) (fun i s h => ?_) before
    (fun hLoad => absurd hLoad Bool.false_ne_true)
  intro hLoad
  rw [WbSlave.clock] at hLoad ⊢
  split_ifs at hLoad ⊢ with hBusy hAck hStrobe
  · exact absurd hLoad Bool.false_ne_true
  · exact hBusy
  · change (if i.bus.we = true ∧ Reg.decode i.bus.adr = .gpior then true else s.sdioLoad) = true at hLoad
    split_ifs at hLoad with hWrite
    · exact WbSlave.granted_of_ne (by rw [hWrite.2]; decide) s
    · exact absurd (h hLoad) hBusy
  · exact absurd (h hLoad) hBusy

theorem quiet_of_history {before : List SysIn} (hIdle : (run WbSlave.clock before .reset).ackInProgress = false)
    (sdio : Bool) (now : Nat) (wave : List Pins) : Board.Quiet ⟨run WbSlave.clock before .reset, sdio, now, wave⟩ := by
  have hTimed : Timed (run WbSlave.clock before .reset) := by
    have hServing := (serving_run before).timed
    rwa [run_watch_snd] at hServing
  refine ⟨hIdle, ?_, ?_⟩
  · rcases hTimed with ⟨-, hSreg⟩ | ⟨hBusy, -⟩
    · exact hSreg
    · exact absurd (hIdle.symm.trans hBusy) (by decide)
  · by_contra hLoad
    exact absurd (hIdle.symm.trans (sdioLoad_inProgress before (by simpa using hLoad))) (by decide)

/-! ### Edges on the board -/

def edgeAt (cs : ChipSelect) (p q : Pins) : List Edge :=
  if !p.sclk && q.sclk then [⟨p.selected cs && q.selected cs, p.sdio, q.sdio⟩] else []

theorem risingEdges_eq (cs : ChipSelect) (p : Pins) (l : List Pins) : risingEdges cs p l = transitions (edgeAt cs) p l := by
  induction l generalizing p with
  | nil => rfl
  | cons q l ih => rw [risingEdges, transitions, ih q, edgeAt]

theorem Stands.edges (h : Stands p g s) (cs : ChipSelect) : risingEdges cs p s.wave = risingEdges cs p g.wave := by
  rw [risingEdges_eq, risingEdges_eq]
  refine transitions_congr (fun q => ?_) h.wave
  rw [edgeAt, Bool.not_and_self]
  rfl

theorem Stands.mem (h : Stands p g s) {q : Pins} (hq : q ∈ s.wave) : q = p ∨ q ∈ g.wave := by
  have hMem := mem_destutter'_of_mem (a := p) hq
  rw [h.wave] at hMem
  exact mem_of_mem_destutter' hMem

/-- However the bus was used before, and whatever the gaps between its accesses, a transfer on the bus returns, makes one
edge for each bit, while the chip is selected and with the bit on the data pin before and at the edge, and gives back the
input at cycles in the order of the bits. -/
theorem spiTxrx_on_bus {before : List SysIn} (hIdle : (run WbSlave.clock before .reset).ackInProgress = false) (sdio : Bool)
    (now : Nat) (cs : ChipSelect) {nBits : Nat} (hn : nBits < 31) (value : BitVec 32) :
    let s : Board := ⟨run WbSlave.clock before .reset, sdio, now, []⟩
    ∃ rv s' times, (portGpio.spiTxrx cs nBits value).run (Board.busPort around gap) s = some (rv, s') ∧
      risingEdges cs s.pins s'.wave =
        (List.range nBits).map (fun i => ⟨true, value.getLsbD (nBits - 1 - i), value.getLsbD (nBits - 1 - i)⟩) ∧
      (∀ q ∈ s'.wave, SameOthers cs s.pins q) ∧
      (∀ k, rv.getLsbD k = (decide (k < nBits) && (around (times (nBits - 1 - k))).device.pllVcxoSdo)) ∧
      Sampled times 0 nBits now s'.now := by
  intro s
  have hStands : Stands s.pins ⟨s.pins, [], 0⟩ s := ⟨quiet_of_history hIdle sdio now [], rfl, rfl, rfl, rfl⟩
  obtain ⟨rv, g', s', times, hBus, hPort, hEnd, -, -, hSampled⟩ :=
    driver_on_board around gap (portGpio.spiTxrx cs nBits value) (fun _ => 0) hStands
  have hSent := spiTxrx_sent (fun n => inputPins (around (times n)).device) cs hn value s.pins
  rw [run_spiTxrx] at hPort
  rw [Option.some.inj hPort] at hSent
  have hReads : g'.reads = 4 * nBits + 3 := hSent.reads
  refine ⟨rv, s', fun i => times (sampleAt i), hBus, ?_, fun q hq => ?_, hSent.rv, ?_⟩
  · exact (hEnd.edges cs).trans hSent.shows.edges
  · rcases hEnd.mem hq with rfl | hLater
    · exact fun _ _ _ _ => rfl
    · exact hSent.keeps.wave q hLater
  · constructor
    · intro i _ hi
      exact hSampled.within (sampleAt i) (Nat.zero_le _) (by rw [hReads, sampleAt]; omega)
    · intro i j _ hOrder hj
      exact hSampled.inOrder _ _ (Nat.zero_le _) (by rw [sampleAt, sampleAt]; omega) (by rw [hReads, sampleAt]; omega)

/-- A frame of 24 bits after reset, with three cycles before each access. -/
theorem spiTxrx_on_bus_reset :
    let around : Nat → SysIn := fun _ =>
      ⟨⟨true, true, true, 0, 7⟩, ⟨false, false, false, true, false, true, true, 0, 0, 7, false, false, false, true, 0⟩, 0, 0⟩
    ∃ rv s', (portGpio.spiTxrx .pllSysCsN 24 0x1820).run (Board.busPort around fun _ => 3) ⟨.reset, false, 0, []⟩ =
      some (rv, s') ∧ (risingEdges .pllSysCsN ⟨0, false⟩ s'.wave).length = 24 ∧ rv.getLsbD 23 = true := by
  intro around
  obtain ⟨rv, s', times, hRun, hEdges, -, hRv, -⟩ :=
    spiTxrx_on_bus around (fun _ => 3) (rfl : (run WbSlave.clock [] .reset).ackInProgress = false) false 0 .pllSysCsN
      (by decide : 24 < 31) 0x1820
  have hPins : (⟨0, false⟩ : Pins) = Board.pins ⟨.reset, false, 0, []⟩ := rfl
  refine ⟨rv, s', hRun, ?_, (hRv 23).trans rfl⟩
  rw [hPins]
  exact (congrArg List.length hEdges).trans rfl

end WrRfDemo.Registers

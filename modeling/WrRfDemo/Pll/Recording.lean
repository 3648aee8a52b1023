import WrRfDemo.Clocked.Levels
import WrRfDemo.Spi.Drivers

/-! # The recording of the PLL set-up

While `pll_init` is set, `gpio_set` prints the three lines of the PLL whenever one of them changes, as
assignments to the memory that the FPGA plays back. The lines that are printed make the edges that the pins made.
-/

namespace WrRfDemo.Pll

open Clocked Spi

/-- The three lines, in the order of the bits of `gp_seq`. -/
structure Lines where
  csN : Bool
  sck : Bool
  mosi : Bool
deriving DecidableEq

def linesOf (w : BitVec 3) : Lines := ⟨w.getLsbD 0, w.getLsbD 1, w.getLsbD 2⟩

def Lines.edge (a b : Lines) : List Edge :=
  if !a.sck && b.sck then [⟨!a.csN && !b.csN, a.mosi, b.mosi⟩] else []

theorem Lines.edge_self (a : Lines) : a.edge a = [] := by
  rw [Lines.edge, Bool.not_and_self]
  rfl

/-- `gp_pos` and `gp_seq`, with the assignments that are printed. -/
structure Trace where
  gpPos : Nat
  gpSeq : BitVec 3
  printed : List (Nat × BitVec 3)
deriving DecidableEq

namespace Trace

def start : Trace := ⟨0, 7, []⟩

def withBit (bit : Nat) (value : Bool) (q : BitVec 3) : BitVec 3 :=
  if value then q ||| BitVec.twoPow 3 bit else q &&& ~~~(BitVec.twoPow 3 bit)

def note (bit : Nat) (value : Bool) (t : Trace) : Trace :=
  let gpSeq := withBit bit value t.gpSeq
  if t.gpSeq ≠ gpSeq then ⟨t.gpPos + 1, gpSeq, t.printed ++ [(t.gpPos, gpSeq)]⟩ else t

theorem note_gpSeq (bit : Nat) (value : Bool) (t : Trace) : (t.note bit value).gpSeq = withBit bit value t.gpSeq := by
  rw [note]
  split_ifs with hChanged
  · rfl
  · exact not_not.mp hChanged

end Trace

/-- The bit of a pin in `gp_seq`; the source leaves it open for any other pin, which it does not set meanwhile. -/
def tracedBit (pin : BitVec 32) : Option Nat :=
  if pin = pllSclk then some 1 else if pin = pllSdio then some 2
  else if pin = ChipSelect.pllSysCsN.mask then some 0 else none

/-- `gpio_set` and `gpio_get` while `pll_init` is set. -/
def tracedGpio (levels : Nat → InputPins) : Gpio (StateM (Gpior × Trace)) where
  set pin value := modify fun p => (gpioSet levels pin value p.1, (tracedBit pin).elim p.2 fun bit => p.2.note bit value)
  get pin := fun p => ((gpioGet levels pin p.1).1, (gpioGet levels pin p.1).2, p.2)

/-- The part of `ad9516_init` in which `pll_init` is set, and whether it goes on to the end: the chip has answered. -/
def ad9516Boot {m : Type → Type} [Monad m] (io : Gpio m) (regs : List (BitVec 16 × BitVec 8)) : m Bool := do
  io.ad951xWriteReg .pllSysCsN 0 0x99
  io.ad951xWriteReg .pllSysCsN 0x232 1
  let _ ← io.ad951xReadReg .pllSysCsN 3
  let id ← io.ad951xReadReg .pllSysCsN 3
  if id ≠ 0xc3 then return false
  forM regs fun r => io.ad951xWriteReg .pllSysCsN r.1 r.2
  io.ad951xWriteReg .pllSysCsN 0x232 0
  io.ad951xWriteReg .pllSysCsN 0x232 1
  return true

/-- The frames of the set-up, before the chip has answered and after it. -/
def knocking : List (BitVec 32) :=
  [Gpio.writeFrame 0 0x99, Gpio.writeFrame 0x232 1, Gpio.readFrame 3, Gpio.readFrame 3]

def loading (regs : List (BitVec 16 × BitVec 8)) : List (BitVec 32) :=
  regs.map (fun r => Gpio.writeFrame r.1 r.2) ++ [Gpio.writeFrame 0x232 0, Gpio.writeFrame 0x232 1]

/-! ### What one call leaves -/

namespace Trace

def round (b : Bool) (t : Trace) : Trace := ((t.note 2 b).note 1 true).note 1 false

def rounds (nBits : Nat) (value : BitVec 32) : Nat → Trace → Trace
  | 0, t => t
  | i + 1, t => (rounds nBits value i t).round (sentBit nBits value i)

def frame (value : BitVec 32) (t : Trace) : Trace :=
  (rounds 24 value 24 ((t.note 1 false).note 0 false)).note 0 true

end Trace

variable (levels : Nat → InputPins)

theorem run_spiRound {value : BitVec 32} {i : Nat} (hi : i < 24) (x : Shifting) (hShifted : x.value = value <<< i)
    (t : Trace) : ((tracedGpio levels).spiRound 24 (x.value, x.rv)).run (x.port, t) =
      (((spiRound levels 24 x).value, (spiRound levels 24 x).rv), (spiRound levels 24 x).port, t.round (sentBit 24 value i)) := by
  have hBit := bit_of_shifted (by decide : 24 < 31) hi value
  have hValue : x.value <<< 1 = value <<< (i + 1) := by rw [hShifted, ← BitVec.shiftLeft_add]
  rw [← hValue] at hBit
  rw [← hBit]
  rfl

theorem run_spiLoop (value : BitVec 32) (port : Gpior) (t : Trace) {i : Nat} (hi : i ≤ 24) :
    let x := spiLoop levels 24 i ⟨value, 0, port⟩
    ((tracedGpio levels).spiLoop 24 i (value, 0)).run (port, t) = ((x.value, x.rv), x.port, t.rounds 24 value i) ∧
      x.value = value <<< i := by
  induction i with
  | zero => exact ⟨rfl, (BitVec.shiftLeft_zero value).symm⟩
  | succ i ih =>
    obtain ⟨hRun, hShifted⟩ := ih (Nat.le_of_succ_le hi)
    refine ⟨?_, ?_⟩
    · rw [Gpio.spiLoop, StateT.run_bind, hRun]
      exact run_spiRound levels (Nat.lt_of_succ_le hi) _ hShifted _
    · change (spiLoop levels 24 i ⟨value, 0, port⟩).value <<< 1 = value <<< (i + 1)
      rw [hShifted, ← BitVec.shiftLeft_add]

theorem run_spiTxrx (value : BitVec 32) (port : Gpior) (t : Trace) :
    ((tracedGpio levels).spiTxrx .pllSysCsN 24 value).run (port, t) =
      ((spiTxrx levels .pllSysCsN 24 value port).1, (spiTxrx levels .pllSysCsN 24 value port).2, t.frame value) := by
  obtain ⟨hRun, -⟩ := run_spiLoop levels value
    (gpioSet levels ChipSelect.pllSysCsN.mask false (gpioSet levels pllSclk false port)) ((t.note 1 false).note 0 false)
    (le_refl 24)
  change ((tracedGpio levels).spiLoop 24 24 (value, 0) >>= fun x => do
    (tracedGpio levels).set ChipSelect.pllSysCsN.mask true
    return x.2).run (gpioSet levels ChipSelect.pllSysCsN.mask false (gpioSet levels pllSclk false port),
      (t.note 1 false).note 0 false) = _
  rw [StateT.run_bind, hRun]
  simp only [spiTxrx, Trace.frame]
  generalize spiLoop levels 24 24 _ = x
  generalize Trace.rounds 24 value 24 _ = u
  rfl

/-! ### What the lines show -/

/-- The trace has begun: its assignments are in order, their last is the present one, and these are their edges. -/
structure Traced (edges : List Edge) (t : Trace) : Prop where
  positions : t.printed.map Prod.fst = List.range t.gpPos
  words : ∃ rest, t.printed.map Prod.snd = 5 :: rest ∧ rest.getLastD 5 = t.gpSeq ∧
    transitions Lines.edge (linesOf 5) (rest.map linesOf) = edges

variable {edges : List Edge} {t : Trace}

theorem getLastD_map_linesOf (rest : List (BitVec 3)) (w : BitVec 3) :
    (rest.map linesOf).getLastD (linesOf w) = linesOf (rest.getLastD w) := by
  induction rest generalizing w with
  | nil => rfl
  | cons v rest ih => rw [List.map_cons, List.getLastD_cons, List.getLastD_cons, ih]

theorem Traced.note (h : Traced edges t) (bit : Nat) (value : Bool) :
    Traced (edges ++ (linesOf t.gpSeq).edge (linesOf (Trace.withBit bit value t.gpSeq))) (t.note bit value) := by
  obtain ⟨rest, hWords, hLast, hEdges⟩ := h.words
  rw [Trace.note]
  split_ifs with hChanged
  · constructor
    · rw [List.map_append, h.positions, List.range_succ]
      rfl
    · refine ⟨rest ++ [Trace.withBit bit value t.gpSeq], ?_, List.getLastD_concat .., ?_⟩
      · rw [List.map_append, hWords]
        rfl
      · rw [List.map_append, transitions_append, hEdges, getLastD_map_linesOf, hLast]
        exact congrArg _ (List.append_nil _)
  · rw [← not_not.mp hChanged, Lines.edge_self, List.append_nil]
    exact h

/-- The clock and the chip select are down: between the bits of a frame. -/
def Low (q : BitVec 3) : Prop := q.getLsbD 0 = false ∧ q.getLsbD 1 = false

instance (q : BitVec 3) : Decidable (Low q) := inferInstanceAs (Decidable (_ ∧ _))

theorem round_edges : ∀ (q : BitVec 3) (b : Bool), Low q →
    let q₁ := Trace.withBit 2 b q
    let q₂ := Trace.withBit 1 true q₁
    let q₃ := Trace.withBit 1 false q₂
    (linesOf q).edge (linesOf q₁) ++ (linesOf q₁).edge (linesOf q₂) ++ (linesOf q₂).edge (linesOf q₃) = [⟨true, b, b⟩] ∧ Low q₃ := by
  decide

theorem Traced.round (h : Traced edges t) (hLow : Low t.gpSeq) (b : Bool) :
    Traced (edges ++ [⟨true, b, b⟩]) (t.round b) ∧ Low (t.round b).gpSeq := by
  obtain ⟨hEdges, hStill⟩ := round_edges t.gpSeq b hLow
  have hThree := ((h.note 2 b).note 1 true).note 1 false
  simp only [Trace.note_gpSeq] at hThree
  rw [List.append_assoc, List.append_assoc, ← List.append_assoc (Lines.edge _ _), hEdges] at hThree
  refine ⟨hThree, ?_⟩
  rw [Trace.round, Trace.note_gpSeq, Trace.note_gpSeq, Trace.note_gpSeq]
  exact hStill

theorem Traced.rounds (h : Traced edges t) (hLow : Low t.gpSeq) (value : BitVec 32) (i : Nat) :
    Traced (edges ++ (List.range i).map fun j => ⟨true, sentBit 24 value j, sentBit 24 value j⟩) (t.rounds 24 value i) ∧
      Low (t.rounds 24 value i).gpSeq := by
  induction i with
  | zero =>
    rw [List.range_zero, List.map_nil, List.append_nil]
    exact ⟨h, hLow⟩
  | succ i ih =>
    rw [List.range_succ, List.map_append, ← List.append_assoc]
    exact ih.1.round ih.2 (sentBit 24 value i)

/-- Nothing is printed yet, or the trace has begun. -/
def Ready (edges : List Edge) (t : Trace) : Prop := t = .start ∧ edges = [] ∨ Traced edges t

theorem Ready.clockDown (h : Ready edges t) : Traced edges (t.note 1 false) := by
  rcases h with ⟨rfl, rfl⟩ | hTraced
  · exact ⟨rfl, [], rfl, rfl, rfl⟩
  · have hNone : ∀ q : BitVec 3, (linesOf q).edge (linesOf (Trace.withBit 1 false q)) = [] := by decide
    have hNext := hTraced.note 1 false
    rwa [hNone, List.append_nil] at hNext

theorem Ready.frame (h : Ready edges t) (value : BitVec 32) : Traced (edges ++ frameEdges 24 value) (t.frame value) := by
  have hClock := h.clockDown
  have hSelect : ∀ q : BitVec 3, (linesOf (Trace.withBit 1 false q)).edge (linesOf (Trace.withBit 0 false (Trace.withBit 1 false q))) = [] ∧
      Low (Trace.withBit 0 false (Trace.withBit 1 false q)) := by decide
  have hDone : ∀ q : BitVec 3, Low q → (linesOf q).edge (linesOf (Trace.withBit 0 true q)) = [] := by decide
  have hSelected := hClock.note 0 false
  rw [Trace.note_gpSeq, (hSelect t.gpSeq).1, List.append_nil] at hSelected
  have hLow : Low ((t.note 1 false).note 0 false).gpSeq := by
    rw [Trace.note_gpSeq, Trace.note_gpSeq]
    exact (hSelect t.gpSeq).2
  obtain ⟨hSent, hStill⟩ := hSelected.rounds hLow value 24
  have hEnd := hSent.note 0 true
  rwa [hDone _ hStill, List.append_nil] at hEnd

/-! ### The whole set-up -/

def session (levels : Nat → InputPins) (frames : List (BitVec 32)) (p : Gpior × Trace) : Gpior × Trace :=
  frames.foldl (fun p value => ((spiTxrx levels .pllSysCsN 24 value p.1).2, p.2.frame value)) p

theorem session_append (before after : List (BitVec 32)) (p : Gpior × Trace) :
    session levels (before ++ after) p = session levels after (session levels before p) := List.foldl_append

theorem run_ad951xWriteReg (reg : BitVec 16) (val : BitVec 8) (p : Gpior × Trace) :
    ((tracedGpio levels).ad951xWriteReg .pllSysCsN reg val).run p = ((), session levels [Gpio.writeFrame reg val] p) := by
  rw [Gpio.ad951xWriteReg, StateT.run_bind, run_spiTxrx]
  rfl

theorem run_ad951xReadReg (reg : BitVec 16) (p : Gpior × Trace) :
    ((tracedGpio levels).ad951xReadReg .pllSysCsN reg).run p =
      ((spiTxrx levels .pllSysCsN 24 (Gpio.readFrame reg) p.1).1.setWidth 8, session levels [Gpio.readFrame reg] p) := by
  rw [Gpio.ad951xReadReg, StateT.run_bind, run_spiTxrx]
  rfl

/-- What the chip says when it is asked for its number, the second time. -/
def answered (p : Gpior × Trace) : BitVec 8 :=
  (spiTxrx levels .pllSysCsN 24 (Gpio.readFrame 3) (session levels knocking.dropLast p).1).1.setWidth 8

theorem session_reads (frames : List (BitVec 32)) (p : Gpior × Trace) :
    (session levels frames p).1.reads = p.1.reads + 99 * frames.length := by
  induction frames generalizing p with
  | nil => rfl
  | cons value frames ih =>
    have hRest := ih ((spiTxrx levels .pllSysCsN 24 value p.1).2, p.2.frame value)
    rw [reads_spiTxrx levels .pllSysCsN (by decide)] at hRest
    rw [List.length_cons]
    exact hRest.trans (by omega)

theorem getLsbD_answered (p : Gpior × Trace) {k : Nat} (hk : k < 8) :
    (answered levels p).getLsbD k = (levels (p.1.reads + 297 + sampleAt (23 - k))).pllVcxoSdo := by
  have hReads : (session levels knocking.dropLast p).1.reads = p.1.reads + 297 := session_reads levels knocking.dropLast p
  rw [answered, BitVec.getLsbD_setWidth, getLsbD_spiTxrx levels .pllSysCsN (by decide), hReads, decide_eq_true hk,
    decide_eq_true (Nat.lt_trans hk (by decide)), Bool.true_and, Bool.true_and]

theorem run_loads (regs : List (BitVec 16 × BitVec 8)) (p : Gpior × Trace) :
    (forM regs fun r => (tracedGpio levels).ad951xWriteReg .pllSysCsN r.1 r.2).run p =
      ((), session levels (regs.map fun r => Gpio.writeFrame r.1 r.2) p) := by
  induction regs generalizing p with
  | nil => rfl
  | cons r regs ih =>
    rw [List.forM_cons, StateT.run_bind, run_ad951xWriteReg]
    exact ih _

theorem run_then {σ α β : Type} {x : StateM σ α} {f : α → StateM σ β} {p q : σ} {a : α} (h : x.run p = (a, q)) :
    (x >>= f).run p = (f a).run q := by
  rw [StateT.run_bind, h]
  rfl

/-- The set-up leaves the frames up to the answer of the chip, and the others if it is the right one. -/
theorem run_ad9516Boot (regs : List (BitVec 16 × BitVec 8)) (p : Gpior × Trace) :
    (ad9516Boot (tracedGpio levels) regs).run p = (decide (answered levels p = 0xc3),
      session levels (knocking ++ if decide (answered levels p = 0xc3) then loading regs else []) p) := by
  have hAsked : session levels [Gpio.readFrame 3] (session levels [Gpio.writeFrame 0x232 1]
      (session levels [Gpio.writeFrame 0 0x99] p)) = session levels knocking.dropLast p := by
    rw [← session_append, ← session_append]
    rfl
  have hKnocked : session levels [Gpio.readFrame 3] (session levels knocking.dropLast p) = session levels knocking p := by
    rw [← session_append]
    rfl
  have hSecond := run_ad951xReadReg levels 3 (session levels knocking.dropLast p)
  rw [hKnocked, ← answered] at hSecond
  apply (run_then (run_ad951xWriteReg levels 0 0x99 p)).trans
  apply (run_then (run_ad951xWriteReg levels 0x232 1 _)).trans
  apply (run_then (run_ad951xReadReg levels 3 _)).trans
  rw [hAsked]
  apply (run_then hSecond).trans
  by_cases hAnswer : answered levels p = 0xc3
  · rw [if_neg (not_not.mpr hAnswer), decide_eq_true hAnswer, if_pos rfl, session_append]
    apply (run_then (run_loads levels regs _)).trans
    apply (run_then (run_ad951xWriteReg levels 0x232 0 _)).trans
    apply (run_then (run_ad951xWriteReg levels 0x232 1 _)).trans
    rw [← session_append, ← session_append, loading]
    rfl
  · rw [if_pos hAnswer, decide_eq_false hAnswer, if_neg Bool.false_ne_true, List.append_nil]
    rfl

theorem session_edges (frames : List (BitVec 32)) {p : Pins} {port : Gpior} {t : Trace} {edges : List Edge}
    (hPort : Shows .pllSysCsN p edges port) (hTrace : Ready edges t) :
    Shows .pllSysCsN p (edges ++ frames.flatMap (frameEdges 24)) (session levels frames (port, t)).1 ∧
      Ready (edges ++ frames.flatMap (frameEdges 24)) (session levels frames (port, t)).2 := by
  induction frames generalizing port t edges with
  | nil =>
    rw [List.flatMap_nil, List.append_nil]
    exact ⟨hPort, hTrace⟩
  | cons value frames ih =>
    rw [List.flatMap_cons, ← List.append_assoc]
    exact ih (hPort.frame levels (by decide) value) (.inr (hTrace.frame value))

/-! ### The size of a recording -/

theorem note_length (bit : Nat) (value : Bool) (t : Trace) : (t.note bit value).printed.length ≤ t.printed.length + 1 := by
  rw [Trace.note]
  split_ifs
  · rw [List.length_append, List.length_singleton]
  · exact Nat.le_succ _

theorem rounds_length (value : BitVec 32) (i : Nat) (t : Trace) :
    (t.rounds 24 value i).printed.length ≤ t.printed.length + 3 * i := by
  induction i with
  | zero => exact le_rfl
  | succ i ih =>
    have hData := note_length 2 (sentBit 24 value i) (t.rounds 24 value i)
    have hUp := note_length 1 true ((t.rounds 24 value i).note 2 (sentBit 24 value i))
    have hDown := note_length 1 false (((t.rounds 24 value i).note 2 (sentBit 24 value i)).note 1 true)
    change (((((t.rounds 24 value i).note 2 (sentBit 24 value i)).note 1 true).note 1 false)).printed.length ≤ _
    omega

theorem frame_length (value : BitVec 32) (t : Trace) : (t.frame value).printed.length ≤ t.printed.length + 75 := by
  have hClock := note_length 1 false t
  have hSelect := note_length 0 false (t.note 1 false)
  have hRounds := rounds_length value 24 ((t.note 1 false).note 0 false)
  have hDone := note_length 0 true (Trace.rounds 24 value 24 ((t.note 1 false).note 0 false))
  rw [Trace.frame]
  omega

theorem session_length (frames : List (BitVec 32)) (p : Gpior × Trace) :
    (session levels frames p).2.printed.length ≤ p.2.printed.length + 75 * frames.length := by
  induction frames generalizing p with
  | nil => exact le_rfl
  | cons value frames ih =>
    have hRest := ih ((spiTxrx levels .pllSysCsN 24 value p.1).2, p.2.frame value)
    dsimp only at hRest
    have hFirst := frame_length value p.2
    rw [List.length_cons]
    change (session levels frames ((spiTxrx levels .pllSysCsN 24 value p.1).2, p.2.frame value)).2.printed.length ≤ _
    omega

/-- The memory has room for a set-up of a hundred registers. -/
theorem boot_fits (regs : List (BitVec 16 × BitVec 8)) (p : Pins) (hRegs : regs.length ≤ 100) :
    ((ad9516Boot (tracedGpio levels) regs).run (⟨p, [], 0⟩, .start)).2.2.printed.length ≤ 8192 := by
  have hFrames : ∀ ok : Bool, (knocking ++ if ok then loading regs else []).length ≤ regs.length + 6 := by
    simp [knocking, loading]
  have hBound := hFrames (decide (answered levels (⟨p, [], 0⟩, .start) = 0xc3))
  have hLength := session_length levels
    (knocking ++ if decide (answered levels (⟨p, [], 0⟩, .start) = 0xc3) then loading regs else []) (⟨p, [], 0⟩, .start)
  have hStart : Trace.start.printed.length = 0 := rfl
  rw [run_ad9516Boot]
  dsimp only at hLength ⊢
  omega

end WrRfDemo.Pll

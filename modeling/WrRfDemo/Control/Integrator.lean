import Mathlib.Tactic.IntervalCases
import WrRfDemo.Clocked.Delay
import WrRfDemo.Control.PiControl

/-! # The bound of the integrator

The flags that stop the integrator are about a sample that was taken in up to five samples ago.
A trail of the values that the integrator had when each stage was filled relates them to the
present value, and bounds it.
-/

namespace WrRfDemo.Control

open Clocked

/-- The values of the integrator that the stages, and the clip flags, go back to. -/
structure Trail where
  acc1 : Int
  acc2 : Int
  acc3 : Int
  judged : Int

def Trail.next (t : Trail) (_ : PiIn) (s : PiControl) : Trail where
  acc1 := s.acc.toInt
  acc2 := t.acc1
  acc3 := t.acc2
  judged := if s.stage3 then t.acc3 else t.judged

/-- The integral term stays in reach of the clipped range. -/
def Bounded (ki acc : Int) : Prop :=
  -(2 ^ 32 + ki * 2560) ≤ ki * (acc / 64) ∧ ki * (acc / 64) ≤ 2 ^ 32 + ki * 2560

/-- Two values of the integrator with at most one sample in between. -/
def Near (filled : Bool) (after before : Int) : Prop :=
  -32768 ≤ after - before ∧ after - before ≤ 32768 ∧ (filled = false → after = before)

structure Inv (g : Gains) (t : Trail) (s : PiControl) : Prop where
  acc : Bounded g.ki.toInt s.acc.toInt
  acc1 : Bounded g.ki.toInt t.acc1
  acc2 : Bounded g.ki.toInt t.acc2
  near0 : Near s.stage0 s.acc.toInt t.acc1
  near1 : Near s.stage1 t.acc1 t.acc2
  near2 : Near s.stage2 t.acc2 t.acc3
  near3 : Near s.stage3 t.acc3 t.judged
  acc0 : s.stage1 = true → s.acc0.toInt = t.acc1 / 64
  termI : s.stage2 = true → s.termI.toInt = g.ki.toInt * (t.acc2 / 64) / 65536
  termP : s.stage2 = true → Fits 16 s.termP.toInt
  sum : s.stage3 = true → Fits 16 (s.sum.toInt - g.ki.toInt * (t.acc3 / 64) / 65536)
  plus : s.clipPlus = false → g.ki.toInt * (t.judged / 64) < 2 ^ 32
  minus : s.clipMinus = false → -2 ^ 32 ≤ g.ki.toInt * (t.judged / 64)
  apart : s.clipPlus = true → s.clipMinus = false

section

variable {ki acc : Int}

theorem mul_div_mono (hKi : 0 < ki) {before after : Int} (h : before ≤ after) : ki * (before / 64) ≤ ki * (after / 64) :=
  Int.mul_le_mul_of_nonneg_left (Int.ediv_le_ediv (by decide) h) (Int.le_of_lt hKi)

theorem mul_div_le (hKi : 0 < ki) {before after : Int} (h : after ≤ before + 163840) :
    ki * (after / 64) ≤ ki * (before / 64) + ki * 2560 := by
  have hShift : ki * (after / 64) ≤ ki * (before / 64 + 2560) :=
    Int.mul_le_mul_of_nonneg_left (by omega) (Int.le_of_lt hKi)
  rwa [Int.mul_add] at hShift

theorem Bounded.div (h : Bounded ki acc) (hKi : 0 < ki) (hSmall : ki ≤ 32767) :
    -4378850816 ≤ acc / 64 ∧ acc / 64 ≤ 4378850816 := by
  obtain ⟨hLow, hHigh⟩ := h
  constructor
  · rcases Int.le_total 0 (acc / 64) with hPos | hNeg
    · omega
    · have hLess : ki * (acc / 64) ≤ 1 * (acc / 64) := Int.mul_le_mul_of_nonpos_right (by omega) hNeg
      omega
  · rcases Int.le_total 0 (acc / 64) with hPos | hNeg
    · have hMore : 1 * (acc / 64) ≤ ki * (acc / 64) := Int.mul_le_mul_of_nonneg_right (by omega) hPos
      omega
    · omega

theorem Bounded.fits_acc (h : Bounded ki acc) (hKi : 0 < ki) (hSmall : ki ≤ 32767) {err : Int}
    (hErr : -32768 ≤ err ∧ err ≤ 32767) : Fits 40 (acc + err) := by
  obtain ⟨hLow, hHigh⟩ := h.div hKi hSmall
  constructor <;> omega

theorem Bounded.term (h : Bounded ki acc) (hSmall : ki ≤ 32767) :
    -66817 ≤ ki * (acc / 64) / 65536 ∧ ki * (acc / 64) / 65536 ≤ 66817 := by
  obtain ⟨hLow, hHigh⟩ := h
  constructor <;> omega

end

namespace Inv

variable {g : Gains} {t : Trail} {s : PiControl} {i : PiIn}

theorem judged_near (h : Inv g t s) : -131072 ≤ s.acc.toInt - t.judged ∧ s.acc.toInt - t.judged ≤ 131072 := by
  obtain ⟨hLow0, hHigh0, -⟩ := h.near0
  obtain ⟨hLow1, hHigh1, -⟩ := h.near1
  obtain ⟨hLow2, hHigh2, -⟩ := h.near2
  obtain ⟨hLow3, hHigh3, -⟩ := h.near3
  omega

/-- An accepted sample moves the integrator out only if nothing is clipped on that side. -/
theorem taken_bounded (h : Inv g t s) (hKi : 0 < g.ki.toInt) : Bounded g.ki.toInt (s.acc.toInt + s.taken i) := by
  have hNear := h.judged_near
  have hErr := i.err_range
  rw [PiControl.taken]
  split_ifs with hTaken
  · rcases Int.lt_trichotomy i.err 0 with hNeg | hZero | hPos
    · have hClip : s.clipMinus = false := by
        rcases hTaken.2 with ⟨hPlus, -⟩ | ⟨-, hUp⟩ | ⟨-, hMinus⟩
        · exact h.apart hPlus
        · omega
        · exact hMinus
      have hJudged := h.minus hClip
      have hReach := mul_div_le hKi (show t.judged ≤ s.acc.toInt + i.err + 163840 by omega)
      have hDown := mul_div_mono hKi (show s.acc.toInt + i.err ≤ s.acc.toInt by omega)
      exact ⟨by omega, Int.le_trans hDown h.acc.2⟩
    · rw [hZero, Int.add_zero]
      exact h.acc
    · have hClip : s.clipPlus = false := by
        rcases hTaken.2 with ⟨-, hDown⟩ | ⟨hMinus, -⟩ | ⟨hPlus, -⟩
        · omega
        · cases hPlus : s.clipPlus with
          | false => rfl
          | true => rw [h.apart hPlus] at hMinus; cases hMinus
        · exact hPlus
      have hJudged := h.plus hClip
      have hReach := mul_div_le hKi (show s.acc.toInt + i.err ≤ t.judged + 163840 by omega)
      have hUp := mul_div_mono hKi (show s.acc.toInt ≤ s.acc.toInt + i.err by omega)
      exact ⟨Int.le_trans h.acc.1 hUp, by omega⟩
  · rw [Int.add_zero]
    exact h.acc

theorem near_taken (i : PiIn) (s : PiControl) : Near i.dValid (s.acc.toInt + s.taken i) s.acc.toInt := by
  have hErr := i.err_range
  rw [PiControl.taken]
  split_ifs with hTaken
  · refine ⟨by omega, by omega, ?_⟩
    rw [hTaken.1]
    intro hFalse
    cases hFalse
  · exact ⟨by omega, by omega, fun _ => by omega⟩

theorem near_judged (h : Inv g t s) : Near s.stage2 t.acc2 (t.next i s).judged := by
  rw [Trail.next]
  cases hStage : s.stage3 with
  | true => exact h.near2
  | false =>
    have hSame := h.near3.2.2 hStage
    rw [if_neg Bool.false_ne_true, ← hSame]
    exact h.near2

theorem toInt_acc (h : Inv g t s) (hKi : 0 < g.ki.toInt) (hRst : i.rstN = true) :
    (s.clock g i).acc.toInt = s.acc.toInt + s.taken i := by
  have hSmall := fits_toInt g.ki
  exact PiControl.toInt_acc_clock hRst (h.acc.fits_acc hKi (by simp only [Fits] at hSmall; omega) i.err_range)

theorem toInt_termI (h : Inv g t s) (hRst : i.rstN = true) (hStage : s.stage1 = true) :
    (s.clock g i).termI.toInt = g.ki.toInt * (t.acc1 / 64) / 65536 := by
  have hSmall := fits_toInt g.ki
  have hTerm := h.acc1.term (by simp only [Fits] at hSmall; omega)
  rw [PiControl.toInt_termI_clock hRst, h.acc0 hStage, Int.mul_comm]
  rw [h.acc0 hStage, Int.mul_comm]
  constructor <;> omega

theorem toInt_sum (h : Inv g t s) (hRst : i.rstN = true) (hStage : s.stage2 = true) :
    (s.clock g i).sum.toInt = s.termP.toInt + g.ki.toInt * (t.acc2 / 64) / 65536 := by
  have hSmall := fits_toInt g.ki
  have hTerm := h.acc2.term (by simp only [Fits] at hSmall; omega)
  have hProportional := h.termP hStage
  rw [PiControl.toInt_sum_clock hRst, h.termI hStage]
  rw [h.termI hStage]
  simp only [Fits] at hProportional
  constructor <;> omega

theorem flags_clock (h : Inv g t s) (hRst : i.rstN = true) :
    ((s.clock g i).clipPlus = false → g.ki.toInt * ((t.next i s).judged / 64) < 2 ^ 32) ∧
      ((s.clock g i).clipMinus = false → -2 ^ 32 ≤ g.ki.toInt * ((t.next i s).judged / 64)) ∧
      ((s.clock g i).clipPlus = true → (s.clock g i).clipMinus = false) := by
  cases hStage : s.stage3 with
  | false =>
    have hPlus : (s.clock g i).clipPlus = s.clipPlus := by simp [PiControl.clock, hRst, hStage]
    have hMinus : (s.clock g i).clipMinus = s.clipMinus := by simp [PiControl.clock, hRst, hStage]
    have hJudged : (t.next i s).judged = t.judged := by simp [Trail.next, hStage]
    rw [hPlus, hMinus, hJudged]
    exact ⟨h.plus, h.minus, h.apart⟩
  | true =>
    have hPlus : (s.clock g i).clipPlus = s.clip.clipPlus := by simp [PiControl.clock, hRst, hStage]
    have hMinus : (s.clock g i).clipMinus = s.clip.clipMinus := by simp [PiControl.clock, hRst, hStage]
    have hJudged : (t.next i s).judged = t.acc3 := by simp [Trail.next, hStage]
    have hSum := h.sum hStage
    simp only [Fits] at hSum
    rw [hPlus, hMinus, hJudged, ← Bool.not_eq_true, ← Bool.not_eq_true, s.clipPlus_clip, s.clipMinus_clip]
    omega

theorem clock (h : Inv g t s) (hKi : 0 < g.ki.toInt) (hRst : i.rstN = true) : Inv g (t.next i s) (s.clock g i) := by
  have hAcc := h.toInt_acc hKi hRst
  constructor
  case acc =>
    rw [hAcc]
    exact h.taken_bounded hKi
  case acc1 => exact h.acc
  case acc2 => exact h.acc1
  case near0 =>
    rw [hAcc]
    simp only [PiControl.clock, hRst, if_true]
    exact near_taken i s
  case near1 =>
    simp only [PiControl.clock, hRst, if_true]
    exact h.near0
  case near2 =>
    simp only [PiControl.clock, hRst, if_true]
    exact h.near1
  case near3 =>
    simp only [PiControl.clock, hRst, if_true]
    exact h.near_judged
  case acc0 => exact fun _ => PiControl.toInt_acc0_clock hRst
  case termI =>
    intro hStage
    simp only [PiControl.clock, hRst, if_true] at hStage
    exact h.toInt_termI hRst hStage
  case termP =>
    intro _
    rw [PiControl.toInt_termP_clock hRst]
    exact PiControl.fits_termP g s.d1
  case sum =>
    intro hStage
    simp only [PiControl.clock, hRst, if_true] at hStage
    rw [h.toInt_sum hRst hStage]
    have hProportional := h.termP hStage
    rw [show (t.next i s).acc3 = t.acc2 from rfl, Int.add_sub_cancel]
    exact hProportional
  case plus => exact (h.flags_clock hRst).1
  case minus => exact (h.flags_clock hRst).2.1
  case apart => exact (h.flags_clock hRst).2.2

end Inv

/-! ### From a reset on -/

namespace PiControl

variable {g : Gains} {r : PiIn} {inputs : List PiIn} {s : PiControl}

theorem inv_reset (hKi : 0 < g.ki.toInt) (hReset : r.rstN = false) : Inv g ⟨0, 0, 0, 0⟩ (s.clock g r) := by
  have hBounded : Bounded g.ki.toInt 0 := by
    rw [Bounded, Int.zero_ediv, Int.mul_zero]
    omega
  constructor <;> simp [clock, hReset, hBounded, Near]

theorem inv_stateAt (hKi : 0 < g.ki.toInt) (hReset : r.rstN = false) (hRun : ∀ j ∈ inputs, j.rstN = true) {n : Nat}
    (hn : n ≤ inputs.length) : ∃ t, Inv g t (stateAt (clock g) inputs (s.clock g r) n) := by
  have hNext : ∀ (n : Nat) i s, i ∈ inputs → (∃ t, Inv g t s) → ∃ t, Inv g t (s.clock g i) := by
    rintro n i s hi ⟨t, hInv⟩
    exact ⟨t.next i s, hInv.clock hKi (hRun i hi)⟩
  exact stateAt_invariant (fun _ s => ∃ t, Inv g t s) ⟨_, inv_reset hKi hReset⟩ hNext hn

/-- The integrator in unbounded numbers: the errors of the samples that are integrated along the run. -/
def total (g : Gains) : List PiIn → PiControl → Int
  | [], _ => 0
  | i :: rest, s => s.taken i + total g rest (s.clock g i)

theorem total_concat (i : PiIn) (before : List PiIn) (s : PiControl) :
    total g (before ++ [i]) s = total g before s + (run (clock g) before s).taken i := by
  induction before generalizing s with
  | nil => simp [total]
  | cons j rest ih =>
    rw [List.cons_append, total, total, ih, run_cons]
    omega

theorem toInt_acc_stateAt (hKi : 0 < g.ki.toInt) (hReset : r.rstN = false) (hRun : ∀ j ∈ inputs, j.rstN = true) {n : Nat}
    (hn : n ≤ inputs.length) :
    (stateAt (clock g) inputs (s.clock g r) n).acc.toInt = total g (inputs.take n) (s.clock g r) := by
  induction n with
  | zero => simp [stateAt, clock, hReset, total]
  | succ n ih =>
    have hInput := List.getElem?_eq_getElem hn
    have hBefore : n ≤ inputs.length := Nat.le_of_succ_le hn
    obtain ⟨t, hInv⟩ := inv_stateAt (s := s) hKi hReset hRun hBefore
    rw [stateAt_succ hInput, hInv.toInt_acc hKi (hRun _ (List.mem_of_getElem? hInput)), ih hBefore, List.take_add_one, hInput,
      Option.toList_some, total_concat]
    rfl

def stage (j : Nat) (s : PiControl) : Bool :=
  match j with
  | 0 => s.stage0
  | 1 => s.stage1
  | 2 => s.stage2
  | 3 => s.stage3
  | _ => s.qValidO

theorem qValidO_stateAt (hReset : r.rstN = false) (hRun : ∀ j ∈ inputs, j.rstN = true) {n : Nat} (hn : n ≤ inputs.length) :
    (stateAt (clock g) inputs (s.clock g r) n).qValidO = true ↔
      ∃ k, n = k + 5 ∧ ∃ i, inputs[k]? = some i ∧ i.dValid = true := by
  have hEmpty : ∀ j ≤ 4, stage j (s.clock g r) = false := by
    intro j hj
    interval_cases j <;> simp [stage, clock, hReset]
  have hFirst : ∀ i ∈ inputs, ∀ s : PiControl, stage 0 (s.clock g i) = i.dValid := by
    intro i hi s
    simp [stage, clock, hRun i hi]
  have hNext : ∀ i ∈ inputs, ∀ j < 4, ∀ s : PiControl, stage (j + 1) (s.clock g i) = stage j s := by
    intro i hi j hj s
    interval_cases j <;> simp [stage, clock, hRun i hi]
  exact bit_stateAt hEmpty hFirst hNext (Nat.le_refl 4) hn

/-- What the controller is meant to compute, in unbounded numbers. -/
def result (g : Gains) (i : PiIn) (acc : Int) : Int :=
  max (-32767) (min (g.kp.toInt * (i.d.toNat - 32768) / 2 ^ 16 + g.ki.toInt * (acc / 64) / 2 ^ 16) 32767)

theorem toInt_qO_of_clocks {s s0 s1 s2 s3 s4 : PiControl} {t : Trail} {i i1 i2 i3 i4 : PiIn} (hInv : Inv g t s)
    (hKi : 0 < g.ki.toInt)
    (hRst : i.rstN = true ∧ i1.rstN = true ∧ i2.rstN = true ∧ i3.rstN = true ∧ i4.rstN = true)
    (h0 : s0 = s.clock g i) (h1 : s1 = s0.clock g i1) (h2 : s2 = s1.clock g i2) (h3 : s3 = s2.clock g i3)
    (h4 : s4 = s3.clock g i4) (hValid : i.dValid = true) : s4.qO.toInt = result g i s0.acc.toInt := by
  obtain ⟨hRst, hRst1, hRst2, hRst3, hRst4⟩ := hRst
  have hStage0 : s0.stage0 = true := by simp [h0, clock, hRst, hValid]
  have hStage1 : s1.stage1 = true := by simp [h1, clock, hRst1, hStage0]
  have hStage2 : s2.stage2 = true := by simp [h2, clock, hRst2, hStage1]
  have hStage3 : s3.stage3 = true := by simp [h3, clock, hRst3, hStage2]
  have hInv0 := h0 ▸ hInv.clock hKi hRst
  have hInv1 := h1 ▸ hInv0.clock hKi hRst1
  have hInv2 := h2 ▸ hInv1.clock hKi hRst2
  have hTermI : s2.termI.toInt = g.ki.toInt * (s0.acc.toInt / 64) / 65536 := hInv2.termI hStage2
  have hD0 : s0.d0.toInt = i.err := h0 ▸ toInt_d0_clock hRst hValid
  have hD1 : s1.d1 = s0.d0 := by simp [h1, clock, hRst1]
  have hTermP : s2.termP.toInt = i.err * g.kp.toInt / 65536 := by
    rw [h2, toInt_termP_clock hRst2, hD1, hD0]
  have hSum : s3.sum.toInt = i.err * g.kp.toInt / 65536 + g.ki.toInt * (s0.acc.toInt / 64) / 65536 := by
    rw [h3, hInv2.toInt_sum hRst3 hStage2, hTermP]
    rfl
  have hQ : s4.qO = s3.clip.qO := by simp [h4, clock, hRst4, hStage3]
  rw [hQ, toInt_qO_clip, hSum, result, Int.mul_comm g.kp.toInt]
  rfl

/-- The integrator is the unbounded sum of what it takes in, and every result is the unbounded one. -/
theorem arithmetic_exact (hKi : 0 < g.ki.toInt) (hReset : r.rstN = false) (hRun : ∀ j ∈ inputs, j.rstN = true)
    (s : PiControl) :
    let state := stateAt (clock g) inputs (s.clock g r)
    (∀ n ≤ inputs.length, (state n).acc.toInt = total g (inputs.take n) (s.clock g r)) ∧
    (∀ n ≤ inputs.length, (state n).qValidO = true ↔
      ∃ k, n = k + 5 ∧ ∃ i, inputs[k]? = some i ∧ i.dValid = true) ∧
    ∀ k i, inputs[k]? = some i → i.dValid = true → k + 5 ≤ inputs.length →
      (state (k + 5)).qO.toInt = result g i (state (k + 1)).acc.toInt := by
  intro state
  refine ⟨fun n hn => toInt_acc_stateAt hKi hReset hRun hn, fun n hn => qValidO_stateAt hReset hRun hn, ?_⟩
  intro k i hInput hValid hLong
  have hClock : ∀ j < inputs.length, ∃ i ∈ inputs, state (j + 1) = (state j).clock g i :=
    fun j hj => exists_stateAt_succ hj
  obtain ⟨i1, hi1, h1⟩ := hClock (k + 1) (by omega)
  obtain ⟨i2, hi2, h2⟩ := hClock (k + 2) (by omega)
  obtain ⟨i3, hi3, h3⟩ := hClock (k + 3) (by omega)
  obtain ⟨i4, hi4, h4⟩ := hClock (k + 4) (by omega)
  have hRst := hRun i (List.mem_of_getElem? hInput)
  obtain ⟨t, hInv⟩ := inv_stateAt (s := s) (n := k) hKi hReset hRun (by omega)
  exact toInt_qO_of_clocks hInv hKi ⟨hRst, hRun i1 hi1, hRun i2 hi2, hRun i3 hi3, hRun i4 hi4⟩ (stateAt_succ hInput) h1 h2 h3
    h4 hValid

/-- The first of five samples in a row. -/
theorem arithmetic_exact_backToBack :
    let g : Gains := ⟨33, 3276⟩
    let sample (d : BitVec 16) : PiIn := ⟨true, true, d⟩
    let s : PiControl := ⟨-1, 0, 0, true, true, true, true, -1, 0, 0, 0, true, true, true, 0⟩
    let state := stateAt (clock g) [sample 65535, sample 0, sample 65535, sample 40000, sample 1]
      (s.clock g ⟨false, true, 5⟩)
    (state 1).acc.toInt = 32767 ∧ (state 5).qValidO = true ∧ (state 5).qO.toInt = result g (sample 65535) 32767 := by
  intro g sample s state
  have hRun : ∀ j ∈ [sample 65535, sample 0, sample 65535, sample 40000, sample 1], j.rstN = true := by decide
  obtain ⟨hAcc, hValid, hResult⟩ := arithmetic_exact (g := g) (r := ⟨false, true, 5⟩) (by decide) rfl hRun s
  have hFirst : (state 1).acc.toInt = 32767 := (hAcc 1 (by decide)).trans (by decide)
  refine ⟨hFirst, (hValid 5 (by decide)).mpr ⟨0, rfl, sample 65535, rfl, rfl⟩, ?_⟩
  rw [← hFirst]
  exact hResult 0 (sample 65535) rfl rfl (by decide)

end PiControl

end WrRfDemo.Control

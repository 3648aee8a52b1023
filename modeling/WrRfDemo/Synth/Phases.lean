import Mathlib.Algebra.Group.Int.Defs
import Mathlib.Tactic.IntervalCases
import WrRfDemo.Synth.QuadChannel

/-! # Four phases on a line

The phases of a clock start at a delayed copy of the accumulator, and the steps between them are taken from the
tuning word as it is now. The accumulator went on from that copy by the word of the clock before.
-/

namespace WrRfDemo.Synth

open Clocked

/-- Four times what phase `k` lacks of the point `k` quarters of the way to the next accumulator value. -/
def shortfall (f : Quad (BitVec 43)) (next : BitVec 43) (k : Fin 4) : Int :=
  (k.val * (next - f.c0).toNat - 4 * (f.get k - f.c0).toNat) % 2 ^ 45

/-- Every phase is short of its point by less than two. -/
def OnLine (f : Quad (BitVec 43)) (next : BitVec 43) : Prop := ∀ k, shortfall f next k < 8

instance (f : Quad (BitVec 43)) (next : BitVec 43) : Decidable (OnLine f next) := inferInstanceAs (Decidable (∀ _, _))

/-- The tuning word has not changed but for its last bit, or from `4 * m + 2` to `4 * m` or `4 * m + 1`. -/
def Steady (before now : BitVec 43) : Prop :=
  before.toNat / 2 = now.toNat / 2 ∨ before.toNat % 4 = 2 ∧ before.toNat / 2 = now.toNat / 2 + 1

def quarters (tune : BitVec 43) : Fin 4 → Nat
  | 0 => 0
  | 1 => tune.toNat / 4
  | 2 => tune.toNat / 2
  | 3 => tune.toNat / 4 + tune.toNat / 2

theorem toNat_sub_phases (base tune : BitVec 43) (k : Fin 4) :
    ((QuadChannel.phases base tune).get k - base).toNat = quarters tune k := by
  have hTune := tune.isLt
  have hFourth : (tune >>> 2).toNat = tune.toNat / 4 := by rw [BitVec.toNat_ushiftRight, Nat.shiftRight_eq_div_pow]
  have hHalf : (tune >>> 1).toNat = tune.toNat / 2 := by rw [BitVec.toNat_ushiftRight, Nat.shiftRight_eq_div_pow]
  have hBack : ∀ step : BitVec 43, base + step - base = step := fun step => by rw [BitVec.add_comm, BitVec.add_sub_cancel]
  match k with
  | 0 => simp [QuadChannel.phases, Quad.get, quarters]
  | 1 => simp only [QuadChannel.phases, Quad.get, quarters, hBack, hFourth]
  | 2 => simp only [QuadChannel.phases, Quad.get, quarters, hBack, hHalf]
  | 3 =>
    simp only [QuadChannel.phases, Quad.get, quarters, BitVec.add_assoc, hBack, BitVec.toNat_add, hFourth, hHalf]
    exact Nat.mod_eq_of_lt (by omega)

theorem mod_small_iff {x : Int} (hLow : -(3 * 2 ^ 43) ≤ x) (hHigh : x < 3 * 2 ^ 43) :
    x % 2 ^ 45 < 8 ↔ 0 ≤ x ∧ x < 8 := by
  omega

/-- The three phases behind the first, by the rest of the tuning word. -/
theorem steady_iff (before now : Nat) :
    ((0 ≤ (before - 4 * (now / 4) : Int) ∧ (before - 4 * (now / 4) : Int) < 8) ∧
      (0 ≤ (2 * before - 4 * (now / 2) : Int) ∧ (2 * before - 4 * (now / 2) : Int) < 8) ∧
      0 ≤ (3 * before - 4 * (now / 4 + now / 2) : Int) ∧ (3 * before - 4 * (now / 4 + now / 2) : Int) < 8) ↔
    before / 2 = now / 2 ∨ before % 4 = 2 ∧ before / 2 = now / 2 + 1 := by
  obtain ⟨m, r, hr, rfl⟩ : ∃ m r, r < 4 ∧ now = 4 * m + r := ⟨now / 4, now % 4, Nat.mod_lt _ (by decide), by omega⟩
  constructor
  · rintro ⟨h1, h2, h3⟩
    interval_cases r <;> omega
  · rintro (hSame | hAhead) <;> interval_cases r <;> omega

theorem onLine_phases_iff (base now next : BitVec 43) :
    OnLine (QuadChannel.phases base now) next ↔ Steady (next - base) now := by
  have hNow := now.isLt
  have hBefore := (next - base).isLt
  have hShort : ∀ k, shortfall (QuadChannel.phases base now) next k =
      (k.val * (next - base).toNat - 4 * quarters now k) % 2 ^ 45 := by
    intro k
    rw [shortfall, ← toNat_sub_phases base]
    rfl
  have hThree : ((3 : Fin 4).val : Int) = 3 := rfl
  rw [Steady, ← steady_iff]
  constructor
  · intro hOn
    have hAll := fun k => hShort k ▸ hOn k
    refine ⟨?_, ?_, ?_⟩
    · exact (mod_small_iff (by omega) (by omega)).mp (by simpa [quarters] using hAll 1)
    · exact (mod_small_iff (by omega) (by omega)).mp (by simpa [quarters] using hAll 2)
    · exact (mod_small_iff (by omega) (by omega)).mp (by simpa [quarters, hThree] using hAll 3)
  · rintro ⟨h1, h2, h3⟩ k
    rw [hShort]
    match k with
    | 0 => simp [quarters]
    | 1 => simpa [quarters] using (mod_small_iff (by omega) (by omega)).mpr h1
    | 2 => simpa [quarters] using (mod_small_iff (by omega) (by omega)).mpr h2
    | 3 => simpa [quarters, hThree] using (mod_small_iff (by omega) (by omega)).mpr h3

namespace QuadChannel

variable {i : QuadIn} {s : QuadChannel} {inputs : List QuadIn}

theorem rstN_of_advances (h : i.advances = true) : i.rstN = true ∧ i.accLoad = false ∧ i.dreq = true := by
  simpa [QuadIn.advances, and_assoc] using h

theorem acc_clock (h : i.advances = true) : (s.clock i).acc = s.acc + s.tune := by
  obtain ⟨hRst, hLoad, hDreq⟩ := rstN_of_advances h
  simp [clock, hRst, hLoad, hDreq]

theorem accD0_clock (h : i.advances = true) : (s.clock i).accD0 = s.acc := by
  simp [clock, h]

theorem accF_clock (h : i.advances = true) : (s.clock i).accF = phases s.accD0 s.tune := by
  simp [clock, h]

/-- In every run: each clock's phases lie between the accumulator values of two clocks, if and only if the tuning word is
steady from each clock to the next. -/
theorem interpolates_iff (hRun : ∀ j ∈ inputs, j.advances = true) (s : QuadChannel) :
    let state := stateAt clock inputs s
    (∀ n, n + 3 ≤ inputs.length →
      (state (n + 2)).accF.get 0 = (state n).acc ∧ OnLine (state (n + 2)).accF ((state (n + 3)).accF.get 0)) ↔
    ∀ n, n + 3 ≤ inputs.length → Steady (state n).tune (state (n + 1)).tune := by
  intro state
  refine forall_congr' fun n => forall_congr' fun hn => ?_
  have hClock : ∀ k < inputs.length, ∃ i, i.advances = true ∧ state (k + 1) = (state k).clock i := by
    intro k hk
    obtain ⟨i, hi, hStep⟩ := exists_stateAt_succ hk
    exact ⟨i, hRun i hi, hStep⟩
  obtain ⟨i0, hi0, h0⟩ := hClock n (by omega)
  obtain ⟨i1, hi1, h1⟩ := hClock (n + 1) (by omega)
  obtain ⟨i2, hi2, h2⟩ := hClock (n + 2) (by omega)
  have hPhases : (state (n + 2)).accF = phases (state n).acc (state (n + 1)).tune := by
    rw [h1, accF_clock hi1, h0, accD0_clock hi0]
  have hNext : (state (n + 3)).accF.get 0 = (state n).acc + (state n).tune := by
    rw [h2, accF_clock hi2, h1, accD0_clock hi1, h0, acc_clock hi0]
    rfl
  rw [hPhases, hNext, onLine_phases_iff, BitVec.add_comm, BitVec.add_sub_cancel]
  exact and_iff_right rfl

/-- A word that is held for three clocks, with two bits that the shifts lose. -/
theorem interpolates_held :
    let stage : Stage := ⟨1, 0, 0, 0, 0, 0, 0, 0, 0, 0, 0, 0, 0, 0⟩
    let s : QuadChannel := ⟨7, -5, 0, ⟨0, 0, 0, 0⟩, 0, ⟨stage, stage, stage, stage⟩, ⟨0, 0, 0, 0⟩⟩
    let hold : QuadIn := ⟨true, false, false, true, 0, 0⟩
    let state := stateAt clock [hold, hold, hold] s
    (state 2).accF = ⟨-5, -4, -2, -1⟩ ∧ OnLine (state 2).accF ((state 3).accF.get 0) := by
  intro stage s hold state
  have hRun : ∀ j ∈ [hold, hold, hold], j.advances = true := by decide
  refine ⟨by decide, ((interpolates_iff hRun s).mpr ?_ 0 (by decide)).2⟩
  intro n hn
  obtain rfl : n = 0 := by simpa using hn
  left
  rfl

/-- A word of eight for one clock: the phases go on to six, and back to the start. -/
theorem phases_step_back :
    let stage : Stage := ⟨1, 0, 0, 0, 0, 0, 0, 0, 0, 0, 0, 0, 0, 0⟩
    let s : QuadChannel := ⟨0, 0, 0, ⟨0, 0, 0, 0⟩, 0, ⟨stage, stage, stage, stage⟩, ⟨0, 0, 0, 0⟩⟩
    let load (tune : BitVec 43) : QuadIn := ⟨true, false, true, true, 0, tune⟩
    let state := stateAt clock [load 8, load 0, load 0] s
    (state 2).accF = ⟨0, 2, 4, 6⟩ ∧ (state 3).accF.get 0 = 0 ∧
      ¬ ∀ (s : QuadChannel) (inputs : List QuadIn), (∀ j ∈ inputs, j.advances = true) → ∀ n, n + 3 ≤ inputs.length →
        OnLine (stateAt clock inputs s (n + 2)).accF ((stateAt clock inputs s (n + 3)).accF.get 0) := by
  intro stage s load state
  refine ⟨by decide, by decide, ?_⟩
  intro hAlways
  have hLine := hAlways s [load 8, load 0, load 0] (by decide) 0 (by decide)
  revert hLine
  decide

end QuadChannel

end WrRfDemo.Synth

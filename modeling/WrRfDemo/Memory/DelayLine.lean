import Mathlib.Data.List.GetD
import Mathlib.Tactic.SplitIfs

/-! # The recent past on a ring

A ring of `n` cells keeps the last `n` samples of a sequence: the cells below the position hold the latest ones, those
from it on the ones of the round before.
-/

namespace WrRfDemo.Memory

variable {α : Type*} [Zero α] {n : Nat} {samples : List α} {pos : Nat} {cells : Vector α n}

/-- The sample at a time, 0 before the start. -/
def sampleAt (samples : List α) (t : Int) : α := if 0 ≤ t then samples.getD t.toNat 0 else 0

theorem sampleAt_of_neg (samples : List α) {t : Int} (ht : t < 0) : sampleAt samples t = 0 :=
  if_neg (Int.not_le.mpr ht)

theorem sampleAt_append (before after : List α) {t : Int} (ht : t < before.length) :
    sampleAt (before ++ after) t = sampleAt before t := by
  rw [sampleAt, sampleAt]
  split_ifs with hStart
  · rw [List.getD_append _ _ _ _ (by omega)]
  · rfl

theorem sampleAt_length (before : List α) (x : α) : sampleAt (before ++ [x]) before.length = x := by
  simp [sampleAt]

/-- The time of the sample in a cell, when `t` samples are over and the next one goes to the cell `pos`. -/
def cellTime (n t pos k : Nat) : Int := if k < pos then t - pos + k else t - pos + k - n

def Recent (samples : List α) (pos : Nat) (cells : Vector α n) : Prop :=
  ∀ k (hk : k < n), cells[k] = sampleAt samples (cellTime n samples.length pos k)

theorem recent_start (n : Nat) : Recent ([] : List α) 0 (Vector.replicate n 0) := by
  intro k hk
  rw [Vector.getElem_replicate, sampleAt_of_neg]
  rw [cellTime, List.length_nil]
  split_ifs <;> omega

theorem Recent.put (h : Recent samples pos cells) (hPos : pos < n) (x : α) :
    Recent (samples ++ [x]) (pos + 1) (cells.set pos x) := by
  intro k hk
  rw [Vector.getElem_set, List.length_append, List.length_singleton]
  by_cases hHere : pos = k
  · subst hHere
    have hNow : cellTime n (samples.length + 1) (pos + 1) pos = samples.length := by
      rw [cellTime, if_pos (Nat.lt_succ_self pos)]
      omega
    rw [if_pos rfl, hNow, sampleAt_length]
  · have hTime : cellTime n (samples.length + 1) (pos + 1) k = cellTime n samples.length pos k := by
      rw [cellTime, cellTime]
      split_ifs <;> omega
    have hPast : cellTime n samples.length pos k < samples.length := by
      rw [cellTime]
      split_ifs <;> omega
    rw [if_neg hHere, h k hk, hTime, sampleAt_append _ _ hPast]

theorem Recent.wrap (h : Recent samples n cells) : Recent samples 0 cells := by
  intro k hk
  have hTime : cellTime n samples.length 0 k = cellTime n samples.length n k := by
    rw [cellTime, cellTime, if_pos hk, if_neg (Nat.not_lt_zero k)]
    omega
  rw [hTime]
  exact h k hk

/-- The cells in the order of their samples, the oldest first. -/
def slot (n pos i : Nat) : Nat := if pos + i < n then pos + i else pos + i - n

theorem slot_lt {i : Nat} (hPos : pos ≤ n) (hi : i < n) : slot n pos i < n := by
  rw [slot]
  split_ifs <;> omega

theorem Recent.walk (h : Recent samples pos cells) (hPos : pos ≤ n) {i : Nat} (hi : i < n) :
    cells.get ⟨slot n pos i, slot_lt hPos hi⟩ = sampleAt samples (samples.length - n + i) := by
  have hTime : cellTime n samples.length pos (slot n pos i) = samples.length - n + i := by
    rw [cellTime, slot]
    split_ifs <;> omega
  rw [← hTime]
  exact h _ (slot_lt hPos hi)

end WrRfDemo.Memory

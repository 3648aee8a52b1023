import Mathlib.Algebra.BigOperators.Group.Finset.Basic
import Mathlib.Algebra.Order.Ring.Rat
import WrRfDemo.Memory.Checked
import WrRfDemo.Memory.DelayLine

/-! # The FIR filter

`fir_load` reads the coefficients and `fir_process` keeps the latest samples on a ring. A coefficient file is the list of
the numbers that can be read from it, and a floating-point number is exact.
-/

namespace WrRfDemo.Filters

open Memory

inductive FilterArray
  | coeffs | coefs | delay
deriving DecidableEq

/-- The sizes of the two arrays are those of their allocations. -/
structure FirFilter where
  nTaps : Nat
  pos : Int
  delay : Vector Int nTaps
  coefs : Vector ℚ nTaps
deriving DecidableEq

/-- The bound is checked behind the store. -/
def readCoeffs : List ℚ → Vector ℚ 1024 → Nat → Except (Outside FilterArray) (Vector ℚ 1024 × Nat)
  | [], coeffs, n => .ok (coeffs, n)
  | number :: rest, coeffs, n => do
    let coeffs ← save .coeffs coeffs n number
    if n < 1024 then readCoeffs rest coeffs (n + 1) else return (coeffs, n)

/-- There is no filter where there is no file. `stack` is what `coeffs` holds before it is written. -/
def firLoad (stack : Vector ℚ 1024) : Option (List ℚ) → Except (Outside FilterArray) (Option FirFilter)
  | none => .ok none
  | some numbers => do
    let (coeffs, n) ← readCoeffs numbers stack 0
    let coefs ← copy .coeffs coeffs n
    return some { nTaps := n, pos := 0, delay := Vector.replicate n 0, coefs := coefs }

namespace FirFilter

def idx (flt : FirFilter) (i : Nat) : Int :=
  let idx := flt.pos - flt.nTaps + 1 + i
  if idx < 0 then idx + flt.nTaps
  else if flt.nTaps ≤ idx then idx - flt.nTaps
  else idx

def term (flt : FirFilter) (i : Nat) : Except (Outside FilterArray) ℚ := do
  let coef ← load .coefs flt.coefs i
  let sample ← load .delay flt.delay (flt.idx i)
  return coef * sample

/-- `acc` after the first passes of the loop. -/
def acc (flt : FirFilter) : Nat → Except (Outside FilterArray) ℚ
  | 0 => .ok 0
  | i + 1 => do
    let acc ← flt.acc i
    let term ← flt.term i
    return acc + term

def keep (flt : FirFilter) (x : Int) : Except (Outside FilterArray) FirFilter := do
  let delay ← save .delay flt.delay flt.pos x
  return { flt with delay := delay }

def advance (flt : FirFilter) : FirFilter :=
  { flt with pos := if flt.pos + 1 = flt.nTaps then 0 else flt.pos + 1 }

/-- The conversion to an integer drops the fraction. -/
def truncate (acc : ℚ) : Int := acc.num.tdiv acc.den

def firProcess (flt : FirFilter) (x : Int) : Except (Outside FilterArray) (Int × FirFilter) := do
  let flt ← flt.keep x
  let acc ← flt.acc flt.nTaps
  return (truncate acc, flt.advance)

def calls (flt : FirFilter) : List Int → Except (Outside FilterArray) FirFilter
  | [] => .ok flt
  | x :: rest => do
    let (_, flt) ← flt.firProcess x
    flt.calls rest

end FirFilter

/-! ### Loading -/

theorem readCoeffs_fits (numbers : List ℚ) (coeffs : Vector ℚ 1024) (n : Nat) (hFits : n + numbers.length ≤ 1024) :
    ∃ read, readCoeffs numbers coeffs n = .ok (read, n + numbers.length) ∧
      (∀ k < n, read[k]? = coeffs[k]?) ∧ ∀ k < numbers.length, read[n + k]? = numbers[k]? := by
  induction numbers generalizing coeffs n with
  | nil => exact ⟨coeffs, rfl, fun _ _ => rfl, fun k hk => absurd hk (Nat.not_lt_zero k)⟩
  | cons number rest ih =>
    rw [List.length_cons] at hFits
    have hRoom : n < 1024 := by omega
    obtain ⟨read, hRead, hBelow, hAbove⟩ := ih (coeffs.set n number) (n + 1) (by omega)
    refine ⟨read, ?_, ?_, ?_⟩
    · rw [readCoeffs, save_ofNat _ _ _ hRoom]
      change (if n < 1024 then readCoeffs rest (coeffs.set n number) (n + 1) else _) = _
      rw [if_pos hRoom, hRead, List.length_cons, Nat.add_right_comm, Nat.add_assoc]
    · intro k hk
      rw [hBelow k (Nat.lt_succ_of_lt hk), Vector.getElem?_set_ne _ (Nat.ne_of_gt hk)]
    · intro k hk
      cases k with
      | zero =>
        rw [Nat.add_zero, hBelow n (Nat.lt_succ_self n), Vector.getElem?_set_self]
        rfl
      | succ k =>
        rw [← Nat.add_assoc, Nat.add_right_comm]
        exact hAbove k (Nat.lt_of_succ_lt_succ hk)

theorem readCoeffs_over (numbers : List ℚ) (coeffs : Vector ℚ 1024) (n : Nat) (hn : n ≤ 1024)
    (hOver : 1024 < n + numbers.length) : readCoeffs numbers coeffs n = .error ⟨.coeffs, 1024, 1024⟩ := by
  induction numbers generalizing coeffs n with
  | nil => exact absurd hOver (Nat.not_lt.mpr hn)
  | cons number rest ih =>
    rw [List.length_cons] at hOver
    rcases Nat.lt_or_eq_of_le hn with hRoom | rfl
    · rw [readCoeffs, save_ofNat _ _ _ hRoom]
      change (if n < 1024 then readCoeffs rest (coeffs.set n number) (n + 1) else _) = _
      rw [if_pos hRoom]
      exact ih (coeffs.set n number) (n + 1) hRoom (by omega)
    · rw [readCoeffs, save_outside _ _ _ _ (Nat.le_refl 1024)]
      rfl

structure Loaded (numbers : List ℚ) (flt : FirFilter) : Prop where
  taps : flt.nTaps = numbers.length
  pos : flt.pos = 0
  delay : flt.delay = Vector.replicate flt.nTaps 0
  coefs : ∀ i < flt.nTaps, flt.coefs[i]? = numbers[i]?

theorem firLoad_fits (stack : Vector ℚ 1024) (numbers : List ℚ) (hFits : numbers.length ≤ 1024) :
    ∃ flt, firLoad stack (some numbers) = .ok (some flt) ∧ Loaded numbers flt := by
  obtain ⟨read, hRead, -, hNumbers⟩ := readCoeffs_fits numbers stack 0 (by omega)
  rw [Nat.zero_add] at hRead
  refine ⟨⟨numbers.length, 0, Vector.replicate _ 0, Vector.ofFn fun k => read[k.val]⟩, ?_, ?_⟩
  · rw [firLoad, hRead]
    change (copy FilterArray.coeffs read numbers.length >>= fun coefs => _) = _
    rw [copy_of_le _ _ hFits]
    rfl
  · refine ⟨rfl, rfl, rfl, fun i hi => ?_⟩
    have hSource := hNumbers i hi
    rw [Nat.zero_add, Vector.getElem?_eq_getElem (Nat.lt_of_lt_of_le hi hFits)] at hSource
    rw [Vector.getElem?_eq_getElem hi, Vector.getElem_ofFn]
    exact hSource

theorem firLoad_over (stack : Vector ℚ 1024) (numbers : List ℚ) (hOver : 1024 < numbers.length) :
    firLoad stack (some numbers) = .error ⟨.coeffs, 1024, 1024⟩ := by
  rw [firLoad, readCoeffs_over numbers stack 0 (Nat.zero_le 1024) (by omega)]
  rfl

end WrRfDemo.Filters

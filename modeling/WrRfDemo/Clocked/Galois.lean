import Mathlib.Logic.Function.Basic

/-! # Feedback shift registers

A register in Galois form shifts down, and the bit that falls out decides whether the taps are added. With a tap at the
top no bit is lost, and the register stays clear of zero.
-/

namespace WrRfDemo.Clocked

variable {w : Nat} {taps x y : BitVec w}

def galoisNext (taps x : BitVec w) : BitVec w := if x.getLsbD 0 then (x >>> 1) ^^^ taps else x >>> 1

@[simp] theorem galoisNext_zero (taps : BitVec w) : galoisNext taps 0 = 0 := by
  simp [galoisNext]

/-- The bit that falls out comes back at the top. -/
theorem msb_galoisNext (hTop : taps.msb = true) (x : BitVec w) : (galoisNext taps x).msb = x.getLsbD 0 := by
  have hWidth : 0 < w := by
    rcases Nat.eq_zero_or_pos w with rfl | hPos
    · rw [BitVec.of_length_zero (x := taps)] at hTop
      exact absurd hTop (by decide)
    · exact hPos
  have hShift : (x >>> 1).msb = false := by simp [BitVec.msb_ushiftRight]
  cases hLow : x.getLsbD 0 with
  | false => rw [galoisNext, hLow, if_neg Bool.false_ne_true, hShift]
  | true => rw [galoisNext, hLow, if_pos rfl, BitVec.msb_xor, hShift, hTop, Bool.false_xor]

theorem eq_of_shift_eq (hShift : x >>> 1 = y >>> 1) (hLow : x.getLsbD 0 = y.getLsbD 0) : x = y := by
  apply BitVec.eq_of_getLsbD_eq
  intro i _
  cases i with
  | zero => exact hLow
  | succ i =>
    have hBit := congrArg (fun z : BitVec w => z.getLsbD i) hShift
    rwa [BitVec.getLsbD_ushiftRight, BitVec.getLsbD_ushiftRight, Nat.add_comm 1 i] at hBit

theorem galoisNext_injective (hTop : taps.msb = true) : Function.Injective (galoisNext taps) := by
  intro x y hSame
  have hLow : x.getLsbD 0 = y.getLsbD 0 := by
    rw [← msb_galoisNext hTop x, ← msb_galoisNext hTop y, hSame]
  refine eq_of_shift_eq ?_ hLow
  rw [galoisNext, galoisNext, hLow] at hSame
  cases hBit : y.getLsbD 0 with
  | false => simpa [hBit] using hSame
  | true => simpa [hBit] using hSame

theorem galoisNext_ne_zero (hTop : taps.msb = true) (hx : x ≠ 0) : galoisNext taps x ≠ 0 := by
  intro hZero
  exact hx (galoisNext_injective hTop (hZero.trans (galoisNext_zero taps).symm))

theorem xor_shift_injective : Function.Injective fun x : BitVec w => x ^^^ x >>> 1 := by
  intro x y hSame
  have hBits : ∀ k i, w ≤ i + k → x.getLsbD i = y.getLsbD i := by
    intro k
    -- from the top down
    induction k with
    | zero =>
      intro i hi
      rw [BitVec.getLsbD_of_ge x i hi, BitVec.getLsbD_of_ge y i hi]
    | succ k ih =>
      intro i hi
      have hAbove := ih (i + 1) (by omega)
      have hBit := congrArg (fun z : BitVec w => z.getLsbD i) hSame
      simp only [BitVec.getLsbD_xor, BitVec.getLsbD_ushiftRight, Nat.add_comm 1 i, hAbove] at hBit
      exact Bool.xor_left_inj.mp hBit
  exact BitVec.eq_of_getLsbD_eq fun i _ => hBits w i (Nat.le_add_left w i)

/-- A register that does not move has no bit to shift, or is the one word with the taps as its differences. -/
theorem galoisNext_eq_self (hFixed : galoisNext taps x = x) :
    x >>> 1 = x ∨ x.getLsbD 0 = true ∧ x ^^^ x >>> 1 = taps := by
  rw [galoisNext] at hFixed
  cases hLow : x.getLsbD 0 with
  | false =>
    rw [hLow, if_neg Bool.false_ne_true] at hFixed
    exact Or.inl hFixed
  | true =>
    rw [hLow, if_pos rfl] at hFixed
    refine Or.inr ⟨rfl, ?_⟩
    calc x ^^^ x >>> 1
      _ = (x >>> 1 ^^^ taps) ^^^ x >>> 1 := by rw [hFixed]
      _ = taps := by rw [BitVec.xor_comm (x >>> 1), BitVec.xor_assoc, BitVec.xor_self, BitVec.xor_zero]

theorem eq_zero_of_shift_eq_self (h : x >>> 1 = x) : x = 0 := by
  have hHalf := congrArg BitVec.toNat h
  rw [BitVec.toNat_ushiftRight, Nat.shiftRight_eq_div_pow] at hHalf
  apply BitVec.eq_of_toNat_eq
  simp only [BitVec.ofNat_eq_ofNat, BitVec.toNat_ofNat, Nat.zero_mod]
  omega

end WrRfDemo.Clocked

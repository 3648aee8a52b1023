import Mathlib.Algebra.Order.Ring.Int
import Mathlib.Tactic.Linarith
import WrRfDemo.Clocked.Field

/-! # Signed fields without overflow

An operation on signed fields is exact when the number that it computes fits its field.
-/

namespace WrRfDemo.Clocked

/-- A field of `n` bits, read as signed, can show `x`. -/
def Fits (n : Nat) (x : Int) : Prop := -2 ^ n ≤ 2 * x ∧ 2 * x < 2 ^ n

instance (n : Nat) (x : Int) : Decidable (Fits n x) := inferInstanceAs (Decidable (_ ∧ _))

variable {n m : Nat} {x : Int}

theorem fits_toInt (w : BitVec n) : Fits n w.toInt := ⟨BitVec.le_two_mul_toInt, BitVec.two_mul_toInt_lt⟩

theorem bmod_of_fits (h : Fits n x) : x.bmod (2 ^ n) = x := by
  obtain ⟨hLow, hHigh⟩ := h
  apply Int.bmod_eq_of_le_mul_two <;> push_cast <;> omega

theorem toInt_ofNat_of_fits {k : Nat} (h : Fits n k) : (BitVec.ofNat n k).toInt = k := by
  rw [BitVec.toInt_ofNat', bmod_of_fits h]

theorem toInt_add_of_fits {a b : BitVec n} (h : Fits n (a.toInt + b.toInt)) : (a + b).toInt = a.toInt + b.toInt := by
  rw [BitVec.toInt_add, bmod_of_fits h]

theorem toInt_sub_of_fits {a b : BitVec n} (h : Fits n (a.toInt - b.toInt)) : (a - b).toInt = a.toInt - b.toInt := by
  rw [BitVec.toInt_sub, bmod_of_fits h]

/-- The low bits of a field show the same number, if it fits. -/
theorem toInt_setWidth_of_fits {w : BitVec n} (hm : m ≤ n) (h : Fits m w.toInt) : (w.setWidth m).toInt = w.toInt := by
  have hSame := BitVec.toInt_signExtend_eq_toInt_bmod_of_le w hm
  rw [BitVec.signExtend_eq_setWidth_of_le w hm, bmod_of_fits h] at hSame
  exact hSame

theorem toInt_sshiftRight_eq (w : BitVec n) (k : Nat) : (w.sshiftRight k).toInt = w.toInt / 2 ^ k := by
  rw [BitVec.toInt_sshiftRight, Int.shiftRight_eq_div_pow]
  push_cast
  rfl

theorem toInt_sshiftRight_of_fits {w : BitVec n} {k : Nat} (hm : m ≤ n) (h : Fits m (w.toInt / 2 ^ k)) :
    ((w.sshiftRight k).setWidth m).toInt = w.toInt / 2 ^ k := by
  rw [toInt_setWidth_of_fits hm (by rw [toInt_sshiftRight_eq]; exact h), toInt_sshiftRight_eq]

/-- The bits above a logical shift do not matter where the shifted number fits. -/
theorem toInt_shift_of_fits {w : BitVec n} {k : Nat} (hm : m + k ≤ n) (h : Fits m (w.toInt / 2 ^ k)) :
    ((w >>> k).setWidth m).toInt = w.toInt / 2 ^ k := by
  have hLow : (w >>> k).setWidth m = (w.sshiftRight k).setWidth m := by
    apply BitVec.eq_of_getLsbD_eq
    intro j hj
    simp only [BitVec.getLsbD_setWidth, BitVec.getLsbD_ushiftRight, BitVec.getLsbD_sshiftRight]
    simp [show ¬n ≤ j by omega, show k + j < n by omega]
  rw [hLow, toInt_sshiftRight_of_fits (by omega) h]

theorem toInt_neg_of_fits {a : BitVec n} (h : Fits n (-a.toInt)) : (-a).toInt = -a.toInt := by
  rw [BitVec.toInt_neg, bmod_of_fits h]

theorem toInt_mul_of_fits {a b : BitVec n} (h : Fits n (a.toInt * b.toInt)) : (a * b).toInt = a.toInt * b.toInt := by
  rw [BitVec.toInt_mul, bmod_of_fits h]

theorem Fits.mul {y : Int} (hx : Fits n x) (hy : Fits m y) : Fits (n + m) (x * y) := by
  obtain ⟨hLowX, hHighX⟩ := hx
  obtain ⟨hLowY, hHighY⟩ := hy
  have hUpper : 4 * (x * y) ≤ 2 ^ n * 2 ^ m := by
    have hFirst := Int.mul_nonneg (a := 2 ^ n - 2 * x) (b := 2 ^ m + 2 * y) (by omega) (by omega)
    have hSecond := Int.mul_nonneg (a := 2 ^ n + 2 * x) (b := 2 ^ m - 2 * y) (by omega) (by omega)
    linarith
  have hLower : -(2 ^ n * 2 ^ m) ≤ 4 * (x * y) := by
    have hFirst := Int.mul_nonneg (a := 2 ^ n - 2 * x) (b := 2 ^ m - 2 * y) (by omega) (by omega)
    have hSecond := Int.mul_nonneg (a := 2 ^ n + 2 * x) (b := 2 ^ m + 2 * y) (by omega) (by omega)
    linarith
  have hPos : 0 < (2 : Int) ^ (n + m) := Int.pow_pos (by decide)
  have hPow : (2 : Int) ^ (n + m) = 2 ^ n * 2 ^ m := pow_add 2 n m
  constructor <;> omega

theorem Fits.mono (h : Fits n x) (hm : n ≤ m) : Fits m x := by
  have hPow : (2 : Int) ^ n ≤ 2 ^ m := pow_le_pow_right₀ (by decide) hm
  obtain ⟨hLow, hHigh⟩ := h
  constructor <;> omega

theorem toInt_field_of_fits {w : BitVec n} (hm : m ≤ n) (h : Fits m w.toInt) : (field 0 m w).toInt = w.toInt := by
  have hField : field 0 m w = w.setWidth m := by
    apply BitVec.eq_of_toNat_eq
    simp [field]
  rw [hField, toInt_setWidth_of_fits hm h]

/-! ### Numbers in a field, taken modulo its size -/

theorem toInt_ofInt_of_fits (h : Fits n x) : (BitVec.ofInt n x).toInt = x := by
  rw [BitVec.toInt_ofInt, bmod_of_fits h]

theorem signExtend_ofInt_of_fits (h : Fits n x) (hm : n ≤ m) : (BitVec.ofInt n x).signExtend m = BitVec.ofInt m x := by
  apply BitVec.eq_of_toInt_eq
  rw [BitVec.toInt_signExtend_of_le hm, toInt_ofInt_of_fits h, toInt_ofInt_of_fits (h.mono hm)]

/-- A sum that is made one bit wider, and cut. -/
theorem setWidth_add_signExtend (a b : BitVec n) :
    (a.signExtend (n + 1) + b.signExtend (n + 1)).setWidth n = a + b := by
  have hWide : (a.signExtend (n + 1) + b.signExtend (n + 1)).toInt = a.toInt + b.toInt := by
    obtain ⟨hLowA, hHighA⟩ := fits_toInt a
    obtain ⟨hLowB, hHighB⟩ := fits_toInt b
    rw [toInt_add_of_fits] <;> rw [BitVec.toInt_signExtend_of_le (Nat.le_succ n), BitVec.toInt_signExtend_of_le (Nat.le_succ n)]
    constructor <;> rw [Int.pow_succ] <;> omega
  apply BitVec.eq_of_toInt_eq
  rw [← BitVec.signExtend_eq_setWidth_of_le _ (Nat.le_succ n),
    BitVec.toInt_signExtend_eq_toInt_bmod_of_le _ (Nat.le_succ n), hWide, BitVec.toInt_add]

theorem setWidth_sub_signExtend (a b : BitVec n) :
    (a.signExtend (n + 1) - b.signExtend (n + 1)).setWidth n = a - b := by
  have hWide : (a.signExtend (n + 1) - b.signExtend (n + 1)).toInt = a.toInt - b.toInt := by
    obtain ⟨hLowA, hHighA⟩ := fits_toInt a
    obtain ⟨hLowB, hHighB⟩ := fits_toInt b
    rw [toInt_sub_of_fits] <;> rw [BitVec.toInt_signExtend_of_le (Nat.le_succ n), BitVec.toInt_signExtend_of_le (Nat.le_succ n)]
    constructor <;> rw [Int.pow_succ] <;> omega
  apply BitVec.eq_of_toInt_eq
  rw [← BitVec.signExtend_eq_setWidth_of_le _ (Nat.le_succ n),
    BitVec.toInt_signExtend_eq_toInt_bmod_of_le _ (Nat.le_succ n), hWide, BitVec.toInt_sub]

theorem ofInt_sub (n : Nat) (x y : Int) : BitVec.ofInt n (x - y) = BitVec.ofInt n x - BitVec.ofInt n y := by
  rw [Int.sub_eq_add_neg, BitVec.ofInt_add, BitVec.ofInt_neg, BitVec.sub_eq_add_neg]

end WrRfDemo.Clocked

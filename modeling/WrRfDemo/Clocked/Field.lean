/-! # Bit fields

Reading and assigning a range of a bit vector: `field lo n w` is the slice
`w(lo + n - 1 downto lo)`, and `setField lo v w` is `w` after an assignment of `v` to
that slice.
-/

namespace WrRfDemo.Clocked

def field (lo n : Nat) {m : Nat} (w : BitVec m) : BitVec n := w.extractLsb' lo n

def setField (lo : Nat) {n m : Nat} (v : BitVec n) (w : BitVec m) : BitVec m :=
  (w &&& ~~~((BitVec.allOnes n).setWidth m <<< lo)) ||| (v.setWidth m <<< lo)

variable {lo lo' n n' m : Nat}

theorem getLsbD_setField (v : BitVec n) (w : BitVec m) (k : Nat) (hk : k < m) :
    (setField lo v w).getLsbD k =
      if lo ≤ k ∧ k < lo + n then v.getLsbD (k - lo) else w.getLsbD k := by
  by_cases hLow : k < lo
  · simp [setField, hk, hLow, Nat.not_le.mpr hLow]
  · by_cases hHigh : k - lo < n
    · simp [setField, hk, hLow, hHigh, show lo ≤ k ∧ k < lo + n by omega]
    · simp [setField, hk, hLow, hHigh, show ¬(lo ≤ k ∧ k < lo + n) by omega,
        BitVec.getLsbD_of_ge v (k - lo) (by omega)]

@[simp] theorem field_setField_same (v : BitVec n) (w : BitVec m) (h : lo + n ≤ m) :
    field lo n (setField lo v w) = v := by
  apply BitVec.eq_of_getLsbD_eq
  intro k hk
  rw [field, BitVec.getLsbD_extractLsb', getLsbD_setField v w (lo + k) (by omega)]
  simp [hk]

theorem field_setField_of_disjoint (v : BitVec n) (w : BitVec m)
    (h : lo' + n' ≤ lo ∨ lo + n ≤ lo') : field lo' n' (setField lo v w) = field lo' n' w := by
  apply BitVec.eq_of_getLsbD_eq
  intro k hk
  rw [field, field, BitVec.getLsbD_extractLsb', BitVec.getLsbD_extractLsb']
  by_cases hIn : lo' + k < m
  · rw [getLsbD_setField v w (lo' + k) hIn, if_neg (by omega)]
  · rw [BitVec.getLsbD_of_ge _ _ (Nat.le_of_not_lt hIn), BitVec.getLsbD_of_ge _ _ (Nat.le_of_not_lt hIn)]

end WrRfDemo.Clocked

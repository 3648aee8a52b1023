import WrRfDemo.Streamer.RxFsm

/-! # Half-words and data words

The half-words of a subframe, low half first, make up its data words; a rest too short for a
word, such as the CRC, is none. The first word is marked first, and the final word last
unless as many half-words follow it as complete the one after it but for one.
-/

namespace WrRfDemo.Streamer

open Clocked

variable {n : Nat}

def packWord (n : Nat) (halves : List (BitVec 16)) : BitVec (16 * n) :=
  halves.zipIdx.foldl (fun w h => setField (16 * h.2) h.1 w) 0

def wordAt (n : Nat) (halves : List (BitVec 16)) (k : Nat) : BitVec (16 * n) :=
  packWord n ((halves.drop (k * n)).take n)

/-- The fields of the word, as far as there are half-words for them. -/
def Packs (n : Nat) (w : BitVec (16 * n)) (halves : List (BitVec 16)) : Prop :=
  ∀ k (h : k < halves.length), field (16 * k) 16 w = halves[k]

theorem Packs.concat {w : BitVec (16 * n)} {halves : List (BitVec 16)} (h : Packs n w halves)
    (hFits : halves.length < n) (half : BitVec 16) :
    Packs n (setField (16 * halves.length) half w) (halves ++ [half]) := by
  intro k hk
  rw [List.length_append, List.length_singleton] at hk
  by_cases hLast : k = halves.length
  · subst hLast
    rw [field_setField_same _ _ (by omega), List.getElem_concat_length rfl]
  · have hIn : k < halves.length := by omega
    rw [field_setField_of_disjoint _ _ (by omega), h k hIn, List.getElem_append_left hIn]

theorem packs_packWord {halves : List (BitVec 16)} (h : halves.length ≤ n) :
    Packs n (packWord n halves) halves := by
  induction halves using List.reverseRecOn with
  | nil => intro k hk; simp at hk
  | append_singleton before half ih =>
    rw [List.length_append, List.length_singleton] at h
    have hWord : packWord n (before ++ [half]) = setField (16 * before.length) half (packWord n before) := by
      simp [packWord, List.zipIdx_append]
    rw [hWord]
    exact (ih (by omega)).concat (by omega) half

theorem Packs.eq {v w : BitVec (16 * n)} {halves : List (BitVec 16)} (hLength : halves.length = n)
    (hv : Packs n v halves) (hw : Packs n w halves) : v = w := by
  apply BitVec.eq_of_getLsbD_eq
  intro j hj
  have hIn : j / 16 < halves.length := by omega
  have hFields : field (16 * (j / 16)) 16 v = field (16 * (j / 16)) 16 w :=
    (hv _ hIn).trans (hw _ hIn).symm
  have hBit := congrArg (fun f => f.getLsbD (j % 16)) hFields
  simp only [field, BitVec.getLsbD_extractLsb', Nat.mod_lt j (show 16 > 0 by decide), decide_true,
    Bool.true_and, Nat.div_add_mod] at hBit
  exact hBit

/-! ### The words of a subframe -/

/-- Whether the final word is still waiting to be written, after `len` half-words. -/
def waits (n len : Nat) : Bool := decide (n ≤ len ∧ len % n + 1 ≠ n)

def issuedCount (n len : Nat) : Nat := if waits n len then len / n - 1 else len / n

/-- The words written before the subframe is closed. -/
def issuedWords (n : Nat) (halves : List (BitVec 16)) : List (FifoWord n) :=
  (List.range (issuedCount n halves.length)).map fun k => ⟨wordAt n halves k, k == 0, false⟩

/-- The words of a subframe that is closed after these half-words. -/
def completedWords (n : Nat) (halves : List (BitVec 16)) : List (FifoWord n) :=
  (List.range (halves.length / n)).map fun k =>
    ⟨wordAt n halves k, k == 0, waits n halves.length && k + 1 == halves.length / n⟩

/-! ### One more half-word -/

theorem succ_of_full {len : Nat} (hn : 0 < n) (h : len % n + 1 = n) :
    (len + 1) % n = 0 ∧ (len + 1) / n = len / n + 1 := by
  have hSplit : len + 1 = n * (len / n + 1) := by
    have := Nat.div_add_mod len n
    rw [Nat.mul_add, Nat.mul_one]
    omega
  rw [hSplit]
  exact ⟨Nat.mul_mod_right _ _, Nat.mul_div_cancel_left _ hn⟩

theorem succ_of_room {len : Nat} (hn : 0 < n) (h : len % n + 1 ≠ n) :
    (len + 1) % n = len % n + 1 ∧ (len + 1) / n = len / n := by
  have hLess : len % n + 1 < n := by
    have := Nat.mod_lt len hn
    omega
  have hSplit : len + 1 = n * (len / n) + (len % n + 1) := by
    have := Nat.div_add_mod len n
    omega
  rw [hSplit, Nat.mul_add_mod, Nat.mul_add_div hn, Nat.mod_eq_of_lt hLess, Nat.div_eq_of_lt hLess]
  simp

theorem le_of_div_pos {len k : Nat} (h : k < len / n) : (k + 1) * n ≤ len :=
  Nat.le_trans (Nat.mul_le_mul_right n h) (Nat.div_mul_le_self len n)

theorem wordAt_concat {halves : List (BitVec 16)} (half : BitVec 16) {k : Nat}
    (h : (k + 1) * n ≤ halves.length) : wordAt n (halves ++ [half]) k = wordAt n halves k := by
  rw [Nat.add_one_mul] at h
  rw [wordAt, wordAt, List.drop_append_of_le_length (by omega), List.take_append_of_le_length
    (by rw [List.length_drop]; omega)]

/-- Whether the next half-word makes the receiver write the word before. -/
def writesNext (n len : Nat) : Bool := len % n + 2 == n && waits n len

theorem issuedCount_succ {len : Nat} (hn : 2 ≤ n) :
    issuedCount n (len + 1) = issuedCount n len + if writesNext n len then 1 else 0 := by
  have hDiv := Nat.div_add_mod len n
  have hZero : len < n → len / n = 0 ∧ len % n = len := fun h => ⟨Nat.div_eq_of_lt h, Nat.mod_eq_of_lt h⟩
  have hPos : n ≤ len → 0 < len / n := fun h => Nat.div_pos h (by omega)
  by_cases hFull : len % n + 1 = n
  · obtain ⟨hMod, hNext⟩ := succ_of_full (by omega) hFull
    have hReach : n ≤ len + 1 := by
      have := Nat.mod_le len n
      omega
    simp [issuedCount, writesNext, waits, hMod, hNext, hFull, hReach, show 1 ≠ n by omega]
  · obtain ⟨hMod, hNext⟩ := succ_of_room (by omega) hFull
    simp only [issuedCount, writesNext, waits, hMod, hNext]
    by_cases hReach : n ≤ len
    · have := hPos hReach
      by_cases hAlmost : len % n + 2 = n
      · simp [hReach, hFull, hAlmost]
        omega
      · simp [hReach, hFull, hAlmost, show n ≤ len + 1 by omega]
    · obtain ⟨hNone, hSame⟩ := hZero (by omega)
      simp [hNone, hReach, show ¬n ≤ len + 1 by omega]

theorem issuedCount_le (n len : Nat) : issuedCount n len ≤ len / n := by
  unfold issuedCount
  split_ifs
  · exact Nat.sub_le _ _
  · exact Nat.le_refl _

theorem issuedWords_concat (hn : 2 ≤ n) (halves : List (BitVec 16)) (half : BitVec 16) :
    issuedWords n (halves ++ [half]) = issuedWords n halves ++
      if writesNext n halves.length then
        [⟨wordAt n halves (halves.length / n - 1), halves.length / n - 1 == 0, false⟩] else [] := by
  have hOld : ∀ k < halves.length / n, wordAt n (halves ++ [half]) k = wordAt n halves k :=
    fun k hk => wordAt_concat half (le_of_div_pos hk)
  have hIssued := issuedCount_le n halves.length
  have hSame : (List.range (issuedCount n halves.length)).map
      (fun k => (⟨wordAt n (halves ++ [half]) k, k == 0, false⟩ : FifoWord n)) = issuedWords n halves := by
    refine List.map_congr_left fun k hk => ?_
    rw [hOld k (by have := List.mem_range.mp hk; omega)]
  rw [issuedWords, List.length_append, List.length_singleton, issuedCount_succ hn]
  cases hWrites : writesNext n halves.length with
  | false => simpa using hSame
  | true =>
    have hCount : issuedCount n halves.length = halves.length / n - 1 ∧ 0 < halves.length / n := by
      simp only [writesNext, Bool.and_eq_true, beq_iff_eq] at hWrites
      have hReach : n ≤ halves.length := by
        have := hWrites.2
        simp only [waits, decide_eq_true_eq] at this
        exact this.1
      exact ⟨by simp [issuedCount, hWrites.2], Nat.div_pos hReach (by omega)⟩
    rw [if_pos rfl, if_pos rfl, List.range_succ, List.map_append, hSame, hCount.1]
    simp [hOld (halves.length / n - 1) (by omega)]

theorem completedWords_eq (hn : 0 < n) (halves : List (BitVec 16)) :
    completedWords n halves = issuedWords n halves ++
      if waits n halves.length then
        [⟨wordAt n halves (halves.length / n - 1), halves.length / n - 1 == 0, true⟩] else [] := by
  cases hWaits : waits n halves.length with
  | false => simp [completedWords, issuedWords, issuedCount, hWaits]
  | true =>
    have hReach : n ≤ halves.length := by
      simp only [waits, decide_eq_true_eq] at hWaits
      exact hWaits.1
    obtain ⟨q, hq⟩ := Nat.exists_eq_add_one_of_ne_zero (Nat.ne_of_gt (Nat.div_pos hReach hn))
    simp only [completedWords, issuedWords, issuedCount, hWaits, hq, if_true, Nat.add_sub_cancel,
      List.range_succ, List.map_append]
    congr 1
    · refine List.map_congr_left fun k hk => ?_
      have := List.mem_range.mp hk
      simp
      omega
    · simp

end WrRfDemo.Streamer

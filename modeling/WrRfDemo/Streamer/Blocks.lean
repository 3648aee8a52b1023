import WrRfDemo.Streamer.Packing
import WrRfDemo.Streamer.Transmitter

/-! # Blocks of data words

A block ends with the word flagged last, and the word after it is the first of the next block.
Sent half-word by half-word and followed by a CRC, a block is completed as the data words it was
made of, with its first and its last word marked.
-/

namespace WrRfDemo.Streamer

open Clocked

variable {n : Nat}

/-- The words as the receiver is to mark them, the first one as told. -/
def flagged (first : Bool) : List (TxWord n) → List (FifoWord n)
  | [] => []
  | w :: rest => ⟨w.data, first, w.last⟩ :: flagged w.last rest

/-- Whether the next word is the first of a block. -/
def endsBlock (first : Bool) : List (TxWord n) → Bool
  | [] => first
  | w :: rest => endsBlock w.last rest

theorem flagged_append (first : Bool) (before after : List (TxWord n)) :
    flagged first (before ++ after) = flagged first before ++ flagged (endsBlock first before) after := by
  induction before generalizing first with
  | nil => rfl
  | cons w rest ih => simp only [List.cons_append, flagged, endsBlock, ih]

theorem endsBlock_append (first : Bool) (before after : List (TxWord n)) :
    endsBlock first (before ++ after) = endsBlock (endsBlock first before) after := by
  induction before generalizing first with
  | nil => rfl
  | cons w rest ih => simp only [List.cons_append, endsBlock, ih]

theorem endsBlock_concat (first : Bool) (before : List (TxWord n)) (w : TxWord n) :
    endsBlock first (before ++ [w]) = w.last := by
  rw [endsBlock_append]
  rfl

theorem length_flagged (first : Bool) (words : List (TxWord n)) : (flagged first words).length = words.length := by
  induction words generalizing first with
  | nil => rfl
  | cons w rest ih => simp only [flagged, List.length_cons, ih]

theorem getElem_flagged (words : List (TxWord n)) {k : Nat} (first : Bool) (hk : k < words.length)
    (hFlagged : k < (flagged first words).length) :
    (flagged first words)[k] = ⟨words[k].data, if k = 0 then first else words[k - 1].last, words[k].last⟩ := by
  induction words generalizing first k with
  | nil => simp at hk
  | cons w rest ih =>
    cases k with
    | zero => rfl
    | succ k =>
      have hLess : k < rest.length := by simpa using hk
      simp only [flagged, List.getElem_cons_succ, ih w.last hLess]
      cases k with
      | zero => rfl
      | succ k => simp

/-- One block, or none. -/
def Whole (words : List (TxWord n)) : Prop := ∀ k (h : k < words.length), words[k].last = (k + 1 == words.length)

instance (words : List (TxWord n)) : Decidable (Whole words) :=
  inferInstanceAs (Decidable (∀ k, ∀ h : k < words.length, words[k].last = (k + 1 == words.length)))

def Unended (words : List (TxWord n)) : Prop := ∀ w ∈ words, w.last = false

theorem whole_nil : Whole ([] : List (TxWord n)) := by
  intro k hk
  cases hk

theorem unended_nil : Unended ([] : List (TxWord n)) := by
  intro w hw
  cases hw

theorem Unended.concat {words : List (TxWord n)} (h : Unended words) {w : TxWord n} (hLast : w.last = false) :
    Unended (words ++ [w]) := by
  intro v hv
  rcases List.mem_append.mp hv with hOld | hNew
  · exact h v hOld
  · rw [List.mem_singleton.mp hNew, hLast]

theorem Unended.whole {words : List (TxWord n)} (h : Unended words) {w : TxWord n} (hLast : w.last = true) :
    Whole (words ++ [w]) := by
  intro k hk
  rw [List.length_append, List.length_singleton] at hk ⊢
  by_cases hEnd : k = words.length
  · subst hEnd
    simp [hLast]
  · have hIn : k < words.length := by omega
    rw [List.getElem_append_left hIn, h _ (List.getElem_mem hIn)]
    simp [hEnd]

theorem endsBlock_whole {words : List (TxWord n)} (h : Whole words) : endsBlock true words = true := by
  rcases List.eq_nil_or_concat' words with rfl | ⟨before, w, rfl⟩
  · rfl
  · have hEnd := h before.length (by simp)
    rw [endsBlock_concat]
    simpa using hEnd

theorem Unended.nil_of_endsBlock {words : List (TxWord n)} (h : Unended words) (hEnds : endsBlock true words = true) :
    words = [] := by
  rcases List.eq_nil_or_concat' words with rfl | ⟨before, w, rfl⟩
  · rfl
  · rw [endsBlock_concat, h w (by simp)] at hEnds
    cases hEnds

theorem endsBlock_flatten {blocks : List (List (TxWord n))} (h : ∀ words ∈ blocks, Whole words) :
    endsBlock true blocks.flatten = true := by
  induction blocks with
  | nil => rfl
  | cons words rest ih =>
    rw [List.flatten_cons, endsBlock_append, endsBlock_whole (h words List.mem_cons_self)]
    exact ih fun other hMem => h other (List.mem_cons_of_mem words hMem)

theorem flagged_flatten {blocks : List (List (TxWord n))} (h : ∀ words ∈ blocks, Whole words) :
    blocks.flatMap (flagged true) = flagged true blocks.flatten := by
  induction blocks with
  | nil => rfl
  | cons words rest ih =>
    rw [List.flatten_cons, flagged_append, endsBlock_whole (h words List.mem_cons_self), List.flatMap_cons,
      ih fun other hMem => h other (List.mem_cons_of_mem words hMem)]

/-! ### Half-words -/

def halfWords (w : TxWord n) : List (BitVec 16) := (List.range n).map fun k => field (16 * k) 16 w.data

def halvesOf (words : List (TxWord n)) : List (BitVec 16) := words.flatMap halfWords

@[simp] theorem length_halfWords (w : TxWord n) : (halfWords w).length = n := by
  simp [halfWords]

@[simp] theorem halvesOf_nil : halvesOf ([] : List (TxWord n)) = [] := rfl

theorem halvesOf_cons (w : TxWord n) (rest : List (TxWord n)) : halvesOf (w :: rest) = halfWords w ++ halvesOf rest := by
  simp [halvesOf]

theorem halvesOf_concat (words : List (TxWord n)) (w : TxWord n) :
    halvesOf (words ++ [w]) = halvesOf words ++ halfWords w := by
  simp [halvesOf]

theorem length_halvesOf (words : List (TxWord n)) : (halvesOf words).length = words.length * n := by
  induction words with
  | nil => simp
  | cons w rest ih =>
    rw [halvesOf_cons, List.length_append, length_halfWords, ih, List.length_cons, Nat.add_one_mul, Nat.add_comm]

theorem packWord_halfWords (w : TxWord n) : packWord n (halfWords w) = w.data := by
  have hLength := length_halfWords w
  apply Packs.eq hLength (packs_packWord (Nat.le_of_eq hLength))
  intro k hk
  simp [halfWords]

theorem halves_at (words : List (TxWord n)) (rest : List (BitVec 16)) {k : Nat} (hk : k < words.length) :
    ((halvesOf words ++ rest).drop (k * n)).take n = halfWords words[k] := by
  induction words generalizing k with
  | nil => simp at hk
  | cons w more ih =>
    rw [halvesOf_cons, List.append_assoc]
    cases k with
    | zero =>
      rw [Nat.zero_mul, List.drop_zero, List.take_append_of_le_length (by simp), List.take_of_length_le (by simp)]
      rfl
    | succ k =>
      have hLess : k < more.length := by simpa using hk
      rw [Nat.add_one_mul, Nat.add_comm, ← List.drop_drop, List.drop_left' (length_halfWords w), ih hLess]
      rfl

theorem wordAt_halvesOf (words : List (TxWord n)) (rest : List (BitVec 16)) {k : Nat} (hk : k < words.length) :
    wordAt n (halvesOf words ++ rest) k = words[k].data := by
  rw [wordAt, halves_at words rest hk, packWord_halfWords]

theorem completedWords_block (hn : 3 ≤ n) {words : List (TxWord n)} (h : Whole words) (crc : BitVec 16) :
    completedWords n (halvesOf words ++ [crc]) = flagged true words := by
  have hLength : (halvesOf words ++ [crc]).length = words.length * n + 1 := by
    rw [List.length_append, length_halvesOf, List.length_singleton]
  have hCount : (halvesOf words ++ [crc]).length / n = words.length := by
    rw [hLength, Nat.mul_comm, Nat.mul_add_div (by omega), Nat.div_eq_of_lt (by omega), Nat.add_zero]
  have hWaits : 0 < words.length → waits n (halvesOf words ++ [crc]).length = true := by
    intro hSome
    have hMod : (words.length * n + 1) % n = 1 := by
      rw [Nat.mul_comm, Nat.mul_add_mod, Nat.mod_eq_of_lt (by omega)]
    have hReach : n ≤ words.length * n := Nat.le_mul_of_pos_left n hSome
    simp only [waits, hLength, hMod, decide_eq_true_eq]
    omega
  apply List.ext_getElem
  · rw [completedWords, List.length_map, List.length_range, hCount, length_flagged]
  · intro k hk _
    have hIn : k < words.length := by
      rwa [completedWords, List.length_map, List.length_range, hCount] at hk
    rw [getElem_flagged words true hIn]
    simp only [completedWords, List.getElem_map, List.getElem_range, hCount, wordAt_halvesOf words [crc] hIn,
      hWaits (by omega), Bool.true_and, h k hIn]
    congr 1
    split_ifs with hFirst
    · simp [hFirst]
    · rw [h (k - 1) (by omega)]
      simp [hFirst]
      omega

end WrRfDemo.Streamer

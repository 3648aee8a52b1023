import Mathlib.Data.List.Basic
import Mathlib.Data.List.Infix

/-! # Lines of text

A text is a list of characters. It is split where a line ends with a newline, a carriage return or both, and the lines
are written with a newline behind each.
-/

namespace WrRfDemo.Text

def OneLine (line : List Char) : Prop := '\n' ∉ line ∧ '\r' ∉ line

instance : DecidablePred OneLine := fun _ => inferInstanceAs (Decidable (_ ∧ _))

def extend (c : Char) : List (List Char) → List (List Char)
  | [] => [[c]]
  | line :: more => (c :: line) :: more

def splitFrom (afterReturn : Bool) : List Char → List (List Char)
  | [] => []
  | c :: rest =>
    if c = '\n' then (if afterReturn then splitFrom false rest else [] :: splitFrom false rest)
    else if c = '\r' then [] :: splitFrom true rest
    else extend c (splitFrom false rest)

def splitlines (text : List Char) : List (List Char) := splitFrom false text

def unlines (lines : List (List Char)) : List Char := lines.flatMap (· ++ ['\n'])

theorem unlines_append (before after : List (List Char)) : unlines (before ++ after) = unlines before ++ unlines after :=
  List.flatMap_append

theorem oneLine_nil : OneLine [] := ⟨List.not_mem_nil, List.not_mem_nil⟩

theorem oneLine_cons {c : Char} {line : List Char} : OneLine (c :: line) ↔ (c ≠ '\n' ∧ c ≠ '\r') ∧ OneLine line := by
  simp only [OneLine, List.mem_cons, not_or, ne_comm, ne_eq]
  tauto

theorem oneLine_append {a b : List Char} : OneLine (a ++ b) ↔ OneLine a ∧ OneLine b := by
  simp only [OneLine, List.mem_append, not_or]
  tauto

theorem oneLine_toDigits (n : Nat) : OneLine (Nat.toDigits 10 n) := by
  constructor
  · intro hMem
    exact absurd (Nat.isDigit_of_mem_toDigits (by decide) (by decide) hMem) (by decide)
  · intro hMem
    exact absurd (Nat.isDigit_of_mem_toDigits (by decide) (by decide) hMem) (by decide)

/-- No character below the letters is the upper case of another one. -/
theorem eq_of_toUpper_eq {c d : Char} (hd : d.toNat < 65) (h : c.toUpper = d) : c = d := by
  unfold Char.toUpper at h
  split_ifs at h with hLower
  · have hUpper : 65 ≤ d.toNat := by
      obtain ⟨hLow, hHigh⟩ := hLower
      rw [UInt32.le_iff_toNat_le] at hLow hHigh
      change 97 ≤ c.val.toNat at hLow
      change c.val.toNat ≤ 122 at hHigh
      rw [← h]
      change 65 ≤ (c.val + ('A'.val - 'a'.val)).toNat
      rw [UInt32.toNat_add]
      change 65 ≤ (c.val.toNat + 4294967264) % 4294967296
      omega
    omega
  · exact h

theorem oneLine_map_toUpper {text : List Char} (h : OneLine text) : OneLine (text.map Char.toUpper) := by
  constructor
  · intro hMem
    obtain ⟨c, hc, hUpper⟩ := List.mem_map.mp hMem
    rw [eq_of_toUpper_eq (by decide) hUpper] at hc
    exact h.1 hc
  · intro hMem
    obtain ⟨c, hc, hUpper⟩ := List.mem_map.mp hMem
    rw [eq_of_toUpper_eq (by decide) hUpper] at hc
    exact h.2 hc

theorem oneLine_extend {c : Char} (hChar : c ≠ '\n' ∧ c ≠ '\r') {lines : List (List Char)}
    (h : ∀ line ∈ lines, OneLine line) : ∀ line ∈ extend c lines, OneLine line := by
  cases lines with
  | nil =>
    intro line hMem
    rw [extend, List.mem_singleton] at hMem
    rw [hMem]
    exact oneLine_cons.mpr ⟨hChar, oneLine_nil⟩
  | cons first more =>
    intro line hMem
    rcases List.mem_cons.mp hMem with rfl | hMore
    · exact oneLine_cons.mpr ⟨hChar, h first List.mem_cons_self⟩
    · exact h line (List.mem_cons_of_mem first hMore)

theorem oneLine_splitFrom (afterReturn : Bool) (text : List Char) : ∀ line ∈ splitFrom afterReturn text, OneLine line := by
  induction text generalizing afterReturn with
  | nil => exact fun _ hMem => absurd hMem List.not_mem_nil
  | cons c rest ih =>
    have hEmpty : ∀ b, ∀ line ∈ [] :: splitFrom b rest, OneLine line := by
      intro b line hMem
      rcases List.mem_cons.mp hMem with rfl | hRest
      · exact oneLine_nil
      · exact ih b line hRest
    rw [splitFrom]
    split_ifs with hNewline hAfter hReturn
    · exact ih false
    · exact hEmpty false
    · exact hEmpty true
    · exact oneLine_extend ⟨hNewline, hReturn⟩ (ih false)

theorem splitFrom_line {line : List Char} (h : OneLine line) (rest : List Char) :
    splitFrom false (line ++ '\n' :: rest) = line :: splitFrom false rest := by
  induction line with
  | nil => rfl
  | cons c line ih =>
    obtain ⟨⟨hNewline, hReturn⟩, hLine⟩ := oneLine_cons.mp h
    rw [List.cons_append, splitFrom, if_neg hNewline, if_neg hReturn, ih hLine]
    rfl

theorem splitlines_unlines {lines : List (List Char)} (h : ∀ line ∈ lines, OneLine line) (rest : List Char) :
    splitlines (unlines lines ++ rest) = lines ++ splitlines rest := by
  induction lines with
  | nil => rfl
  | cons line more ih =>
    have hText : unlines (line :: more) ++ rest = line ++ '\n' :: (unlines more ++ rest) := by
      simp [unlines]
    rw [hText, splitlines, splitFrom_line (h line List.mem_cons_self)]
    exact congrArg (line :: ·) (ih fun l hMem => h l (List.mem_cons_of_mem line hMem))

/-! ### Replacing a character -/

def replace (old : Char) (new text : List Char) : List Char := text.flatMap fun c => if c = old then new else [c]

theorem replace_cons_self (old : Char) (new text : List Char) : replace old new (old :: text) = new ++ replace old new text := by
  simp [replace]

theorem replace_cons_ne {c old : Char} (hc : c ≠ old) (new text : List Char) :
    replace old new (c :: text) = c :: replace old new text := by
  simp [replace, hc]

theorem replace_of_not_mem {old : Char} {text : List Char} (h : old ∉ text) (new : List Char) : replace old new text = text := by
  induction text with
  | nil => rfl
  | cons c text ih =>
    obtain ⟨hc, hText⟩ := not_or.mp (List.mem_cons.not.mp h)
    rw [replace_cons_ne (Ne.symm hc), ih hText]

theorem oneLine_replace {new text : List Char} (hNew : OneLine new) (hText : OneLine text) (old : Char) :
    OneLine (replace old new text) := by
  induction text with
  | nil => exact hText
  | cons c text ih =>
    obtain ⟨hChar, hRest⟩ := oneLine_cons.mp hText
    by_cases hc : c = old
    · subst hc
      rw [replace_cons_self]
      exact oneLine_append.mpr ⟨hNew, ih hRest⟩
    · rw [replace_cons_ne hc]
      exact oneLine_cons.mpr ⟨hChar, ih hRest⟩

theorem length_replace (old : Char) (new text : List Char) :
    (replace old new text).length + text.count old = text.length + text.count old * new.length := by
  induction text with
  | nil => simp [replace]
  | cons c text ih =>
    by_cases hc : c = old
    · subst hc
      rw [replace_cons_self, List.length_append, List.count_cons_self, List.length_cons, Nat.succ_mul]
      omega
    · rw [replace_cons_ne hc, List.count_cons_of_ne hc, List.length_cons, List.length_cons]
      omega

/-- Where the character occurs, the result shows what it was replaced by. -/
theorem replace_injective {old : Char} {text new other : List Char} (hMem : old ∈ text)
    (h : replace old new text = replace old other text) : new = other := by
  have hNew := length_replace old new text
  have hOther := length_replace old other text
  have hCount : 0 < text.count old := List.count_pos_iff.mpr hMem
  have hLength : new.length = other.length := by
    rw [h] at hNew
    exact Nat.eq_of_mul_eq_mul_left hCount (by omega)
  clear hNew hOther hCount
  induction text with
  | nil => exact absurd hMem List.not_mem_nil
  | cons c text ih =>
    by_cases hc : c = old
    · subst hc
      rw [replace_cons_self, replace_cons_self] at h
      exact List.append_inj_left h hLength
    · rw [replace_cons_ne hc, replace_cons_ne hc] at h
      exact ih ((List.mem_cons.mp hMem).resolve_left (Ne.symm hc)) (List.cons.inj h).2

end WrRfDemo.Text

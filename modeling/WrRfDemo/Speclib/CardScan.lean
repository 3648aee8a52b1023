import Mathlib.Data.List.Basic

/-! # Looking for a card

`spec_scan` goes through the names in the driver's directory, from the last to the first, and keeps the
requested position in the variables that it was passed in. A negative number asks for any card, but it is
overwritten by the first name that is the name of a card, whether or not that card is the one asked for.
-/

namespace WrRfDemo.Speclib

/-! ### The names of cards -/

/-- What a format asks of the text: one character, or a hexadecimal number of at most `width` characters. -/
inductive Directive
  | literal (c : Char)
  | hex (width : Nat)

def isSpace (c : Char) : Bool := c = ' ' || (9 ≤ c.toNat && c.toNat ≤ 13)

def hexDigit (c : Char) : Option Nat :=
  if '0' ≤ c ∧ c ≤ '9' then some (c.toNat - 48)
  else if 'a' ≤ c ∧ c ≤ 'f' then some (c.toNat - 87)
  else if 'A' ≤ c ∧ c ≤ 'F' then some (c.toNat - 55)
  else none

def splitSign : List Char → List Char × List Char
  | '-' :: rest => (['-'], rest)
  | '+' :: rest => (['+'], rest)
  | text => ([], text)

def splitRadix : List Char → List Char × List Char
  | '0' :: 'x' :: rest => (['0', 'x'], rest)
  | '0' :: 'X' :: rest => (['0', 'X'], rest)
  | text => ([], text)

/-- The number that `%x` reads as an `int`, with the text behind it. -/
def scanHex (width : Nat) (text : List Char) : Option (Int × List Char) :=
  let text := text.dropWhile isSpace
  let (sign, unsigned) := splitSign (text.take width)
  let (radix, digits) := splitRadix unsigned
  let digits := digits.takeWhile fun c => (hexDigit c).isSome
  let value := digits.foldl (fun v c => 16 * v + (hexDigit c).getD 0) 0
  if digits.isEmpty then none
  else some (if sign = ['-'] then -value else value, text.drop (sign.length + radix.length + digits.length))

/-- The numbers that are assigned before the text stops following the format. -/
def sscanf : List Directive → List Char → List Int
  | [], _ => []
  | .literal _ :: _, [] => []
  | .literal c :: format, d :: text => if c = d then sscanf format text else []
  | .hex width :: format, text =>
    match scanHex width text with
    | none => []
    | some (value, text) => value :: sscanf format text

/-- `"0000:%02x:%02x.0"` -/
def cardFormat : List Directive :=
  ['0', '0', '0', '0', ':'].map .literal ++ [.hex 2, .literal ':', .hex 2] ++ ['.', '0'].map .literal

structure Card where
  bus : Int
  devfn : Int
deriving DecidableEq

def parseCard (dName : List Char) : Option Card :=
  match sscanf cardFormat dName with
  | [myBus, myDevfn] => some ⟨myBus, myDevfn⟩
  | _ => none

/-! ### The scan -/

structure Scan where
  bus : Int
  devfn : Int
  found : Bool
deriving DecidableEq

namespace Scan

def look (s : Scan) (my : Card) : Scan :=
  let bus := if s.bus < 0 then my.bus else s.bus
  let devfn := if s.devfn < 0 then my.devfn else s.devfn
  ⟨bus, devfn, bus = my.bus ∧ devfn = my.devfn⟩

def visit (s : Scan) (dName : List Char) : Scan :=
  if s.found then s
  else match parseCard dName with
  | none => s
  | some my => s.look my

end Scan

/-- The return value of `spec_scan`, with `*bus` and `*devfn`; `none` is a failure of `scandir`. -/
def specScan (namelist : Option (List (List Char))) (bus devfn : Int) : Int × Int × Int :=
  match namelist with
  | none => (-1, bus, devfn)
  | some names =>
    let s := names.reverse.foldl Scan.visit ⟨bus, devfn, false⟩
    (if s.found then 0 else -1, s.bus, s.devfn)

/-! ### What was asked for -/

def Card.Matches (bus devfn : Int) (c : Card) : Prop := (bus < 0 ∨ bus = c.bus) ∧ (devfn < 0 ∨ devfn = c.devfn)

instance (bus devfn : Int) (c : Card) : Decidable (c.Matches bus devfn) := inferInstanceAs (Decidable (_ ∧ _))

/-- The cards, in the order in which they are looked at. -/
def cardsOf (names : List (List Char)) : List Card := names.reverse.filterMap parseCard

def outcome (names : List (List Char)) (bus devfn : Int) : Option Card :=
  let r := specScan (some names) bus devfn
  if r.1 = 0 then some ⟨r.2.1, r.2.2⟩ else none

def isMatch (bus devfn : Int) (dName : List Char) : Bool := (parseCard dName).any fun c => c.Matches bus devfn

/-- A card is found if there is one that matches, such a card is named, and the other names do not matter. -/
structure Honours (names : List (List Char)) (bus devfn : Int) : Prop where
  found : (specScan (some names) bus devfn).1 = 0 ↔ ∃ c ∈ cardsOf names, c.Matches bus devfn
  named : ∀ c ∈ outcome names bus devfn, c ∈ cardsOf names ∧ c.Matches bus devfn
  others : outcome names bus devfn = outcome (names.filter (isMatch bus devfn)) bus devfn

def fixedBy (numbers : List Int) : Option Int := numbers.find? (0 ≤ ·)

/-- If a wildcard has been fixed before the first match is looked at, then to the number of that card. -/
def Unobstructed (cards : List Card) (bus devfn : Int) : Prop :=
  ∀ before c after, cards = before ++ c :: after → c.Matches bus devfn → (∀ d ∈ before, ¬d.Matches bus devfn) →
    (bus < 0 → ∀ b ∈ fixedBy (before.map Card.bus), b = c.bus) ∧
      (devfn < 0 → ∀ d ∈ fixedBy (before.map Card.devfn), d = c.devfn)

/-! ### The keys on the way -/

def settle (key : Int) (numbers : List Int) : Int := numbers.foldl (fun key v => if key < 0 then v else key) key

theorem settle_of_nonneg {key : Int} (hKey : 0 ≤ key) (numbers : List Int) : settle key numbers = key := by
  induction numbers with
  | nil => rfl
  | cons v rest ih =>
    rw [settle, List.foldl_cons, if_neg (Int.not_lt.mpr hKey)]
    exact ih

theorem settle_of_neg {key : Int} (hKey : key < 0) (numbers : List Int) :
    match fixedBy numbers with
    | some b => settle key numbers = b ∧ 0 ≤ b
    | none => settle key numbers < 0 := by
  induction numbers generalizing key with
  | nil => exact hKey
  | cons v rest ih =>
    have hCons : settle key (v :: rest) = settle v rest := by rw [settle, List.foldl_cons, if_pos hKey, settle]
    rw [hCons]
    rcases Int.lt_or_le v 0 with hNeg | hNonneg
    · have hSkip : fixedBy (v :: rest) = fixedBy rest := by simp [fixedBy, Int.not_le.mpr hNeg]
      rw [hSkip]
      exact ih hNeg
    · have hTake : fixedBy (v :: rest) = some v := by simp [fixedBy, hNonneg]
      rw [hTake]
      exact ⟨settle_of_nonneg hNonneg rest, hNonneg⟩

namespace Scan

variable {bus devfn : Int} {s : Scan} {cards : List Card}

theorem look_eq (bus devfn : Int) (my : Card) :
    look ⟨bus, devfn, false⟩ my =
      ⟨settle bus [my.bus], settle devfn [my.devfn], decide (my.Matches bus devfn)⟩ := by
  rcases Int.lt_or_le bus 0 with hBus | hBus <;> rcases Int.lt_or_le devfn 0 with hDevfn | hDevfn <;>
    simp [look, settle, Card.Matches, Int.not_lt.mpr, *]

def lookOn (s : Scan) (my : Card) : Scan := if s.found then s else s.look my

theorem foldl_visit (names : List (List Char)) (s : Scan) :
    names.foldl visit s = (names.filterMap parseCard).foldl lookOn s := by
  rw [List.foldl_filterMap]
  congr 1
  funext s dName
  cases hParse : parseCard dName <;> simp [visit, lookOn, hParse]

theorem foldl_of_found (hFound : s.found = true) (cards : List Card) : cards.foldl lookOn s = s := by
  induction cards with
  | nil => rfl
  | cons c rest ih => rw [List.foldl_cons, lookOn, if_pos hFound, ih]

theorem wild_or_eq_of_settle {key v x : Int} (h : settle key [v] < 0 ∨ settle key [v] = x) : key < 0 ∨ key = x := by
  rcases Int.lt_or_le key 0 with hNeg | hNonneg
  · exact .inl hNeg
  · rwa [settle_of_nonneg hNonneg] at h

theorem foldl_of_no_match (hNone : ∀ c ∈ cards, ¬c.Matches bus devfn) :
    cards.foldl lookOn ⟨bus, devfn, false⟩ =
      ⟨settle bus (cards.map Card.bus), settle devfn (cards.map Card.devfn), false⟩ := by
  induction cards generalizing bus devfn with
  | nil => rfl
  | cons c rest ih =>
    have hFirst : lookOn ⟨bus, devfn, false⟩ c = ⟨settle bus [c.bus], settle devfn [c.devfn], false⟩ := by
      rw [lookOn, if_neg Bool.false_ne_true, look_eq, decide_eq_false (hNone c List.mem_cons_self)]
    rw [List.foldl_cons, hFirst,
      ih fun x hx hMatch => hNone x (List.mem_cons_of_mem c hx)
        ⟨wild_or_eq_of_settle hMatch.1, wild_or_eq_of_settle hMatch.2⟩]
    rfl

theorem settle_of_match {key v : Int} (h : key < 0 ∨ key = v) : settle key [v] = v := by
  rcases h with hNeg | rfl
  · rw [settle, List.foldl_cons, if_pos hNeg, List.foldl_nil]
  · simp [settle]

theorem keys_of_nonneg (cards : List Card) (s : Scan) :
    (0 ≤ s.bus → (cards.foldl lookOn s).bus = s.bus) ∧ (0 ≤ s.devfn → (cards.foldl lookOn s).devfn = s.devfn) := by
  induction cards generalizing s with
  | nil => exact ⟨fun _ => rfl, fun _ => rfl⟩
  | cons c rest ih =>
    have hBus : 0 ≤ s.bus → (s.lookOn c).bus = s.bus := fun hNonneg => by
      unfold lookOn
      split_ifs <;> simp [look, Int.not_lt.mpr hNonneg]
    have hDevfn : 0 ≤ s.devfn → (s.lookOn c).devfn = s.devfn := fun hNonneg => by
      unfold lookOn
      split_ifs <;> simp [look, Int.not_lt.mpr hNonneg]
    rw [List.foldl_cons]
    obtain ⟨hRestBus, hRestDevfn⟩ := ih (s.lookOn c)
    constructor
    · intro hNonneg
      exact (hRestBus (by rwa [hBus hNonneg])).trans (hBus hNonneg)
    · intro hNonneg
      exact (hRestDevfn (by rwa [hDevfn hNonneg])).trans (hDevfn hNonneg)

def answer (s : Scan) : Option Card := if s.found then some ⟨s.bus, s.devfn⟩ else none

theorem answer_of_no_match (hNone : ∀ c ∈ cards, ¬c.Matches bus devfn) :
    (cards.foldl lookOn ⟨bus, devfn, false⟩).answer = none := by
  rw [foldl_of_no_match hNone, answer, if_neg Bool.false_ne_true]

variable {before after : List Card} {c : Card}

theorem key_matches {key x : Int} {numbers : List Int} (h : key < 0 ∨ key = x)
    (hFixed : key < 0 → ∀ b ∈ fixedBy numbers, b = x) : settle key numbers < 0 ∨ settle key numbers = x := by
  rcases Int.lt_or_le key 0 with hNeg | hNonneg
  · have hSettled := settle_of_neg hNeg numbers
    cases hFirst : fixedBy numbers with
    | none =>
      rw [hFirst] at hSettled
      exact .inl hSettled
    | some b =>
      rw [hFirst] at hSettled
      exact .inr (hSettled.1.trans (hFixed hNeg b hFirst))
  · rw [settle_of_nonneg hNonneg]
    exact h

theorem fixed_eq {key v final : Int} {numbers : List Int}
    (hKept : 0 ≤ settle (settle key numbers) [v] → final = settle (settle key numbers) [v]) :
    key < 0 → ∀ b ∈ fixedBy numbers, b = final := by
  intro hNeg b hFirst
  have hSettled := settle_of_neg hNeg numbers
  rw [Option.mem_def.mp hFirst] at hSettled
  obtain ⟨hKey, hNonneg⟩ := hSettled
  rw [hKey, settle_of_nonneg hNonneg] at hKept
  exact (hKept hNonneg).symm

/-- The first match is the answer if and only if no wildcard has been fixed to another number before. -/
theorem answer_first_iff (hMatch : c.Matches bus devfn) (hNone : ∀ d ∈ before, ¬d.Matches bus devfn) :
    ((before ++ c :: after).foldl lookOn ⟨bus, devfn, false⟩).answer = some c ↔
      (bus < 0 → ∀ b ∈ fixedBy (before.map Card.bus), b = c.bus) ∧
        (devfn < 0 → ∀ d ∈ fixedBy (before.map Card.devfn), d = c.devfn) := by
  rw [List.foldl_append, foldl_of_no_match hNone, List.foldl_cons, lookOn, if_neg Bool.false_ne_true, look_eq]
  constructor
  · intro hAnswer
    obtain ⟨hKeepBus, hKeepDevfn⟩ := keys_of_nonneg after ⟨settle (settle bus (before.map Card.bus)) [c.bus],
      settle (settle devfn (before.map Card.devfn)) [c.devfn], decide (c.Matches _ _)⟩
    obtain ⟨-, hFinal⟩ := Option.ite_none_right_eq_some.mp hAnswer
    rw [Option.some.injEq, Card.mk.injEq] at hFinal
    exact ⟨fixed_eq fun hNonneg => hFinal.1.symm.trans (hKeepBus hNonneg),
      fixed_eq fun hNonneg => hFinal.2.symm.trans (hKeepDevfn hNonneg)⟩
  · rintro ⟨hBus, hDevfn⟩
    have hBusKey := key_matches hMatch.1 hBus
    have hDevfnKey := key_matches hMatch.2 hDevfn
    rw [decide_eq_true (show c.Matches _ _ from ⟨hBusKey, hDevfnKey⟩), foldl_of_found rfl, answer, if_pos rfl,
      settle_of_match hBusKey, settle_of_match hDevfnKey]

end Scan

variable (names : List (List Char)) (bus devfn : Int)

theorem outcome_eq : outcome names bus devfn = ((cardsOf names).foldl Scan.lookOn ⟨bus, devfn, false⟩).answer := by
  rw [outcome, specScan, Scan.foldl_visit, cardsOf]
  generalize (names.reverse.filterMap parseCard).foldl Scan.lookOn ⟨bus, devfn, false⟩ = s
  cases hFound : s.found <;> simp [Scan.answer, hFound]

theorem found_iff : (specScan (some names) bus devfn).1 = 0 ↔ (outcome names bus devfn).isSome := by
  rw [outcome]
  split_ifs with hCode <;> simp [hCode]

theorem cardsOf_filter : cardsOf (names.filter (isMatch bus devfn)) =
    (cardsOf names).filter fun c => c.Matches bus devfn := by
  rw [cardsOf, cardsOf, ← List.filter_reverse, List.filterMap_filter, List.filter_filterMap]
  congr 1
  funext dName
  cases hParse : parseCard dName with
  | none => simp [isMatch, hParse]
  | some c => by_cases hMatch : c.Matches bus devfn <;> simp [isMatch, hParse, hMatch, Option.filter]

/-- The scan that was asked for: the first card that matches. -/
def firstMatch (cards : List Card) : Option Card := cards.find? fun c => c.Matches bus devfn

theorem outcome_filter : outcome (names.filter (isMatch bus devfn)) bus devfn = firstMatch bus devfn (cardsOf names) := by
  rw [outcome_eq, cardsOf_filter, firstMatch, ← List.head?_filter]
  cases hCards : (cardsOf names).filter fun c => c.Matches bus devfn with
  | nil => rfl
  | cons c rest =>
    have hMatch : c.Matches bus devfn := by
      have hMem : c ∈ (cardsOf names).filter fun c => c.Matches bus devfn := hCards ▸ List.mem_cons_self
      simpa using (List.mem_filter.mp hMem).2
    have hNone : ∀ d ∈ ([] : List Card), ¬d.Matches bus devfn := by simp
    exact (Scan.answer_first_iff hMatch hNone).mpr (by simp [fixedBy])

theorem honours_iff_first : Honours names bus devfn ↔ outcome names bus devfn = firstMatch bus devfn (cardsOf names) := by
  constructor
  · exact fun h => h.others.trans (outcome_filter names bus devfn)
  · intro hFirst
    refine ⟨?_, ?_, hFirst.trans (outcome_filter names bus devfn).symm⟩
    · rw [found_iff, hFirst, firstMatch, List.find?_isSome]
      simp
    · intro c hc
      rw [hFirst, firstMatch] at hc
      exact ⟨List.mem_of_find?_eq_some hc, by simpa using List.find?_some hc⟩

/-- The wildcards are honoured if and only if none has been fixed to another number before the first card that
matches is looked at. -/
theorem wildcards_honoured_iff : Honours names bus devfn ↔ Unobstructed (cardsOf names) bus devfn := by
  rw [honours_iff_first, outcome_eq]
  constructor
  · intro hFirst before c after hSplit hMatch hNone
    have hFind : firstMatch bus devfn (cardsOf names) = some c := by
      rw [firstMatch, hSplit, List.find?_append, List.find?_eq_none.mpr (by simpa using hNone)]
      simp [hMatch]
    rw [hFind, hSplit] at hFirst
    exact (Scan.answer_first_iff hMatch hNone).mp hFirst
  · intro hClear
    cases hFind : firstMatch bus devfn (cardsOf names) with
    | none =>
      refine Scan.answer_of_no_match fun c hc => ?_
      simpa using List.find?_eq_none.mp hFind c hc
    | some c =>
      obtain ⟨hMatch, before, after, hSplit, hNone⟩ := List.find?_eq_some_iff_append.mp hFind
      have hMatch : c.Matches bus devfn := of_decide_eq_true hMatch
      have hNone : ∀ d ∈ before, ¬d.Matches bus devfn := by simpa using hNone
      rw [hSplit]
      exact (Scan.answer_first_iff hMatch hNone).mpr (hClear before c after hSplit hMatch hNone)

/-- Device 3 on bus 1 is not found behind device 5 on bus 2. -/
theorem card_passed_over :
    let names := [['0', '0', '0', '0', ':', '0', '1', ':', '0', '3', '.', '0'],
      ['0', '0', '0', '0', ':', '0', '2', ':', '0', '5', '.', '0']]
    specScan (some names) 1 (-1) = (-1, 1, 5) ∧ cardsOf names = [⟨2, 5⟩, ⟨1, 3⟩] ∧
      ¬ ∀ (names : List (List Char)) (bus devfn : Int),
        (specScan (some names) bus devfn).1 = 0 ↔ ∃ c ∈ cardsOf names, c.Matches bus devfn := by
  intro names
  have hScan : specScan (some names) 1 (-1) = (-1, 1, 5) := by decide +kernel
  have hCards : cardsOf names = [⟨2, 5⟩, ⟨1, 3⟩] := by decide +kernel
  refine ⟨hScan, hCards, fun hAll => ?_⟩
  have hFound := (hAll names 1 (-1)).mpr ⟨⟨1, 3⟩, by rw [hCards]; decide, by decide⟩
  rw [hScan] at hFound
  cases hFound

end WrRfDemo.Speclib

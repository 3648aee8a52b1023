import Mathlib.Data.List.GetD
import Mathlib.Tactic.IntervalCases
import WrRfDemo.Clocked.Field
import WrRfDemo.Clocked.Program

/-! # Loading the processor

`spec_load_lm32` holds the processor in reset, writes the file to its memory in the processor's order of bytes, reads it
back, and lets the processor go. The processor is not of this repository: a card is any device with one on it that keeps to a few
rules. What is written may get lost; the processor is to start on the file or not at all.
-/

namespace WrRfDemo.Speclib

open Clocked

def htonl (x : BitVec 32) : BitVec 32 := field 0 8 x ++ field 8 8 x ++ field 16 8 x ++ field 24 8 x

/-- A word of the buffer, the last of which may go beyond the file. -/
def ibuf (beyond : Nat → BitVec 8) (buf : List (BitVec 8)) (i : Nat) : BitVec 32 :=
  let byte (k : Nat) : BitVec 8 := buf.getD (4 * i + k) (beyond (4 * i + k))
  byte 3 ++ byte 2 ++ byte 1 ++ byte 0

def wordCount (buf : List (BitVec 8)) : Nat := (buf.length + 3) / 4

/-- The offset of the reset register, and what is written to it. -/
def resetOffset : BitVec 32 := 0x20400

def holdWord : BitVec 32 := 0x1deadbee

def startWord : BitVec 32 := 0x0deadbee

abbrev Prog (α : Type) := Program (BitVec 32) (BitVec 32) α

variable (base : BitVec 32) (word : Nat → BitVec 32)

def wordAt (i : Nat) : BitVec 32 := base + BitVec.ofNat 32 (i * 4)

def writeImage : Nat → Prog Unit
  | 0 => return ()
  | n + 1 => do
    writeImage n
    Program.store (wordAt base n) (word n)

/-- The loop that reads the image back, up to the first word that differs. -/
def verifyImage : Nat → Prog Bool
  | 0 => return true
  | n + 1 => do
    let same ← verifyImage n
    if same then
      let r ← Program.load (wordAt base n)
      return r == word n
    else
      return false

/-- None where it still waits for the processor to stop. -/
def specLoadLm32 (limit : Nat) (beyond : Nat → BitVec 8) : Option (List (BitVec 8)) → Prog (Option Int)
  | none => return some (-1)
  | some buf => do
    Program.store (base + resetOffset) holdWord
    let held ← Program.pollUntil (fun v => v &&& BitVec.twoPow 32 28 != 0) (base + resetOffset) limit
    if held then
      writeImage base (fun i => htonl (ibuf beyond buf i)) (wordCount buf)
      let same ← verifyImage base (fun i => htonl (ibuf beyond buf i)) (wordCount buf)
      if same then
        Program.store (base + resetOffset) startWord
        return some 0
      else
        return some (-1)
    else
      return none

/-! ### The processor -/

variable {μ : Type}

/-- A byte as the processor counts them: the first of a word is its upper one. -/
def byteAt (ram : Nat → BitVec 32) (k : Nat) : BitVec 8 := field (24 - 8 * (k % 4)) 8 (ram (k / 4))

/-- What a card has of its processor: the memory by words, whether it is held, and the memories that it was started on. -/
structure Lm32 (μ : Type) where
  ram : μ → Nat → BitVec 32
  held : μ → Prop
  started : μ → List (Nat → BitVec 32)

namespace Lm32

variable (cpu : Lm32 μ) (dev : Device (BitVec 32) (BitVec 32) μ)

/-- The processor is held, and was started on these memories. -/
def Held (l : List (Nat → BitVec 32)) (m : μ) : Prop := cpu.held m ∧ cpu.started m = l

/-- A held processor leaves its memory alone, its reset register shows in bit 28 that it is held, and nothing but the start word starts
it. Any write may get lost, also one to the reset register. -/
structure Obeys : Prop where
  moves : ∀ m m', dev.Moves m m' → cpu.started m' = cpu.started m ∧ (cpu.held m → cpu.held m' ∧ cpu.ram m' = cpu.ram m)
  shows : ∀ m v m', dev.Reads (base + resetOffset) m v m' →
    cpu.started m' = cpu.started m ∧ (v &&& BitVec.twoPow 32 28 ≠ 0 → cpu.held m')
  reads : ∀ i m v m', i * 4 < 0x20400 → cpu.held m → dev.Reads (wordAt base i) m v m' →
    v = cpu.ram m i ∧ cpu.held m' ∧ cpu.started m' = cpu.started m ∧ cpu.ram m' = cpu.ram m
  writes : ∀ i data m m', i * 4 < 0x20400 → cpu.held m → dev.Writes (wordAt base i) data m m' →
    cpu.held m' ∧ cpu.started m' = cpu.started m ∧ ∀ j ≠ i, cpu.ram m' j = cpu.ram m j
  holds : ∀ m m', dev.Writes (base + resetOffset) holdWord m m' → cpu.started m' = cpu.started m
  starts : ∀ m m', cpu.held m → dev.Writes (base + resetOffset) startWord m m' →
    cpu.started m' = cpu.started m ∨ cpu.started m' = cpu.started m ++ [cpu.ram m]

/-- No write to a held processor gets lost. -/
structure Reliable : Prop where
  writes : ∀ i data m m', i * 4 < 0x20400 → cpu.held m → dev.Writes (wordAt base i) data m m' → cpu.ram m' i = data
  starts : ∀ m m', cpu.held m → dev.Writes (base + resetOffset) startWord m m' → cpu.started m' = cpu.started m ++ [cpu.ram m]

end Lm32

/-! ### The order of the bytes -/

theorem field_append_high {m n : Nat} (x : BitVec m) (y : BitVec n) (lo width : Nat) :
    field (n + lo) width (x ++ y) = field lo width x := by
  apply BitVec.eq_of_getLsbD_eq
  intro k hk
  simp only [field, BitVec.getLsbD_extractLsb', hk, decide_true, Bool.true_and, BitVec.getLsbD_append]
  rw [if_neg (by omega)]
  congr 1
  omega

theorem field_append_low {m n : Nat} (x : BitVec m) (y : BitVec n) {lo width : Nat} (h : lo + width ≤ n) :
    field lo width (x ++ y) = field lo width y := by
  apply BitVec.eq_of_getLsbD_eq
  intro k hk
  simp only [field, BitVec.getLsbD_extractLsb', hk, decide_true, Bool.true_and, BitVec.getLsbD_append]
  rw [if_pos (by omega)]

theorem field_whole {n : Nat} (x : BitVec n) : field 0 n x = x := by
  apply BitVec.eq_of_getLsbD_eq
  intro k hk
  simp [field, hk]

theorem field_bytes (a b c d : BitVec 8) :
    field 24 8 (a ++ b ++ c ++ d) = a ∧ field 16 8 (a ++ b ++ c ++ d) = b ∧ field 8 8 (a ++ b ++ c ++ d) = c ∧
      field 0 8 (a ++ b ++ c ++ d) = d := by
  refine ⟨?_, ?_, ?_, ?_⟩
  · exact (field_append_high _ d 16 8).trans ((field_append_high _ c 8 8).trans ((field_append_high a b 0 8).trans (field_whole a)))
  · exact (field_append_high _ d 8 8).trans ((field_append_high _ c 0 8).trans
      ((field_append_low a b (by decide)).trans (field_whole b)))
  · exact (field_append_high _ d 0 8).trans ((field_append_low _ c (by decide)).trans (field_whole c))
  · exact (field_append_low _ d (by decide)).trans (field_whole d)

theorem byteAt_htonl (beyond : Nat → BitVec 8) (buf : List (BitVec 8)) {k : Nat} (hk : k < buf.length) :
    byteAt (fun i => htonl (ibuf beyond buf i)) k = buf[k] := by
  have hSplit : 4 * (k / 4) + k % 4 = k := Nat.div_add_mod k 4
  have hByte : buf.getD (4 * (k / 4) + k % 4) (beyond (4 * (k / 4) + k % 4)) = buf[k] := by
    rw [hSplit, List.getD_eq_getElem _ _ hk]
  rw [byteAt, htonl, ← hByte]
  generalize k / 4 = i
  have hLt : k % 4 < 4 := Nat.mod_lt k (by decide)
  generalize k % 4 = j at hLt
  let byte (k : Nat) : BitVec 8 := buf.getD (4 * i + k) (beyond (4 * i + k))
  obtain ⟨h3, h2, h1, h0⟩ := field_bytes (byte 3) (byte 2) (byte 1) (byte 0)
  obtain ⟨h24, h16, h8, hLow⟩ := field_bytes (field 0 8 (ibuf beyond buf i)) (field 8 8 (ibuf beyond buf i))
    (field 16 8 (ibuf beyond buf i)) (field 24 8 (ibuf beyond buf i))
  interval_cases j
  · exact h24.trans h0
  · exact h16.trans h1
  · exact h8.trans h2
  · exact hLow.trans h3

/-! ### The two loops -/

variable {base word} {cpu : Lm32 μ} {dev : Device (BitVec 32) (BitVec 32) μ} {l : List (Nat → BitVec 32)}

theorem stable_started (hObeys : cpu.Obeys base dev) : Stable dev fun m => cpu.started m = l :=
  fun m m' hStarted hMoves => (hObeys.moves m m' hMoves).1.trans hStarted

theorem stable_held (hObeys : cpu.Obeys base dev) : Stable dev (cpu.Held l) := by
  rintro m m' ⟨hHeld, hStarted⟩ hMoves
  obtain ⟨hSame, hStays⟩ := hObeys.moves m m' hMoves
  exact ⟨(hStays hHeld).1, hSame.trans hStarted⟩

theorem stable_ram (hObeys : cpu.Obeys base dev) {P : (Nat → BitVec 32) → Prop} :
    Stable dev fun m => cpu.Held l m ∧ P (cpu.ram m) := by
  rintro m m' ⟨hHeld, hRam⟩ hMoves
  refine ⟨stable_held hObeys m m' hHeld hMoves, ?_⟩
  rw [((hObeys.moves m m' hMoves).2 hHeld.1).2]
  exact hRam

theorem stable_image (hObeys : cpu.Obeys base dev) (image : Nat → BitVec 32) :
    Stable dev fun m => cpu.Held l m ∧ cpu.ram m = image :=
  stable_ram hObeys (P := fun ram => ram = image)

theorem meets_poll (hObeys : cpu.Obeys base dev) (limit : Nat) :
    Meets dev (fun m => cpu.started m = l) (.pollUntil (fun v => v &&& BitVec.twoPow 32 28 != 0) (base + resetOffset) limit)
      fun ready m => cpu.started m = l ∧ (ready = true → cpu.Held l m) := by
  apply meets_pollUntil (stable_started hObeys) (stable_held hObeys)
  rintro m v m' hStarted hReads
  obtain ⟨hSame, hShows⟩ := hObeys.shows m v m' hReads
  exact ⟨hSame.trans hStarted, fun hBit => ⟨hShows (by simpa using hBit), hSame.trans hStarted⟩⟩

theorem meets_writeImage (hObeys : cpu.Obeys base dev) {n : Nat} (hFits : n * 4 ≤ 0x20400) :
    Meets dev (cpu.Held l) (writeImage base word n)
      fun _ m => cpu.Held l m ∧ (cpu.Reliable base dev → ∀ i < n, cpu.ram m i = word i) := by
  induction n with
  | zero => exact meets_done (stable_held hObeys) fun m hHeld => ⟨hHeld, fun _ i hi => absurd hi (Nat.not_lt_zero i)⟩
  | succ n ih =>
    refine (ih (by omega)).bind fun _ => meets_store
      (stable_ram hObeys (P := fun ram => cpu.Reliable base dev → ∀ i < n, ram i = word i))
      (stable_ram hObeys (P := fun ram => cpu.Reliable base dev → ∀ i < n + 1, ram i = word i)) ?_
    rintro m m' ⟨⟨hHeld, hStarted⟩, hShows⟩ hStore
    obtain ⟨hStill, hSame, hOthers⟩ := hObeys.writes n _ m m' (by omega) hHeld hStore
    refine ⟨⟨hStill, hSame.trans hStarted⟩, fun hReliable i hi => ?_⟩
    by_cases hLast : i = n
    · rw [hLast]
      exact hReliable.writes n _ m m' (by omega) hHeld hStore
    · rw [hOthers i hLast]
      exact hShows hReliable i (by omega)

theorem meets_verifyImage (hObeys : cpu.Obeys base dev) {n : Nat} (hFits : n * 4 ≤ 0x20400) (image : Nat → BitVec 32) :
    Meets dev (fun m => cpu.Held l m ∧ cpu.ram m = image) (verifyImage base word n)
      fun same m => (same = true ↔ ∀ i < n, image i = word i) ∧ cpu.Held l m ∧ cpu.ram m = image := by
  have hStays : Stable dev fun m => cpu.Held l m ∧ cpu.ram m = image := stable_image hObeys image
  induction n with
  | zero => exact meets_done hStays fun m h => ⟨⟨fun _ i hi => absurd hi (Nat.not_lt_zero i), fun _ => rfl⟩, h⟩
  | succ n ih =>
    refine (ih (by omega)).bind fun same => meets_pure fun hSame => ?_
    cases same with
    | false =>
      refine meets_done hStays fun m h => ⟨⟨fun hOther => absurd hOther Bool.false_ne_true, fun hAll => ?_⟩, h⟩
      exact hSame.mpr fun i hi => hAll i (Nat.lt_succ_of_lt hi)
    | true =>
      have hLoad : Meets dev (fun m => cpu.Held l m ∧ cpu.ram m = image) (Program.load (wordAt base n))
          fun r m => r = image n ∧ cpu.Held l m ∧ cpu.ram m = image := by
        apply meets_load hStays (fun r => (stable_const _ _).and hStays)
        rintro m r m' ⟨⟨hHeld, hStarted⟩, hRam⟩ hReads
        obtain ⟨hRead, hStill, hSameStarts, hSameRam⟩ := hObeys.reads n m r m' (by omega) hHeld hReads
        exact ⟨hRead.trans (congrFun hRam n), ⟨hStill, hSameStarts.trans hStarted⟩, hSameRam.trans hRam⟩
      refine hLoad.bind fun r => meets_pure fun hRead => meets_done hStays fun m h => ⟨?_, h⟩
      rw [hRead, beq_iff_eq]
      constructor
      · intro hLast i hi
        rcases Nat.lt_succ_iff_lt_or_eq.mp hi with hEarlier | rfl
        · exact hSame.mp rfl i hEarlier
        · exact hLast
      · exact fun hAll => hAll n n.lt_succ_self

/-! ### The whole of it -/

/-- The processor has been started on the file, or not at all; where no write gets lost there is no error, and it has been started if
the loader says so. -/
structure Loads (cpu : Lm32 μ) (reliable : Prop) (l : List (Nat → BitVec 32)) (buf : List (BitVec 8)) (r : Option Int) (m : μ) :
    Prop where
  starts : cpu.started m = l ∨
    r = some 0 ∧ ∃ image, cpu.started m = l ++ [image] ∧ ∀ k, (hk : k < buf.length) → byteAt image k = buf[k]
  sure : reliable → r ≠ some (-1) ∧ (r = some 0 → cpu.started m ≠ l)

theorem meets_start (hObeys : cpu.Obeys base dev) (image : Nat → BitVec 32) :
    Meets dev (fun m => cpu.Held l m ∧ cpu.ram m = image) (Program.store (base + resetOffset) startWord)
      fun _ m => (cpu.started m = l ∨ cpu.started m = l ++ [image]) ∧ (cpu.Reliable base dev → cpu.started m = l ++ [image]) := by
  refine meets_store (stable_image hObeys image) ?_ ?_
  · rintro m m' h hMoves
    rwa [(hObeys.moves m m' hMoves).1]
  · rintro m m' ⟨⟨hHeld, hStarted⟩, hRam⟩ hStore
    have hStarts := hObeys.starts m m' hHeld hStore
    rw [hStarted, hRam] at hStarts
    refine ⟨hStarts, fun hReliable => ?_⟩
    rw [hReliable.starts m m' hHeld hStore, hStarted, hRam]

structure Carrier where
  ram : Nat → BitVec 32
  held : Bool
  started : List (Nat → BitVec 32)

namespace Carrier

def lm32 : Lm32 Carrier := ⟨ram, fun m => m.held = true, started⟩

/-- The reset register takes a word with the key in its lower bits, and shows in bit 28 whether the processor is held. -/
def reset (data : BitVec 32) (m : Carrier) : Carrier :=
  if field 0 28 data ≠ 0xdeadbee then m
  else if data.getLsbD 28 then { m with held := true }
  else ⟨m.ram, false, if m.held then m.started ++ [m.ram] else m.started⟩

def bus (base : BitVec 32) : Bus (BitVec 32) (BitVec 32) Carrier where
  read adr m :=
    some (if adr = base + resetOffset then if m.held then BitVec.twoPow 32 28 else 0 else m.ram ((adr - base).toNat / 4), m)
  write adr data m :=
    some (if adr = base + resetOffset then m.reset data
      else { m with ram := Function.update m.ram ((adr - base).toNat / 4) data })

theorem total_bus (base : BitVec 32) : (bus base).Total := ⟨fun _ _ => ⟨_, rfl⟩, fun _ _ _ => ⟨_, rfl⟩⟩

end Carrier

theorem offset_wordAt (base : BitVec 32) {i : Nat} (hi : i * 4 < 0x20400) : (wordAt base i - base).toNat = i * 4 := by
  rw [wordAt, BitVec.add_comm, BitVec.add_sub_cancel, BitVec.toNat_ofNat]
  exact Nat.mod_eq_of_lt (by omega)

theorem wordAt_ne_reset (base : BitVec 32) {i : Nat} (hi : i * 4 < 0x20400) : wordAt base i ≠ base + resetOffset := by
  intro hSame
  have hOffset := offset_wordAt base hi
  have hReset : (base + resetOffset - base).toNat = 0x20400 := by
    rw [BitVec.add_comm, BitVec.add_sub_cancel]
    rfl
  rw [hSame, hReset] at hOffset
  omega

namespace Carrier

theorem read_word (base : BitVec 32) {i : Nat} (hi : i * 4 < 0x20400) (m : Carrier) :
    (bus base).read (wordAt base i) m = some (m.ram i, m) := by
  simp only [bus]
  rw [if_neg (wordAt_ne_reset base hi), offset_wordAt base hi, Nat.mul_div_cancel _ (by decide)]

theorem write_word (base : BitVec 32) {i : Nat} (hi : i * 4 < 0x20400) (data : BitVec 32) (m : Carrier) :
    (bus base).write (wordAt base i) data m = some { m with ram := Function.update m.ram i data } := by
  simp only [bus]
  rw [if_neg (wordAt_ne_reset base hi), offset_wordAt base hi, Nat.mul_div_cancel _ (by decide)]

theorem write_start (base : BitVec 32) {m : Carrier} (hHeld : lm32.held m) :
    (bus base).write (base + resetOffset) startWord m = some ⟨m.ram, false, m.started ++ [m.ram]⟩ := by
  have hOn : m.held = true := hHeld
  simp only [bus, if_true]
  rw [reset, if_neg (by decide), if_neg (by decide), if_pos hOn]

theorem obeys (base : BitVec 32) : lm32.Obeys base (bus base).device := by
  constructor
  · rintro m m' rfl
    exact ⟨rfl, fun hHeld => ⟨hHeld, rfl⟩⟩
  · rintro m v m' hRead
    obtain ⟨hShown, rfl⟩ := Prod.mk.inj (Option.some.inj hRead)
    refine ⟨rfl, fun hBit => by_contra fun hFree => ?_⟩
    have hOff : ¬m.held = true := hFree
    rw [← hShown, if_pos rfl, if_neg hOff] at hBit
    exact hBit (by decide)
  · rintro i m v m' hi hHeld hRead
    obtain ⟨rfl, rfl⟩ := Prod.mk.inj (Option.some.inj ((read_word base hi m).symm.trans hRead))
    exact ⟨rfl, hHeld, rfl, rfl⟩
  · rintro i data m m' hi hHeld hWrite
    obtain rfl := Option.some.inj ((write_word base hi data m).symm.trans hWrite)
    exact ⟨hHeld, rfl, fun j hj => Function.update_of_ne hj _ _⟩
  · rintro m m' hWrite
    obtain rfl := Option.some.inj hWrite
    rw [if_pos rfl, reset, if_neg (by decide), if_pos (by decide)]
    rfl
  · rintro m m' hHeld hWrite
    obtain rfl := Option.some.inj ((write_start base hHeld).symm.trans hWrite)
    exact .inr rfl

theorem reliable (base : BitVec 32) : lm32.Reliable base (bus base).device := by
  constructor
  · rintro i data m m' hi - hWrite
    obtain rfl := Option.some.inj ((write_word base hi data m).symm.trans hWrite)
    exact Function.update_self ..
  · rintro m m' hHeld hWrite
    obtain rfl := Option.some.inj ((write_start base hHeld).symm.trans hWrite)
    rfl

end Carrier

end WrRfDemo.Speclib

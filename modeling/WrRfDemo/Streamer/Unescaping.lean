import WrRfDemo.Streamer.Escaping
import WrRfDemo.Streamer.Receiver

/-! # Undoing the escapes

The escape detector with detection enabled, for any escape code. In an idle cycle nothing moves, so
that only the words matter, and the words of each symbol are read back as that symbol.
-/

namespace WrRfDemo.Streamer

open Clocked

/-- `D` as it is, the code and zero, or the code and `D`. -/
def Symbol.encode (code : BitVec 16) (x : Symbol) : List (BitVec 16) :=
  if x.escape then [code, x.data] else if x.data = code then [code, 0] else [x.data]

def encodeAll (code : BitVec 16) (symbols : List Symbol) : List (BitVec 16) := symbols.flatMap (Symbol.encode code)

theorem encodeAll_escapeCode (symbols : List Symbol) : encodeAll escapeCode symbols = wordsOf symbols := rfl

namespace EscapeDetector

def shows (code : BitVec 16) (i : DetectorIn) (s : EscapeDetector) : List Symbol :=
  if s.dValidO code i then [⟨s.dEscapeO i, s.dO code i⟩] else []

def shown (code : BitVec 16) : List DetectorIn → EscapeDetector → List Symbol
  | [], _ => []
  | i :: rest, s => shows code i s ++ shown code rest (s.pFsm code i)

end EscapeDetector

namespace DetectorIn

def Detects (i : DetectorIn) : Prop := i.rstN = true ∧ i.dDetectEnable = true

def words (i : DetectorIn) : List (BitVec 16) := if i.dValid then [i.d] else []

end DetectorIn

/-! ### Words only -/

namespace EscapeDetector

/-- The symbols that these words complete, and the state behind them. -/
def read (code : BitVec 16) : List (BitVec 16) → EscapeDetector → List Symbol × EscapeDetector
  | [], s => ([], s)
  | w :: rest, .idle =>
    if w = code then read code rest .checkEscape
    else (⟨false, w⟩ :: (read code rest .idle).1, (read code rest .idle).2)
  | w :: rest, .checkEscape =>
    ((if w = 0 then ⟨false, code⟩ else ⟨true, w⟩) :: (read code rest .idle).1, (read code rest .idle).2)

variable {code : BitVec 16} {i : DetectorIn} {s : EscapeDetector}

theorem read_words_append (hDetects : i.Detects) (rest : List (BitVec 16)) :
    read code (i.words ++ rest) s =
      (shows code i s ++ (read code rest (s.pFsm code i)).1, (read code rest (s.pFsm code i)).2) := by
  obtain ⟨hRst, hEnable⟩ := hDetects
  cases hValid : i.dValid with
  | false =>
    cases s <;> simp [DetectorIn.words, shows, dValidO, pFsm, hRst, hEnable, hValid]
  | true =>
    cases s with
    | idle =>
      rcases eq_or_ne i.d code with hCode | hPlain
      · simp [DetectorIn.words, read, shows, dValidO, isEscapeCode, pFsm, hRst, hEnable, hValid, hCode]
      · simp [DetectorIn.words, read, shows, dValidO, isEscapeCode, dEscapeO, dO, pFsm, hRst,
          hEnable, hValid, hPlain]
    | checkEscape =>
      rcases eq_or_ne i.d 0#16 with hZero | hSome
      · simp [DetectorIn.words, read, shows, dValidO, isEscapeCode, dEscapeO, dO, pFsm, hRst,
          hEnable, hValid, hZero]
      · simp [DetectorIn.words, read, shows, dValidO, isEscapeCode, dEscapeO, dO, pFsm, hRst,
          hEnable, hValid, hSome]

theorem shown_eq_read {inputs : List DetectorIn} (hDetects : ∀ i ∈ inputs, i.Detects) :
    read code (inputs.flatMap DetectorIn.words) s = (shown code inputs s, run (pFsm code) inputs s) := by
  induction inputs generalizing s with
  | nil => rfl
  | cons i rest ih =>
    rw [List.flatMap_cons, read_words_append (hDetects i List.mem_cons_self),
      ih fun j hj => hDetects j (List.mem_cons_of_mem i hj)]
    rfl

/-! ### Symbol by symbol -/

theorem read_encode_append {x : Symbol} (hSymbol : ¬(x.escape = true ∧ x.data = 0)) (rest : List (BitVec 16)) :
    read code (x.encode code ++ rest) .idle = (x :: (read code rest .idle).1, (read code rest .idle).2) := by
  obtain ⟨escape, data⟩ := x
  cases escape with
  | true =>
    have hData : data ≠ 0#16 := fun hZero => hSymbol ⟨rfl, hZero⟩
    simp [Symbol.encode, read, hData]
  | false =>
    rcases eq_or_ne data code with rfl | hPlain
    · simp [Symbol.encode, read]
    · simp [Symbol.encode, read, hPlain]

theorem read_encodeAll {symbols : List Symbol} (hSymbols : ∀ x ∈ symbols, ¬(x.escape = true ∧ x.data = 0)) :
    read code (encodeAll code symbols) .idle = (symbols, .idle) := by
  induction symbols with
  | nil => rfl
  | cons x rest ih =>
    have hRest := ih fun y hy => hSymbols y (List.mem_cons_of_mem x hy)
    rw [encodeAll] at hRest
    rw [encodeAll, List.flatMap_cons, read_encode_append (hSymbols x List.mem_cons_self), hRest]

/-- The words of some symbols, with idle cycles anywhere, are shown as those symbols, and then the detector is
in `IDLE` again. -/
theorem encoded_shown {symbols : List Symbol} (hSymbols : ∀ x ∈ symbols, ¬(x.escape = true ∧ x.data = 0))
    {inputs : List DetectorIn} (hDetects : ∀ i ∈ inputs, i.Detects)
    (hWords : inputs.flatMap DetectorIn.words = encodeAll code symbols) :
    shown code inputs .idle = symbols ∧ run (pFsm code) inputs .idle = .idle := by
  have hRead : read code (inputs.flatMap DetectorIn.words) .idle = (shown code inputs .idle, run (pFsm code) inputs .idle) :=
    shown_eq_read hDetects
  rw [hWords, read_encodeAll hSymbols, Prod.mk.injEq] at hRead
  exact ⟨hRead.1.symm, hRead.2.symm⟩

/-- An escaped code and a plain one, with an idle cycle inside each pair. -/
theorem encoded_shown_codes :
    let word (d : BitVec 16) : DetectorIn := ⟨true, d, true, true⟩
    let gap (d : BitVec 16) : DetectorIn := ⟨true, d, true, false⟩
    shown 0xcafe [word 0xcafe, gap 0, word 0xcafe, word 0xcafe, gap 0xcafe, word 0] .idle =
      [⟨true, 0xcafe⟩, ⟨false, 0xcafe⟩] := by
  intro word gap
  have hDetects : ∀ i ∈ [word 0xcafe, gap 0, word 0xcafe, word 0xcafe, gap 0xcafe, word 0], i.Detects := by
    simp [word, gap, DetectorIn.Detects]
  exact (encoded_shown (by decide) hDetects rfl).1

end EscapeDetector

end WrRfDemo.Streamer

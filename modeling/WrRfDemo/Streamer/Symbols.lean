import WrRfDemo.Streamer.Blocks
import WrRfDemo.Streamer.ProperFrames

/-! # Reading words one by one

What a frame word, a data half-word and an escaped word make of a reader that stands between
two symbols.
-/

namespace WrRfDemo.Streamer

open Clocked

variable {κ : Type*} {n : Nat} {cfg : RxConfig} {crc : CrcUnit κ}

def wordEvent (w : BitVec 16) : FabEvent := ⟨false, false, some w⟩

/-- A half-word that is not escaped, as it is sent. -/
def plainWords (d : BitVec 16) : List (BitVec 16) := if d = escapeCode then [escapeCode, 0] else [d]

namespace Reader

def readWords (cfg : RxConfig) (crc : CrcUnit κ) (words : List (BitVec 16)) (r : Reader κ n) : Reader κ n :=
  r.read cfg crc (words.map wordEvent)

theorem read_append (r : Reader κ n) (before after : List FabEvent) :
    r.read cfg crc (before ++ after) = (r.read cfg crc before).read cfg crc after := by
  rw [read, List.foldl_append]
  rfl

theorem properAll_append {r : Reader κ n} {before after : List FabEvent} :
    ProperAll cfg crc r (before ++ after) ↔
      ProperAll cfg crc r before ∧ ProperAll cfg crc (r.read cfg crc before) after := by
  induction before generalizing r with
  | nil => exact ⟨fun h => ⟨trivial, h⟩, And.right⟩
  | cons e rest ih =>
    constructor
    · rintro ⟨hFirst, hRest⟩
      obtain ⟨hBefore, hAfter⟩ := ih.mp hRest
      exact ⟨⟨hFirst, hBefore⟩, hAfter⟩
    · rintro ⟨⟨hFirst, hBefore⟩, hAfter⟩
      exact ⟨hFirst, ih.mpr ⟨hBefore, hAfter⟩⟩

theorem proper_word {r : Reader κ n} (hPhase : r.phase ≠ .subframeHeader) (w : BitVec 16) : r.Proper (wordEvent w) :=
  ⟨by simp [wordEvent], by simp [wordEvent], fun hHeader => absurd hHeader hPhase⟩

/-- Between two symbols, with what has been read so far. -/
structure Reached (phase : ReadPhase) (k : κ) (opened : List (BitVec 16)) (committed : List (FifoWord n))
    (r : Reader κ n) : Prop where
  phase : r.phase = phase
  checking : r.checking = false
  crc : r.crc = k
  opened : r.opened = opened
  committed : r.committed = committed

variable {c : CrcRegister κ} {r : Reader κ n} {k : κ} {opened : List (BitVec 16)} {committed : List (FifoWord n)}

theorem Reached.starts (h : r.Reached .idle k opened committed) :
    ProperAll cfg crc r [⟨true, false, none⟩] ∧
      (r.read cfg crc [⟨true, false, none⟩]).Reached (.header 0) k opened committed := by
  obtain ⟨hPhase, hChecking, hCrc, hOpened, hCommitted⟩ := h
  refine ⟨⟨⟨fun _ => ⟨hPhase, rfl⟩, (fun hEof => by cases hEof), fun hHeader => ?_⟩, trivial⟩, ?_⟩
  · rw [hPhase] at hHeader
    cases hHeader
  · constructor <;> simp [read, step, hPhase, hChecking, hCrc, hOpened, hCommitted]

theorem Reached.ends (h : r.Reached .tail k opened committed) :
    ProperAll cfg crc r [⟨false, true, none⟩] ∧
      (r.read cfg crc [⟨false, true, none⟩]).Reached .idle k opened committed := by
  obtain ⟨hPhase, hChecking, hCrc, hOpened, hCommitted⟩ := h
  refine ⟨⟨⟨(fun hSof => by cases hSof), fun _ => ⟨hPhase, rfl⟩, fun hHeader => ?_⟩, trivial⟩, ?_⟩
  · rw [hPhase] at hHeader
    cases hHeader
  · constructor <;> simp [read, step, hPhase, hChecking, hCrc, hOpened, hCommitted]

theorem Reached.header {count : BitVec 4} (h : r.Reached (.header count) k opened committed) (d : BitVec 16) :
    ProperAll cfg crc r [wordEvent d] ∧
      (r.readWords cfg crc [d]).Reached (headerPhase cfg count d) k opened committed := by
  obtain ⟨hPhase, -, hCrc, hOpened, hCommitted⟩ := h
  refine ⟨⟨proper_word (by simp [hPhase]) d, trivial⟩, ?_⟩
  constructor <;> simp [readWords, read, step, wordEvent, hPhase, hCrc, hOpened, hCommitted]

/-- The code that announces an escape moves nothing but the detector. -/
theorem step_escapeCode {r : Reader κ n} (hChecking : r.checking = false)
    (hPhase : r.phase = .subframeHeader ∨ r.phase = .payload) :
    r.step cfg crc (wordEvent escapeCode) = { r with checking := true } := by
  rcases hPhase with hPhase | hPhase <;>
    simp [step, wordEvent, receive, decode, checkingNext, crcEventsOf, hPhase, hChecking]

theorem Reached.first (cfg : RxConfig) (c : CrcRegister κ) (h : r.Reached .subframeHeader k opened committed) {w : BitVec 16} (hMsb : w.msb = true) :
    ProperAll cfg c.unit r ([escapeCode, w].map wordEvent) ∧
      (r.readWords cfg c.unit [escapeCode, w]).Reached .payload (c.update w c.init) opened committed := by
  obtain ⟨hPhase, hChecking, -, hOpened, hCommitted⟩ := h
  have hCode : r.step cfg c.unit (wordEvent escapeCode) = { r with checking := true } :=
    step_escapeCode hChecking (.inl hPhase)
  have hSome : w ≠ 0#16 := by
    rintro rfl
    cases hMsb
  have hDecode : decode true (some w) = some (w, true) := by simp [decode, hSome]
  refine ⟨⟨⟨by simp [wordEvent], by simp [wordEvent], ?_⟩, ?_, trivial⟩, ?_⟩
  · intro _ v hShown
    simp [wordEvent, decode, hChecking] at hShown
  · rw [hCode]
    refine ⟨by simp [wordEvent], by simp [wordEvent], fun _ v hShown => ?_⟩
    change decode true (some w) = some (v, true) at hShown
    rw [hDecode] at hShown
    cases hShown
    exact hMsb
  · have hRead : r.readWords cfg c.unit [escapeCode, w] =
        ({ r with checking := true } : Reader κ n).step cfg c.unit (wordEvent w) := by
      rw [← hCode]
      rfl
    rw [hRead]
    constructor <;>
      simp [step, wordEvent, receive, hDecode, checkingNext, crcEventsOf, CrcRegister.unit, hPhase, hMsb, hOpened,
        hCommitted]

theorem Reached.plain (cfg : RxConfig) (c : CrcRegister κ) (h : r.Reached .payload k opened committed) (d : BitVec 16) :
    ProperAll cfg c.unit r ((plainWords d).map wordEvent) ∧
      (r.readWords cfg c.unit (plainWords d)).Reached .payload (c.update d k) (opened ++ [d]) committed := by
  obtain ⟨hPhase, hChecking, hCrc, hOpened, hCommitted⟩ := h
  by_cases hEscape : d = escapeCode
  · subst hEscape
    have hCode : r.step cfg c.unit (wordEvent escapeCode) = { r with checking := true } :=
      step_escapeCode hChecking (.inr hPhase)
    rw [plainWords, if_pos rfl]
    refine ⟨⟨proper_word (by simp [hPhase]) _, ?_, trivial⟩, ?_⟩
    · rw [hCode]
      exact proper_word (by simp [hPhase]) _
    · have hRead : r.readWords cfg c.unit [escapeCode, 0] =
          ({ r with checking := true } : Reader κ n).step cfg c.unit (wordEvent 0) := by
        rw [← hCode]
        rfl
      rw [hRead]
      constructor <;>
        simp [step, wordEvent, receive, decode, checkingNext, crcEventsOf, CrcRegister.unit, hPhase, hCrc, hOpened,
          hCommitted]
  · rw [plainWords, if_neg hEscape]
    refine ⟨⟨proper_word (by simp [hPhase]) _, trivial⟩, ?_⟩
    constructor <;>
      simp [readWords, read, step, wordEvent, receive, decode, checkingNext, crcEventsOf, CrcRegister.unit, hPhase,
        hChecking, hEscape, hCrc, hOpened, hCommitted]

theorem Reached.closing (cfg : RxConfig) (c : CrcRegister κ) (h : r.Reached .payload k opened committed) {w : BitVec 16} (hSome : w ≠ 0) :
    ProperAll cfg c.unit r ([escapeCode, w].map wordEvent) ∧
      (r.readWords cfg c.unit [escapeCode, w]).Reached (if w.msb then .payload else .tail)
        (c.update w (if w.msb then c.init else k)) []
        (committed ++ if closes w && c.residue k then completedWords n opened else []) := by
  obtain ⟨hPhase, hChecking, hCrc, hOpened, hCommitted⟩ := h
  have hCode : r.step cfg c.unit (wordEvent escapeCode) = { r with checking := true } :=
    step_escapeCode hChecking (.inr hPhase)
  have hDecode : decode true (some w) = some (w, true) := by
    rw [decode]
    simp only [if_true, if_neg hSome]
  have hRead : r.readWords cfg c.unit [escapeCode, w] =
      ({ r with checking := true } : Reader κ n).step cfg c.unit (wordEvent w) := by
    rw [← hCode]
    rfl
  refine ⟨⟨proper_word (by simp [hPhase]) _, ?_, trivial⟩, ?_⟩
  · rw [hCode]
    exact proper_word (by simp [hPhase]) _
  · rw [hRead]
    constructor <;>
      simp [step, wordEvent, receive, hDecode, checkingNext, crcEventsOf, CrcRegister.unit, hPhase, hCrc, hOpened,
        hCommitted]

theorem readWords_tail (cfg : RxConfig) (crc : CrcUnit κ) (hPhase : r.phase = .tail) (words : List (BitVec 16)) :
    ProperAll cfg crc r (words.map wordEvent) ∧ r.readWords cfg crc words = r := by
  induction words with
  | nil => exact ⟨trivial, rfl⟩
  | cons w rest ih =>
    have hSame : r.step cfg crc (wordEvent w) = r := by
      cases r
      simp_all [step, wordEvent]
    refine ⟨⟨proper_word (by simp [hPhase]) w, ?_⟩, ?_⟩
    · rw [hSame]
      exact ih.1
    · change (r.step cfg crc (wordEvent w)).readWords cfg crc rest = r
      rw [hSame]
      exact ih.2

end Reader

end WrRfDemo.Streamer

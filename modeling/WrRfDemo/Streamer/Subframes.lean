import WrRfDemo.Streamer.Packing

/-! # The words that subframes hand over

An observer follows the subframes: one that is closed by an escaped header or by the end mark
while the CRC matches hands over its completed words, any other end of a subframe discards
them. The strobes of the state machine carry that verdict to the buffer, an accept one cycle
later than a drop.
-/

namespace WrRfDemo.Streamer

open Clocked

structure SubframeLog (n : Nat) where
  opened : List (BitVec 16)
  committed : List (FifoWord n)
  delivered : List (FifoWord n)
deriving DecidableEq

/-- An escaped word with this data ends the subframe properly. -/
def closes (data : BitVec 16) : Bool := data.msb || data == 0x0bad

namespace SubframeLog

variable {n a : Nat}

def empty (n : Nat) : SubframeLog n := ⟨[], [], []⟩

def follow (i : FsmIn) (o : SubframeLog n) : SubframeLog n :=
  if i.eof then { o with opened := [] }
  else if i.dvalid then
    if i.isEscape then
      { o with opened := [],
               committed := o.committed ++
                 if closes i.data && i.crcMatch then completedWords n o.opened else [] }
    else { o with opened := o.opened ++ [i.data] }
  else o

def see (o : SubframeLog n) (i : RxCoreIn) (s : RxCore a n) : SubframeLog n :=
  { (if s.fsm.state = .payload then o.follow i.fsm else o) with
    delivered := o.delivered ++
      if s.buffer.reads (s.bufferIn i) then [s.buffer.mem s.buffer.rdPtr] else [] }

end SubframeLog

/-! ### How a subframe stands in the registers -/

namespace RxFsm

variable {n : Nat}

/-- The registers after these half-words of a subframe. -/
structure Assembles (halves : List (BitVec 16)) (s : RxFsm n) : Prop where
  serCount : s.serCount.toNat = halves.length % n
  pendingWrite : s.pendingWrite = waits n halves.length
  gotNext : s.gotNextSubframe = decide (halves.length < 2 * n - 1)
  packData : Packs n s.packData (halves.drop (halves.length / n * n))
  fifoData : n ≤ halves.length → s.fifoData = wordAt n halves (halves.length / n - 1)
  free : s.pendingWrite = true → s.fifoDvalid = false

variable {halves : List (BitVec 16)} {s : RxFsm n} {i : FsmIn}

theorem assembles_nil (hn : 2 ≤ n) (hSer : s.serCount = 0) (hPending : s.pendingWrite = false)
    (hNext : s.gotNextSubframe = true) : s.Assembles [] := by
  constructor
  · simp [hSer]
  · simp [hPending, waits]
    omega
  · simp [hNext]
    omega
  · intro k hk
    simp at hk
  · intro hLess
    simp at hLess
    omega
  · simp [hPending]

theorem Assembles.mark (h : s.Assembles halves) (hn : 2 ≤ n) (hWaits : waits n halves.length = true) :
    (!s.fifoDvalid && s.gotNextSubframe) = (halves.length / n - 1 == 0) := by
  have hFree := h.free (h.pendingWrite.trans hWaits)
  simp only [waits, decide_eq_true_eq] at hWaits
  obtain ⟨hReach, hRoom⟩ := hWaits
  have hSplit := Nat.div_add_mod halves.length n
  have hMod := Nat.mod_lt halves.length (show 0 < n by omega)
  have hPos := Nat.div_pos hReach (show 0 < n by omega)
  rw [hFree, h.gotNext, Bool.not_false, Bool.true_and, Bool.eq_iff_iff, decide_eq_true_eq, beq_iff_eq]
  generalize halves.length / n = q at hSplit hPos ⊢
  constructor
  · intro hFirst
    by_contra hLater
    have : n * 2 ≤ n * q := Nat.mul_le_mul_left n (by omega)
    omega
  · intro hOne
    have hq : q = 1 := by omega
    subst hq
    omega

theorem serCount_succ (hn : n ≤ 16) (h : s.serCount.toNat + 1 < n) :
    (s.serCount + 1).toNat = s.serCount.toNat + 1 := by
  rw [BitVec.toNat_add]
  exact Nat.mod_eq_of_lt (by simp; omega)

theorem length_drop_mul_div (halves : List (BitVec 16)) (n : Nat) :
    (halves.drop (halves.length / n * n)).length = halves.length % n := by
  have := Nat.div_add_mod halves.length n
  rw [List.length_drop, Nat.mul_comm]
  omega

theorem mod_of_second (hn : 2 ≤ n) : (2 * n - 2) % n = n - 2 := by
  rw [show 2 * n - 2 = n + (n - 2) by omega, Nat.add_mod_left, Nat.mod_eq_of_lt (by omega)]

/-- Only the half-word that writes the first word is the one before the last of two words. -/
theorem lt_succ_of_quiet (hn : 2 ≤ n) {len : Nat} (hQuiet : writesNext n len = false) : len < 2 * n - 1 ↔ len + 1 < 2 * n - 1 := by
  constructor
  · intro hLess
    by_contra hMore
    have hLen : len = 2 * n - 2 := by omega
    have hMod := mod_of_second hn
    simp only [writesNext, hLen, hMod, waits, Bool.and_eq_false_iff, beq_eq_false_iff_ne, decide_eq_false_iff_not] at hQuiet
    omega
  · omega

theorem Assembles.packData_concat (h : s.Assembles halves) (hn : 2 ≤ n) (d : BitVec 16) :
    Packs n (setField (16 * s.serCount.toNat) d s.packData) (halves.drop (halves.length / n * n) ++ [d]) := by
  have hRest := length_drop_mul_div halves n
  have hPack := h.packData.concat (by rw [hRest]; exact Nat.mod_lt halves.length (show 0 < n by omega)) d
  rwa [hRest, ← h.serCount] at hPack

theorem Assembles.pack_full (h : s.Assembles halves) (hn : 2 ≤ n ∧ n ≤ 16) (hOpen : i.eof = false) (hWord : i.dvalid = true)
    (hPlain : i.isEscape = false) (hFull : halves.length % n + 1 = n) :
    (s.payload i).Assembles (halves ++ [i.data]) ∧ (s.payload i).fifoDvalid = false ∧ writesNext n halves.length = false := by
  obtain ⟨hNextMod, hNextDiv⟩ := succ_of_full (show 0 < n by omega) hFull
  have hRest := length_drop_mul_div halves n
  have hNext : s.payload i = { s with
      fifoLast := false, fifoAccept := false, fifoDrop := false,
      packData := setField (16 * s.serCount.toNat) i.data s.packData,
      serCount := 0, pendingWrite := true, fifoDvalid := false,
      fifoData := setField (16 * (n - 1)) i.data s.packData,
      fifoSync := !s.fifoDvalid && s.gotNextSubframe } := by
    simp [payload, RxFsm.pack, hOpen, hWord, hPlain, h.serCount, hFull]
  have hNoWrite : writesNext n halves.length = false := by
    simp [writesNext, show halves.length % n + 2 ≠ n by omega]
  have hDone : waits n (halves.length + 1) = true := by
    have := Nat.mod_le halves.length n
    simp only [waits, hNextMod, decide_eq_true_eq]
    omega
  refine ⟨?_, by rw [hNext], hNoWrite⟩
  rw [hNext]
  constructor
  · simp [hNextMod]
  · simp [hDone]
  · rw [List.length_append, List.length_singleton, h.gotNext, decide_eq_decide]
    exact lt_succ_of_quiet hn.1 hNoWrite
  · intro k hk
    rw [List.length_drop, List.length_append, List.length_singleton, hNextDiv] at hk
    have := Nat.div_add_mod (halves.length + 1) n
    rw [hNextMod, hNextDiv, Nat.mul_comm] at this
    omega
  · intro _
    rw [List.length_append, List.length_singleton, hNextDiv, Nat.add_sub_cancel]
    have hTail : ((halves ++ [i.data]).drop (halves.length / n * n)).take n =
        halves.drop (halves.length / n * n) ++ [i.data] := by
      rw [List.drop_append_of_le_length (Nat.div_mul_le_self _ _), List.take_of_length_le]
      rw [List.length_append, hRest, List.length_singleton]
      omega
    rw [wordAt, hTail]
    have hLength : (halves.drop (halves.length / n * n) ++ [i.data]).length = n := by
      rw [List.length_append, hRest, List.length_singleton, hFull]
    refine Packs.eq hLength ?_ (packs_packWord (Nat.le_of_eq hLength))
    have hPack := h.packData_concat hn.1 i.data
    rwa [h.serCount, show halves.length % n = n - 1 by omega] at hPack
  · simp

/-- What stays of a data word that is not complete yet, with one more half-word of it. -/
theorem Assembles.grown (h : s.Assembles halves) (hn : 2 ≤ n ∧ n ≤ 16) (d : BitVec 16) (hRoom : halves.length % n + 1 ≠ n) :
    (s.serCount + 1).toNat = (halves ++ [d]).length % n ∧
      Packs n (setField (16 * s.serCount.toNat) d s.packData)
        ((halves ++ [d]).drop ((halves ++ [d]).length / n * n)) ∧
      (n ≤ (halves ++ [d]).length → s.fifoData = wordAt n (halves ++ [d]) ((halves ++ [d]).length / n - 1)) := by
  obtain ⟨hNextMod, hNextDiv⟩ := succ_of_room (show 0 < n by omega) hRoom
  have hMod := Nat.mod_lt halves.length (show 0 < n by omega)
  have hSer := h.serCount
  simp only [List.length_append, List.length_singleton, hNextMod, hNextDiv]
  refine ⟨?_, ?_, fun hReach => ?_⟩
  · rw [serCount_succ hn.2 (by omega), hSer]
  · rw [List.drop_append_of_le_length (Nat.div_mul_le_self _ _)]
    exact h.packData_concat hn.1 d
  · have hBefore : n ≤ halves.length := by
      by_contra hShort
      have := Nat.mod_eq_of_lt (show halves.length < n by omega)
      omega
    have hPos := Nat.div_pos hBefore (show 0 < n by omega)
    rw [h.fifoData hBefore, wordAt_concat d (le_of_div_pos (Nat.sub_lt hPos (by decide)))]

/-- The half-word before the last of a data word writes the word before. -/
theorem Assembles.pack_writes (h : s.Assembles halves) (hn : 2 ≤ n ∧ n ≤ 16) (hOpen : i.eof = false) (hWord : i.dvalid = true)
    (hPlain : i.isEscape = false) (hWrites : writesNext n halves.length = true) :
    (s.payload i).Assembles (halves ++ [i.data]) ∧ (s.payload i).fifoDvalid = true ∧ (s.payload i).fifoDin =
      ⟨wordAt n halves (halves.length / n - 1), halves.length / n - 1 == 0, false⟩ := by
  have hWaits : halves.length % n + 2 = n ∧ waits n halves.length = true := by simpa [writesNext] using hWrites
  have hReach : n ≤ halves.length ∧ halves.length % n + 1 ≠ n := by simpa [waits] using hWaits.2
  obtain ⟨hSer, hPack, hData⟩ := h.grown hn i.data hReach.2
  obtain ⟨hNextMod, -⟩ := succ_of_room (show 0 < n by omega) hReach.2
  have hPending := h.pendingWrite.trans hWaits.2
  have hNext : s.payload i = { s with
      fifoLast := false, fifoAccept := false, fifoDrop := false,
      packData := setField (16 * s.serCount.toNat) i.data s.packData,
      serCount := s.serCount + 1, pendingWrite := false, fifoDvalid := true,
      gotNextSubframe := false, fifoSync := !s.fifoDvalid && s.gotNextSubframe } := by
    simp [payload, RxFsm.pack, hOpen, hWord, hPlain, h.serCount, hReach.2, hWaits.1, hPending]
  refine ⟨?_, by rw [hNext], ?_⟩
  · rw [hNext]
    constructor
    · exact hSer
    · simp [waits, hNextMod, show halves.length % n + 1 + 1 = n by omega]
    · have hSplit := Nat.div_add_mod halves.length n
      have hPos : n * 1 ≤ n * (halves.length / n) := Nat.mul_le_mul_left n (Nat.div_pos hReach.1 (by omega))
      simp
      omega
    · exact hPack
    · exact hData
    · simp
  · rw [hNext]
    simp only [fifoDin, h.fifoData hReach.1, h.mark hn.1 hWaits.2]

theorem Assembles.pack_quiet (h : s.Assembles halves) (hn : 2 ≤ n ∧ n ≤ 16) (hOpen : i.eof = false) (hWord : i.dvalid = true)
    (hPlain : i.isEscape = false) (hRoom : halves.length % n + 1 ≠ n) (hQuiet : writesNext n halves.length = false) :
    (s.payload i).Assembles (halves ++ [i.data]) ∧ (s.payload i).fifoDvalid = false := by
  obtain ⟨hSer, hPack, hData⟩ := h.grown hn i.data hRoom
  obtain ⟨hNextMod, -⟩ := succ_of_room (show 0 < n by omega) hRoom
  have hNoWrite : ¬(halves.length % n + 2 = n ∧ s.pendingWrite = true) := by
    rw [h.pendingWrite]
    simpa [writesNext] using hQuiet
  have hNext : s.payload i = { s with
      fifoLast := false, fifoAccept := false, fifoDrop := false,
      packData := setField (16 * s.serCount.toNat) i.data s.packData,
      serCount := s.serCount + 1, fifoDvalid := false,
      fifoSync := !s.fifoDvalid && s.gotNextSubframe } := by
    simp only [payload, RxFsm.pack, hOpen, hWord, hPlain, h.serCount, Bool.false_eq_true, if_false, if_true]
    rw [if_neg hRoom, if_neg hNoWrite]
  have hWaits : waits n (halves.length + 1) = waits n halves.length := by
    rw [h.pendingWrite] at hNoWrite
    simp only [waits, hNextMod, decide_eq_true_eq] at hNoWrite ⊢
    rw [decide_eq_decide]
    rcases Nat.lt_or_ge halves.length n with hShort | hReach
    · have := Nat.mod_eq_of_lt hShort
      omega
    · omega
  refine ⟨?_, by rw [hNext]⟩
  rw [hNext]
  constructor
  · exact hSer
  · rw [List.length_append, List.length_singleton, hWaits]
    exact h.pendingWrite
  · rw [List.length_append, List.length_singleton, h.gotNext, decide_eq_decide]
    exact lt_succ_of_quiet hn.1 hQuiet
  · exact hPack
  · exact hData
  · simp

theorem Assembles.pack (h : s.Assembles halves) (hn : 2 ≤ n ∧ n ≤ 16) (hOpen : i.eof = false)
    (hWord : i.dvalid = true) (hPlain : i.isEscape = false) :
    (s.payload i).Assembles (halves ++ [i.data]) ∧
      (s.payload i).fifoDvalid = writesNext n halves.length ∧
      (writesNext n halves.length = true → (s.payload i).fifoDin =
        ⟨wordAt n halves (halves.length / n - 1), halves.length / n - 1 == 0, false⟩) := by
  cases hWrites : writesNext n halves.length with
  | true =>
    obtain ⟨hNext, hValid, hDin⟩ := h.pack_writes hn hOpen hWord hPlain hWrites
    exact ⟨hNext, hValid, fun _ => hDin⟩
  | false =>
    rcases eq_or_ne (halves.length % n + 1) n with hFull | hRoom
    · obtain ⟨hNext, hValid, -⟩ := h.pack_full hn hOpen hWord hPlain hFull
      exact ⟨hNext, hValid, fun hNever => by cases hNever⟩
    · obtain ⟨hNext, hValid⟩ := h.pack_quiet hn hOpen hWord hPlain hRoom hWrites
      exact ⟨hNext, hValid, fun hNever => by cases hNever⟩

end RxFsm

end WrRfDemo.Streamer

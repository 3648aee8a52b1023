import WrRfDemo.Streamer.SentBlocks

/-! # The blocks in the transmit buffer

The counter goes up and down with the words that end a block. It has six bits, and a deep buffer has room for more blocks
than it can count.
-/

namespace WrRfDemo.Streamer

open Clocked

variable {n : Nat}

def ends (words : List (TxWord n)) : Nat := words.countP TxWord.last

theorem ends_append (before after : List (TxWord n)) : ends (before ++ after) = ends before + ends after :=
  List.countP_append

namespace Transmitter

variable {cfg : TxConfig} {i : TxIn n} {s : Transmitter n}

def pushesEnd (cfg : TxConfig) (i : TxIn n) (s : Transmitter n) : Bool := s.fifoWe cfg i && i.word.last

def popsEnd (i : TxIn n) (s : Transmitter n) : Bool := s.fifoRd i && (s.fifoQ i).last

/-- The fill flag of a buffer that is filled above its threshold. -/
def FlagsLevel (cfg : TxConfig) (i : TxIn n) (s : Transmitter n) : Prop :=
  cfg.txThreshold < s.buffer.length → i.almostEmpty = false

structure CountsEnds (cfg : TxConfig) (s : Transmitter n) : Prop where
  count : s.bufFrameCount.toNat = ends s.buffer
  hit : ∀ i : TxIn n, s.FlagsLevel cfg i → cfg.txThreshold < s.buffer.length → 0 < ends s.buffer → s.thresholdHit i = true

/-- An end that comes without another one leaving finds less than 63 in the buffer. -/
def EndsFit (cfg : TxConfig) (i : TxIn n) (s : Transmitter n) : Prop :=
  i.rstN = true → s.pushesEnd cfg i = true → s.popsEnd i = false → ends s.buffer < 63

instance (i : TxIn n) (s : Transmitter n) : Decidable (EndsFit cfg i s) := inferInstanceAs (Decidable (_ → _ → _ → _))

/-! ### Cycle by cycle -/

theorem ends_takes (cfg : TxConfig) (i : TxIn n) (s : Transmitter n) : ends (s.takes cfg i) = (s.pushesEnd cfg i).toNat := by
  rw [takes, pushesEnd]
  cases s.fifoWe cfg i with
  | false => rfl
  | true => cases hLast : i.word.last <;> simp [ends, hLast]

theorem ends_reads (i : TxIn n) (s : Transmitter n) : ends (s.reads i) = (s.popsEnd i).toNat := by
  rw [reads, popsEnd]
  cases s.fifoRd i with
  | false => rfl
  | true => cases hLast : (s.fifoQ i).last <;> simp [ends, hLast]

theorem ends_clock (cfg : TxConfig) (s : Transmitter n) (hRst : i.rstN = true) :
    (s.popsEnd i).toNat + ends (s.clock cfg i).buffer = ends s.buffer + (s.pushesEnd cfg i).toNat := by
  rw [← ends_reads, ← ends_takes, ← ends_append, ← ends_append, reads_buffer cfg s hRst]

theorem bufFrameCount_clock (cfg : TxConfig) (s : Transmitter n) (hRst : i.rstN = true) :
    (s.clock cfg i).bufFrameCount =
      if s.pushesEnd cfg i && !s.popsEnd i then s.bufFrameCount + 1
      else if !s.pushesEnd cfg i && s.popsEnd i then s.bufFrameCount - 1
      else s.bufFrameCount := by
  simp [clock, pFrameCounter, pushesEnd, popsEnd, hRst]

theorem toNat_bufFrameCount_clock (cfg : TxConfig) (s : Transmitter n) (hRst : i.rstN = true)
    (hHigh : s.pushesEnd cfg i = true → s.popsEnd i = false → s.bufFrameCount.toNat < 63)
    (hLow : s.pushesEnd cfg i = false → s.popsEnd i = true → 0 < s.bufFrameCount.toNat) :
    (s.popsEnd i).toNat + (s.clock cfg i).bufFrameCount.toNat = s.bufFrameCount.toNat + (s.pushesEnd cfg i).toNat := by
  rw [bufFrameCount_clock cfg s hRst]
  cases hPush : s.pushesEnd cfg i with
  | false =>
    cases hPop : s.popsEnd i with
    | false => exact Nat.add_comm 0 _
    | true =>
      have hSome : (1 : BitVec 6) ≤ s.bufFrameCount := hLow hPush hPop
      change 1 + (s.bufFrameCount - 1).toNat = s.bufFrameCount.toNat + 0
      rw [BitVec.toNat_sub_of_le hSome]
      exact Nat.add_sub_cancel' hSome
  | true =>
    cases hPop : s.popsEnd i with
    | false =>
      have hRoom := hHigh hPush hPop
      change 0 + (s.bufFrameCount + 1).toNat = s.bufFrameCount.toNat + 1
      rw [BitVec.toNat_add, Nat.zero_add]
      exact Nat.mod_eq_of_lt (Nat.succ_lt_succ hRoom)
    | true => exact Nat.add_comm 1 _

theorem countsEnds_of_count (cfg : TxConfig) (hCount : s.bufFrameCount.toNat = ends s.buffer) : CountsEnds cfg s := by
  refine ⟨hCount, fun i hFlags hAbove hSome => ?_⟩
  have hNonzero : (s.bufFrameCount != 0) = true := by
    rw [bne_iff_ne]
    rintro hZero
    rw [hZero] at hCount
    exact absurd hCount (Nat.ne_of_lt hSome)
  rw [thresholdHit, hFlags hAbove, hNonzero]
  rfl

theorem countsEnds_reset (cfg : TxConfig) (hRst : i.rstN = false) (s : Transmitter n) : CountsEnds cfg (s.clock cfg i) := by
  apply countsEnds_of_count
  simp [clock, pFrameCounter, bufferNext, ends, hRst]

theorem CountsEnds.step (h : CountsEnds cfg s) (hFits : EndsFit cfg i s) : CountsEnds cfg (s.clock cfg i) := by
  cases hRst : i.rstN with
  | false => exact countsEnds_reset cfg hRst s
  | true =>
    have hEnds := ends_clock cfg s hRst
    have hHigh : s.pushesEnd cfg i = true → s.popsEnd i = false → s.bufFrameCount.toNat < 63 := by
      rw [h.count]
      exact hFits hRst
    have hLow : s.pushesEnd cfg i = false → s.popsEnd i = true → 0 < s.bufFrameCount.toNat := by
      intro hPush hPop
      rw [hPush, hPop, Bool.toNat_false, Bool.toNat_true] at hEnds
      rw [h.count]
      omega
    have hNext := toNat_bufFrameCount_clock cfg s hRst hHigh hLow
    have hCount := h.count
    apply countsEnds_of_count
    omega

theorem CountsEnds.endsFit (hNext : CountsEnds cfg (s.clock cfg i)) : EndsFit cfg i s := by
  intro hRst hPush hPop
  have hEnds := ends_clock cfg s hRst
  have hCount := hNext.count
  have hRange := (s.clock cfg i).bufFrameCount.isLt
  simp only [hPush, hPop, Bool.toNat_false, Bool.toNat_true, Nat.zero_add] at hEnds
  omega

/-- A buffer of at most 62 words never holds too many. -/
theorem endsFit_of_small (hSmall : cfg.txThreshold ≤ 31) (i : TxIn n) (s : Transmitter n) : EndsFit cfg i s := by
  intro _ hPush _
  have hLength : ends s.buffer ≤ s.buffer.length := List.countP_le_length
  have hFull : s.fifoFull cfg = false := by
    simp only [pushesEnd, fifoWe, Bool.and_eq_true, Bool.not_eq_true'] at hPush
    exact hPush.1.2
  rw [fifoFull, decide_eq_false_iff_not] at hFull
  omega

/-- Since the reset, the counter shows the blocks in the buffer in every cycle exactly when no end comes that the
counter cannot count. -/
theorem countsEnds_iff {r : TxIn n} (hReset : r.rstN = false) (cfg : TxConfig) (s : Transmitter n) (inputs : List (TxIn n)) :
    (∀ before after, inputs = before ++ after → CountsEnds cfg (run (clock cfg) before (s.clock cfg r))) ↔
      Along (clock cfg) (EndsFit cfg) inputs (s.clock cfg r) :=
  always_iff_along (fun _ h => h) (fun _ _ h hFits => h.step hFits) (fun _ _ _ hNext => hNext.endsFit) inputs
    (countsEnds_reset cfg hReset s)

/-- A word that is a block of its own, while the fabric does not ask. -/
def storeBlock (almostEmpty : Bool) : TxIn 4 := ⟨true, ⟨0, true⟩, true, false, false, false, almostEmpty, 0, false, 0, ⟨0, false⟩, 0⟩

theorem countsEnds_iff_stored :
    (run (clock txConfig) (List.replicate 7 (storeBlock false)) (blankTx.clock txConfig txReset)).bufFrameCount.toNat = 7 := by
  have hCounts := (countsEnds_iff (r := txReset) rfl txConfig blankTx (List.replicate 7 (storeBlock false))).mpr
    (along_of_forall (fun i _ s => endsFit_of_small (by decide) i s) _) _ [] (List.append_nil _).symm
  rw [hCounts.count]
  decide

/-- A buffer of the default size takes 192 blocks, the counter is back at zero and no frame is started. -/
theorem countsEnds_wrapped :
    let cfg : TxConfig := ⟨0, 0, 0xdbff, 128, 128, 64⟩
    let inputs := List.replicate 129 (storeBlock true) ++ List.replicate 63 (storeBlock false)
    let s := run (clock cfg) inputs (blankTx.clock cfg txReset)
    ends s.buffer = 192 ∧ s.bufFrameCount = 0 ∧ s.thresholdHit (storeBlock false) = false ∧
      ¬ ∀ (cfg : TxConfig) (s : Transmitter 4) (r : TxIn 4) (inputs : List (TxIn 4)), r.rstN = false →
        CountsEnds cfg (run (clock cfg) inputs (s.clock cfg r)) := by
  intro cfg inputs s
  have hRun : ends s.buffer = 192 ∧ s.bufFrameCount = 0 ∧ s.thresholdHit (storeBlock false) = false := by decide +kernel
  obtain ⟨hEnds, hZero, hHit⟩ := hRun
  refine ⟨hEnds, hZero, hHit, fun hAlways => ?_⟩
  have hCount := (hAlways cfg blankTx txReset inputs rfl).count
  change s.bufFrameCount.toNat = ends s.buffer at hCount
  rw [hZero, hEnds] at hCount
  exact absurd hCount (by decide)

end Transmitter

end WrRfDemo.Streamer

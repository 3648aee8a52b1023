import WrRfDemo.Core.Tuning

/-! # The tuning word by the history of the interpolator

What a core is tuned to is a function of the words that its interpolator was fed since its reset.
-/

namespace WrRfDemo.Core

open Clocked Cic

/-- The word for a history, at this centre frequency and gain. -/
def wordOf (bias : BitVec 43) (gain : BitVec 16) (fed : List (BitVec 18)) : BitVec 43 :=
  bias + BitVec.ofInt 43 (interpolated fed / 2 ^ 60 * gain.toNat)

/-- Each register behind the interpolator holds the word for a history a cycle older. -/
structure Made (bias : BitVec 43) (gain : BitVec 16) (fed : List (BitVec 18)) (s : DdsCore) : Prop where
  exact : Exact fed s.cic
  centred : 0 < fed.length → s.synthTuneBias = bias
  loads : 0 < fed.length → s.synthTuneLoad = true
  tune : 1 < fed.length → s.synthTune = wordOf bias gain (fed.take (fed.length - 1))
  d0 : 2 < fed.length → s.synthTuneD0 = wordOf bias gain (fed.take (fed.length - 2))
  d1 : 3 < fed.length → s.synthTuneD1 = wordOf bias gain (fed.take (fed.length - 3))
  synth : 4 < fed.length → s.synth.tune = wordOf bias gain (fed.take (fed.length - 4))

variable {bias : BitVec 43} {gain : BitVec 16} {fed : List (BitVec 18)} {i : CoreIn} {s : DdsCore}

theorem made_reset (bias : BitVec 43) (gain : BitVec 16) (hReset : s.cic = .reset) : Made bias gain [] s := by
  refine ⟨hReset ▸ exact_reset, ?_, ?_, ?_, ?_, ?_, ?_⟩
  all_goals
    intro hPast
    exact absurd hPast (Nat.not_lt_zero _)

theorem take_append_of_le {n : Nat} (hn : n ≤ fed.length) (word : BitVec 18) :
    (fed ++ [word]).take ((fed ++ [word]).length - (n + 1)) = fed.take (fed.length - n) := by
  rw [List.length_append, List.length_singleton, Nat.add_sub_add_right, List.take_append_of_le_length (by omega)]

theorem Made.step (h : Made bias gain fed s) (hRuns : Runs bias gain i) (hKeeps : i.slaveCicRst = false) :
    Made bias gain (fed ++ [s.cicInput i]) (s.clock i) := by
  have hOn : ¬(!i.rstNRef) = true := by simp [hRuns.rstNRef]
  have hLength : (fed ++ [s.cicInput i]).length = fed.length + 1 := by simp
  refine ⟨?_, ?_, ?_, ?_, ?_, ?_, ?_⟩
  · rw [← feedCore_append hKeeps]
    exact exact_core h.exact i
  all_goals
    rw [hLength, DdsCore.clock, if_neg hOn]
  · exact fun _ => hRuns.centre
  · exact fun _ => rfl
  · intro hn
    rw [← hLength, take_append_of_le (Nat.zero_le _), Nat.sub_zero, List.take_length, wordOf, ← cicOutClamp_toInt h.exact,
      ← h.centred (by omega), ← hRuns.scale, ← fSignedMultiply_eq]
  · intro hn
    rw [← hLength, take_append_of_le (by omega)]
    exact h.tune (by omega)
  · intro hn
    rw [← hLength, take_append_of_le (by omega)]
    exact h.d0 (by omega)
  · intro hn
    rw [← hLength, take_append_of_le (by omega)]
    have hTune : (s.synth.clock (s.quadIn i)).tune = s.synthTuneD1 := by
      simp [Synth.QuadChannel.clock, DdsCore.quadIn, hRuns.rstNRef, h.loads (by omega)]
    exact hTune.trans (h.d1 (by omega))

end WrRfDemo.Core

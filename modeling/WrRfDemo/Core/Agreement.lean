import WrRfDemo.Core.Tuning

/-! # Two cores with the same words

The interpolator forgets: cores that take the same words in the same phase of their counters come to be tuned
to the same frequency, whatever they were fed before.
-/

namespace WrRfDemo.Core

open Clocked Cic Multirate

/-- The words that follow two histories in one phase, equal where they are taken. -/
structure Alike (beforeA beforeB lastA lastB : List (BitVec 18)) : Prop where
  phase : beforeA.length % 1024 = beforeB.length % 1024
  length : lastA.length = lastB.length
  words : ∀ k < lastA.length, (beforeA.length + k) % 1024 = 0 → lastA.getD k 0 = lastB.getD k 0

variable {beforeA beforeB lastA lastB : List (BitVec 18)}

theorem Alike.symm (h : Alike beforeA beforeB lastA lastB) : Alike beforeB beforeA lastB lastA := by
  have hPhase := h.phase
  refine ⟨h.phase.symm, h.length.symm, fun k hk hTaken => (h.words k (h.length ▸ hk) ?_).symm⟩
  omega

theorem Alike.interpolated_of_le (h : Alike beforeA beforeB lastA lastB) (hLong : 15361 ≤ lastA.length)
    (hle : beforeA.length ≤ beforeB.length) : interpolated (beforeA ++ lastA) = interpolated (beforeB ++ lastB) := by
  have hPhase := h.phase
  have hLength := h.length
  obtain ⟨shift, hShift⟩ : ∃ shift, beforeB.length = beforeA.length + shift * 1024 :=
    ⟨(beforeB.length - beforeA.length) / 1024, by omega⟩
  rw [interpolated, interpolated, List.length_append, List.length_append, if_neg (by omega), if_neg (by omega),
    smoothed_shift (by decide : 0 < 1024) shift 6 (by omega)]
  · apply congrArg (smoothed 1024 _ 6)
    omega
  · intro j hLow hHigh
    rw [samples, samples, List.getD_append_right _ _ _ _ (by omega), List.getD_append_right _ _ _ _ (by omega),
      h.words _ (by omega) (by omega)]
    apply congrArg (fun k => (lastB.getD k 0).toInt)
    omega

theorem Alike.interpolated (h : Alike beforeA beforeB lastA lastB) (hLong : 15361 ≤ lastA.length) :
    Cic.interpolated (beforeA ++ lastA) = Cic.interpolated (beforeB ++ lastB) := by
  rcases Nat.le_total beforeA.length beforeB.length with hle | hle
  · exact h.interpolated_of_le hLong hle
  · exact (h.symm.interpolated_of_le (h.length ▸ hLong) hle).symm

theorem Alike.append (h : Alike beforeA beforeB lastA lastB) {wordA wordB : BitVec 18}
    (hWords : (beforeA.length + lastA.length) % 1024 = 0 → wordA = wordB) :
    Alike beforeA beforeB (lastA ++ [wordA]) (lastB ++ [wordB]) := by
  refine ⟨h.phase, by simp [h.length], fun k hk hTaken => ?_⟩
  rw [List.length_append, List.length_singleton] at hk
  have hLength := h.length
  rcases Nat.lt_or_eq_of_le (Nat.le_of_lt_succ hk) with hBefore | rfl
  · rw [List.getD_append _ _ _ _ hBefore, List.getD_append _ _ _ _ (by omega)]
    exact h.words k hBefore hTaken
  · rw [List.getD_append_right _ _ _ _ le_rfl, List.getD_append_right _ _ _ _ (by omega), hLength, Nat.sub_self]
    exact hWords hTaken

theorem Alike.take (h : Alike beforeA beforeB lastA lastB) (m : Nat) : Alike beforeA beforeB (lastA.take m) (lastB.take m) := by
  refine ⟨h.phase, by rw [List.length_take, List.length_take, h.length], fun j hj hTaken => ?_⟩
  rw [List.length_take] at hj
  rw [List.getD_eq_getElem?_getD, List.getD_eq_getElem?_getD, List.getElem?_take_of_lt (by omega),
    List.getElem?_take_of_lt (by omega), ← List.getD_eq_getElem?_getD, ← List.getD_eq_getElem?_getD]
  exact h.words j (by omega) hTaken

/-! ### Runs of both -/

def both (i : CoreIn × CoreIn) (s : DdsCore × DdsCore) : DdsCore × DdsCore := (s.1.clock i.1, s.2.clock i.2)

/-- A running cycle of both at one frequency and gain, with one word where a word is taken. -/
structure SameWord (bias : BitVec 43) (gain : BitVec 16) (i : CoreIn × CoreIn) (s : DdsCore × DdsCore) : Prop where
  runsA : Runs bias gain i.1
  runsB : Runs bias gain i.2
  keepsA : i.1.slaveCicRst = false
  keepsB : i.2.slaveCicRst = false
  word : s.1.cic.ceOutO (s.1.cicIn i.1) = true → s.1.cicInput i.1 = s.2.cicInput i.2

/-- Both interpolators have taken the same `n` words last, and show the same once they remember no others. -/
structure Merging (n : Nat) (s : DdsCore × DdsCore) : Prop where
  history : ∃ beforeA beforeB lastA lastB, lastA.length = n ∧ Alike beforeA beforeB lastA lastB ∧
    Exact (beforeA ++ lastA) s.1.cic ∧ Exact (beforeB ++ lastB) s.2.cic
  bias : 0 < n → s.1.synthTuneBias = s.2.synthTuneBias
  load : 0 < n → s.1.synthTuneLoad = true ∧ s.2.synthTuneLoad = true
  tune : 15361 < n → s.1.synthTune = s.2.synthTune
  d0 : 15362 < n → s.1.synthTuneD0 = s.2.synthTuneD0
  d1 : 15363 < n → s.1.synthTuneD1 = s.2.synthTuneD1
  synth : 15364 < n → s.1.synth.tune = s.2.synth.tune

variable {bias : BitVec 43} {gain : BitVec 16} {n : Nat} {i : CoreIn × CoreIn} {s : DdsCore × DdsCore}

theorem Merging.clamp (h : Merging n s) (hLong : 15360 < n) : s.1.cicOutClamp = s.2.cicOutClamp := by
  obtain ⟨beforeA, beforeB, lastA, lastB, hLength, hAlike, hExactA, hExactB⟩ := h.history
  apply BitVec.eq_of_toInt_eq
  rw [cicOutClamp_toInt hExactA, cicOutClamp_toInt hExactB, hAlike.interpolated (by omega)]

theorem ceOutO_iff {fed : List (BitVec 18)} {s : DdsCore} (h : Exact fed s.cic) (i : CoreIn) :
    s.cic.ceOutO (s.cicIn i) = true ↔ fed.length % 1024 = 0 := by
  rw [Cic1024x.ceOutO, h.tracks.phase0_iff]
  exact and_iff_right rfl

theorem Merging.step (h : Merging n s) (hSame : SameWord bias gain i s) : Merging (n + 1) (both i s) := by
  have hOnA : ¬(!i.1.rstNRef) = true := by simp [hSame.runsA.rstNRef]
  have hOnB : ¬(!i.2.rstNRef) = true := by simp [hSame.runsB.rstNRef]
  obtain ⟨beforeA, beforeB, lastA, lastB, hLength, hAlike, hExactA, hExactB⟩ := h.history
  have hWord : (beforeA.length + lastA.length) % 1024 = 0 → s.1.cicInput i.1 = s.2.cicInput i.2 := by
    intro hTaken
    rw [← List.length_append] at hTaken
    exact hSame.word ((ceOutO_iff hExactA i.1).mpr hTaken)
  have hHistory : ∃ beforeA beforeB lastA lastB, lastA.length = n + 1 ∧ Alike beforeA beforeB lastA lastB ∧
      Exact (beforeA ++ lastA) (both i s).1.cic ∧ Exact (beforeB ++ lastB) (both i s).2.cic := by
    refine ⟨beforeA, beforeB, _, _, by simp [hLength], hAlike.append hWord, ?_, ?_⟩
    · rw [← List.append_assoc, ← feedCore_append hSame.keepsA]
      exact exact_core hExactA i.1
    · rw [← List.append_assoc, ← feedCore_append hSame.keepsB]
      exact exact_core hExactB i.2
  refine ⟨hHistory, ?_, ?_, ?_, ?_, ?_, ?_⟩ <;> rw [both, DdsCore.clock, DdsCore.clock, if_neg hOnA, if_neg hOnB]
  · exact fun _ => hSame.runsA.centre.trans hSame.runsB.centre.symm
  · exact fun _ => ⟨rfl, rfl⟩
  · intro hn
    have hScale := hSame.runsA.scale.trans hSame.runsB.scale.symm
    change s.1.synthTuneBias + _ = s.2.synthTuneBias + _
    rw [h.bias (by omega), h.clamp (by omega), hScale]
  · exact fun hn => h.tune (by omega)
  · exact fun hn => h.d0 (by omega)
  · intro hn
    have hLoad := h.load (by omega)
    change (s.1.synth.clock (s.1.quadIn i.1)).tune = (s.2.synth.clock (s.2.quadIn i.2)).tune
    simp [Synth.QuadChannel.clock, DdsCore.quadIn, hSame.runsA.rstNRef, hSame.runsB.rstNRef, hLoad.1, hLoad.2,
      h.d1 (by omega)]

theorem merging_run {beforeA beforeB : List CoreIn} {a b : DdsCore} (hResetA : a.cic = .reset) (hResetB : b.cic = .reset)
    (hPhase : (run DdsCore.clock beforeA a).cic.curCount = (run DdsCore.clock beforeB b).cic.curCount)
    {inputs : List (CoreIn × CoreIn)}
    (hSame : Along both (SameWord bias gain) inputs (run DdsCore.clock beforeA a, run DdsCore.clock beforeB b)) :
    Merging inputs.length (run both inputs (run DdsCore.clock beforeA a, run DdsCore.clock beforeB b)) := by
  obtain ⟨fedA, hExactA⟩ := exact_core_run beforeA hResetA
  obtain ⟨fedB, hExactB⟩ := exact_core_run beforeB hResetB
  rw [hExactA.tracks.count, hExactB.tracks.count] at hPhase
  have hModulo : fedA.length % 1024 = fedB.length % 1024 := by
    simpa using congrArg BitVec.toNat hPhase
  have hInit : Merging 0 (run DdsCore.clock beforeA a, run DdsCore.clock beforeB b) := by
    refine ⟨⟨fedA, fedB, [], [], rfl, ⟨hModulo, rfl, fun k hk => absurd hk (Nat.not_lt_zero k)⟩, ?_, ?_⟩,
      ?_, ?_, ?_, ?_, ?_, ?_⟩
    · rwa [List.append_nil]
    · rwa [List.append_nil]
    all_goals
      intro hPast
      omega
  have hRun := run_counted (fun _ _ _ h hOk => Merging.step h hOk) inputs hInit hSame
  rwa [Nat.zero_add] at hRun

/-- Two cores out of any past, with their counters in one phase, that take the same words: after fifteen of them they
are tuned to the same frequency. -/
theorem cores_agree {beforeA beforeB : List CoreIn} {a b : DdsCore} {inputs : List (CoreIn × CoreIn)}
    (hResetA : a.cic = .reset) (hResetB : b.cic = .reset) (hLong : 15365 ≤ inputs.length)
    (hPhase : (run DdsCore.clock beforeA a).cic.curCount = (run DdsCore.clock beforeB b).cic.curCount)
    (hSame : Along both (SameWord bias gain) inputs (run DdsCore.clock beforeA a, run DdsCore.clock beforeB b)) :
    (run both inputs (run DdsCore.clock beforeA a, run DdsCore.clock beforeB b)).1.synth.tune =
      (run both inputs (run DdsCore.clock beforeA a, run DdsCore.clock beforeB b)).2.synth.tune :=
  (merging_run hResetA hResetB hPhase hSame).synth hLong

/-- Two slaves that were given other words in their first cycle, and zero ever since. -/
theorem cores_agree_at_zero :
    let given (word : BitVec 18) : CoreIn := ⟨true, false, 0, ⟨0, 0⟩, false, true, 0, 1000, 2, word, false, 0, false⟩
    let s := run both (List.replicate 15365 (given 0, given 0))
      (run DdsCore.clock [given 5] .cleared, run DdsCore.clock [given 9] .cleared)
    s.1.synth.tune = s.2.synth.tune := by
  intro given s
  have hCentre : field 0 11 (0 : BitVec 32) ++ (1000 : BitVec 32) = (1000 : BitVec 43) := by decide
  have hRuns : Runs 1000 2 (given 0) := ⟨rfl, hCentre, rfl⟩
  have hWord : ∀ s, DdsCore.cicInput (given 0) s = 0 := fun s => rfl
  have hSame : Along both (SameWord 1000 2) (List.replicate 15365 (given 0, given 0))
      (run DdsCore.clock [given 5] .cleared, run DdsCore.clock [given 9] .cleared) := by
    refine along_of_forall (fun j hj s => ?_) _
    obtain rfl := List.eq_of_mem_replicate hj
    exact ⟨hRuns, hRuns, rfl, rfl, fun _ => (hWord s.1).trans (hWord s.2).symm⟩
  have hLong : 15365 ≤ (List.replicate 15365 (given 0, given 0)).length := by rw [List.length_replicate]
  have hCount : ∀ word, (run DdsCore.clock [given word] .cleared).cic.curCount = 1 := fun word => by
    rw [run_cons, run_nil, cic_clock]
    rfl
  have hReset : DdsCore.cleared.cic = .reset := rfl
  have hAgree := cores_agree hReset hReset hLong ((hCount 5).trans (hCount 9).symm) hSame
  with_reducible exact hAgree

end WrRfDemo.Core

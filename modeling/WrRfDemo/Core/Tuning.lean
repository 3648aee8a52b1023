import WrRfDemo.Cic.Exact
import WrRfDemo.Core.DdsCore

/-! # The tuning word

What the synthesizer channel is tuned to: the centre frequency and a scaled word, between the words that the
interpolator has been fed last.
-/

namespace WrRfDemo.Core

open Clocked Cic Multirate

/-! ### The words of the interpolator -/

theorem toInt_field_top (w : BitVec 78) : (field 60 18 w).toInt = w.toInt / 2 ^ 60 := by
  have hTop : field 60 18 w = (w >>> 60).setWidth 18 := by
    apply BitVec.eq_of_toNat_eq
    simp [field]
  obtain ⟨hLow, hHigh⟩ := fits_toInt w
  rw [hTop, toInt_shift_of_fits (by decide)]
  constructor <;> omega

theorem fSignedMultiply_eq (a : BitVec 18) (b : BitVec 16) :
    fSignedMultiply a b 0 43 = BitVec.ofInt 43 (a.toInt * b.toNat) := by
  have hUnsigned : (0#1 ++ b).toInt = b.toNat := by
    have hNat : (0#1 ++ b).toNat = b.toNat := by
      rw [BitVec.toNat_append, BitVec.toNat_ofNat, Nat.zero_mod, Nat.zero_shiftLeft, Nat.zero_or]
    rw [BitVec.toInt_eq_toNat_of_lt] <;> rw [hNat]
    omega
  have hFits : Fits 35 (a.toInt * b.toNat) := by
    rw [← hUnsigned]
    exact (fits_toInt a).mul (fits_toInt _)
  have hAll : ∀ mul : BitVec 35, field 0 35 mul = mul := fun mul => by
    apply BitVec.eq_of_toNat_eq
    simp [field]
  rw [fSignedMultiply, hUnsigned]
  exact (congrArg (BitVec.signExtend 43) (hAll _)).trans (signExtend_ofInt_of_fits hFits (by decide))

variable {fed : List (BitVec 18)} {s : DdsCore} {lo hi : Int}

/-- Words that have been fed for longer than the interpolator remembers. -/
theorem interpolated_within {n : Nat} (hLong : 15361 ≤ n) (hn : n ≤ fed.length)
    (h : ∀ k, fed.length - n ≤ k → k < fed.length → lo ≤ (fed.getD k 0).toInt ∧ (fed.getD k 0).toInt ≤ hi) :
    lo ≤ interpolated fed / 2 ^ 60 ∧ interpolated fed / 2 ^ 60 ≤ hi := by
  have hSum : ((1024 : Nat) : Int) ^ 6 * lo ≤ interpolated fed ∧ interpolated fed ≤ ((1024 : Nat) : Int) ^ 6 * hi := by
    rw [interpolated, if_neg (by omega)]
    refine smoothed_within (by omega) fun j hLow hHigh => h (1024 * j) ?_ ?_ <;> omega
  push_cast at hSum
  omega

theorem interpolated_within_of_zero (hLow : lo ≤ 0) (hHigh : 0 ≤ hi)
    (h : ∀ word ∈ fed, lo ≤ word.toInt ∧ word.toInt ≤ hi) :
    lo ≤ interpolated fed / 2 ^ 60 ∧ interpolated fed / 2 ^ 60 ≤ hi := by
  have hSum : ((1024 : Nat) : Int) ^ 6 * lo ≤ interpolated fed ∧ interpolated fed ≤ ((1024 : Nat) : Int) ^ 6 * hi := by
    rw [interpolated]
    split_ifs
    · push_cast
      constructor <;> omega
    · refine smoothed_within_of_zero hLow hHigh 6 fun j hj => h _ ?_
      rw [List.getD_eq_getElem _ _ (by omega)]
      exact List.getElem_mem _
  push_cast at hSum
  omega

theorem cicOutClamp_toInt (h : Exact fed s.cic) : s.cicOutClamp.toInt = interpolated fed / 2 ^ 60 := by
  rw [DdsCore.cicOutClamp, toInt_field_top, h.tracks.output_toInt (samples_fits fed), interpolated]

/-! ### The registers behind it -/

/-- The words at this centre frequency and gain for a word of the interpolator between the bounds. -/
def Between (bias : BitVec 43) (gain : BitVec 16) (lo hi : Int) (word : BitVec 43) : Prop :=
  ∃ c, lo ≤ c ∧ c ≤ hi ∧ word = bias + BitVec.ofInt 43 (c * gain.toNat)

/-- A cycle out of reset, at this centre frequency and gain. -/
structure Runs (bias : BitVec 43) (gain : BitVec 16) (i : CoreIn) : Prop where
  rstNRef : i.rstNRef = true
  centre : field 0 11 i.freqHi ++ i.freqLo = bias
  scale : i.gain = gain

/-- The registers after `n` cycles, where the interpolator's word lies between the bounds after `fill` of them. -/
structure Tuned (bias : BitVec 43) (gain : BitVec 16) (lo hi : Int) (fill n : Nat) (s : DdsCore) : Prop where
  centred : 0 < n → s.synthTuneBias = bias
  loads : 0 < n → s.synthTuneLoad = true
  tune : fill + 1 < n → Between bias gain lo hi s.synthTune
  d0 : fill + 2 < n → Between bias gain lo hi s.synthTuneD0
  d1 : fill + 3 < n → Between bias gain lo hi s.synthTuneD1
  synth : fill + 4 < n → Between bias gain lo hi s.synth.tune

variable {bias : BitVec 43} {gain : BitVec 16} {fill n : Nat} {i : CoreIn}

theorem tuned_zero (bias : BitVec 43) (gain : BitVec 16) (lo hi : Int) (fill : Nat) (s : DdsCore) :
    Tuned bias gain lo hi fill 0 s := by
  constructor <;> intro hPast <;> omega

theorem Tuned.step (h : Tuned bias gain lo hi fill n s) (hRuns : Runs bias gain i)
    (hClamp : fill < n → lo ≤ s.cicOutClamp.toInt ∧ s.cicOutClamp.toInt ≤ hi) :
    Tuned bias gain lo hi fill (n + 1) (s.clock i) := by
  have hOn : ¬(!i.rstNRef) = true := by simp [hRuns.rstNRef]
  rw [DdsCore.clock, if_neg hOn]
  constructor
  · exact fun _ => hRuns.centre
  · exact fun _ => rfl
  · intro hn
    obtain ⟨hLow, hHigh⟩ := hClamp (by omega)
    refine ⟨_, hLow, hHigh, ?_⟩
    rw [← h.centred (by omega), ← hRuns.scale, ← fSignedMultiply_eq]
  · exact fun hn => h.tune (by omega)
  · exact fun hn => h.d0 (by omega)
  · intro hn
    have hTune : (s.synth.clock (s.quadIn i)).tune = s.synthTuneD1 := by
      simp [Synth.QuadChannel.clock, DdsCore.quadIn, hRuns.rstNRef, h.loads (by omega)]
    change Between bias gain lo hi (s.synth.clock (s.quadIn i)).tune
    rw [hTune]
    exact h.d1 (by omega)

/-! ### Runs -/

def feedCore (fed : List (BitVec 18)) (i : CoreIn) (s : DdsCore) : List (BitVec 18) := feed fed (s.cicIn i) s.cic

theorem cic_clock (i : CoreIn) (s : DdsCore) : (s.clock i).cic = s.cic.clock (s.cicIn i) := by
  rw [DdsCore.clock]
  split_ifs <;> rfl

theorem exact_core (h : Exact fed s.cic) (i : CoreIn) : Exact (feedCore fed i s) (s.clock i).cic := by
  rw [cic_clock]
  exact h.step (s.cicIn i)

theorem exact_core_run (inputs : List CoreIn) (hReset : s.cic = .reset) :
    ∃ fed, Exact fed (run DdsCore.clock inputs s).cic := by
  refine run_keeps (fun s : DdsCore => ∃ fed, Exact fed s.cic) ?_ inputs ⟨[], hReset ▸ exact_reset⟩
  rintro i s ⟨fed, hExact⟩
  exact ⟨_, exact_core hExact i⟩

theorem feedCore_append (hKeeps : i.slaveCicRst = false) (fed : List (BitVec 18)) (s : DdsCore) :
    feedCore fed i s = fed ++ [s.cicInput i] := by
  simp [feedCore, feed, DdsCore.cicIn, hKeeps]

/-- A running cycle without a reset of the interpolator, with a word between the bounds. -/
structure Guided (bias : BitVec 43) (gain : BitVec 16) (lo hi : Int) (i : CoreIn) (s : DdsCore) : Prop where
  runs : Runs bias gain i
  keeps : i.slaveCicRst = false
  low : lo ≤ (s.cicInput i).toInt
  high : (s.cicInput i).toInt ≤ hi

/-- The last `n` words lay between the bounds. -/
structure Recent (lo hi : Int) (n : Nat) (fed : List (BitVec 18)) (s : DdsCore) : Prop where
  exact : Exact fed s.cic
  length : n ≤ fed.length
  words : ∀ k, fed.length - n ≤ k → k < fed.length → lo ≤ (fed.getD k 0).toInt ∧ (fed.getD k 0).toInt ≤ hi

theorem Recent.step (h : Recent lo hi n fed s) (hGuided : Guided bias gain lo hi i s) :
    Recent lo hi (n + 1) (feedCore fed i s) (s.clock i) := by
  have hLength := h.length
  refine ⟨exact_core h.exact i, ?_, ?_⟩ <;> rw [feedCore_append hGuided.keeps]
  · rw [List.length_append]
    exact Nat.succ_le_succ hLength
  · intro k hOld hk
    rw [List.length_append, List.length_singleton] at hOld hk
    rcases Nat.lt_or_eq_of_le (Nat.le_of_lt_succ hk) with hBefore | rfl
    · rw [List.getD_append _ _ _ _ hBefore]
      exact h.words k (by omega) hBefore
    · rw [List.getD_append_right _ _ _ _ le_rfl, Nat.sub_self]
      exact ⟨hGuided.low, hGuided.high⟩

theorem Recent.clamp (h : Recent lo hi n fed s) (hLong : 15360 < n) :
    lo ≤ s.cicOutClamp.toInt ∧ s.cicOutClamp.toInt ≤ hi := by
  rw [cicOutClamp_toInt h.exact]
  exact interpolated_within hLong h.length h.words

/-- Two bounds on the last words, and on what is tuned to by now. -/
def Settling (bias : BitVec 43) (gain : BitVec 16) (lo hi : Int) (n : Nat) (p : List (BitVec 18) × DdsCore) : Prop :=
  Recent lo hi n p.1 p.2 ∧ Tuned bias gain lo hi 15360 n p.2

theorem Settling.step {p : List (BitVec 18) × DdsCore} (h : Settling bias gain lo hi n p)
    (hGuided : Guided bias gain lo hi i p.2) :
    Settling bias gain lo hi (n + 1) (watch DdsCore.clock feedCore i p) :=
  ⟨h.1.step hGuided, h.2.step hGuided.runs h.1.clamp⟩

/-- Fifteen samples after the words have come between two bounds, the channel is tuned between them. -/
theorem tuning_word_between {before inputs : List CoreIn} (hReset : s.cic = .reset) (hLong : 15365 ≤ inputs.length)
    (hGuided : Along DdsCore.clock (Guided bias gain lo hi) inputs (run DdsCore.clock before s)) :
    Between bias gain lo hi (run DdsCore.clock (before ++ inputs) s).synth.tune := by
  obtain ⟨fed, hExact⟩ := exact_core_run before hReset
  have hInit : Settling bias gain lo hi 0 (fed, run DdsCore.clock before s) :=
    ⟨⟨hExact, Nat.zero_le _, fun k _ hk => by omega⟩, tuned_zero ..⟩
  have hRun := run_counted (fun _ _ _ h hGuided => Settling.step h hGuided) inputs hInit (along_watch hGuided fed)
  rw [run_append, ← run_watch_snd DdsCore.clock feedCore inputs (fed, _)]
  exact hRun.2.synth (by omega)

/-- A slave that is given the same word all the time. -/
theorem tuning_word_settled :
    let i : CoreIn := ⟨true, false, 0, ⟨0, 0⟩, false, true, 0, 1000, 2, -5, false, 0, false⟩
    (run DdsCore.clock (List.replicate 15365 i) .cleared).synth.tune = 990 := by
  intro i
  have hCentre : field 0 11 (0 : BitVec 32) ++ (1000 : BitVec 32) = (1000 : BitVec 43) := by decide
  have hAlong : Along DdsCore.clock (Guided 1000 2 (-5) (-5)) (List.replicate 15365 i) .cleared := by
    refine along_of_forall (fun j hj s => ?_) _
    obtain rfl := List.eq_of_mem_replicate hj
    exact ⟨⟨rfl, hCentre, rfl⟩, rfl, (by decide : (-5 : Int) ≤ (-5 : BitVec 18).toInt),
      (by decide : (-5 : BitVec 18).toInt ≤ -5)⟩
  have hBefore : Along DdsCore.clock (Guided 1000 2 (-5) (-5)) (List.replicate 15365 i) (run DdsCore.clock [] .cleared) :=
    hAlong
  obtain ⟨c, hLow, hHigh, hWord⟩ := tuning_word_between rfl (by rw [List.length_replicate]) hBefore
  obtain rfl : c = -5 := by omega
  rw [List.nil_append] at hWord
  rw [hWord]
  decide

/-! ### The range of the master -/

theorem signExtend_bits (q : BitVec 16) : field 15 1 q ++ field 15 1 q ++ q = q.signExtend 18 := by
  apply BitVec.eq_of_getLsbD_eq
  intro j hj
  rw [BitVec.getLsbD_append, BitVec.getLsbD_append, BitVec.getLsbD_signExtend, BitVec.msb_eq_getLsbD_last]
  simp only [field, BitVec.getLsbD_extractLsb']
  by_cases hLow : j < 16
  · simp [hLow, hj]
  · obtain rfl | rfl : j = 16 ∨ j = 17 := by omega
    · simp
    · simp

theorem cicInput_master (hMaster : i.crMaster = true) (s : DdsCore) : (s.cicInput i).toInt = s.pi.qO.toInt := by
  rw [DdsCore.cicInput, if_pos hMaster, signExtend_bits, BitVec.toInt_signExtend_of_le (by decide)]

/-- All words since the last reset were the controller's, and what is tuned to by now. -/
structure Mastered (bias : BitVec 43) (gain : BitVec 16) (n : Nat) (p : List (BitVec 18) × DdsCore) : Prop where
  exact : Exact p.1 p.2.cic
  words : ∀ word ∈ p.1, -32768 ≤ word.toInt ∧ word.toInt ≤ 32767
  tuned : Tuned bias gain (-32768) 32767 0 n p.2

theorem Mastered.step {p : List (BitVec 18) × DdsCore} (h : Mastered bias gain n p) (hRuns : Runs bias gain i)
    (hMaster : i.crMaster = true) : Mastered bias gain (n + 1) (watch DdsCore.clock feedCore i p) := by
  refine ⟨exact_core h.exact i, ?_, h.tuned.step hRuns fun _ => ?_⟩
  · intro word hWord
    rw [watch_fst, feedCore, feed] at hWord
    split_ifs at hWord with hRst hEn
    · exact absurd hWord List.not_mem_nil
    · rcases List.mem_append.mp hWord with hBefore | hNew
      · exact h.words word hBefore
      · rw [List.mem_singleton.mp hNew, DdsCore.cicIn, cicInput_master hMaster]
        obtain ⟨hLow, hHigh⟩ := fits_toInt p.2.pi.qO
        constructor <;> omega
    · exact h.words word hWord
  · rw [cicOutClamp_toInt h.exact]
    exact interpolated_within_of_zero (by decide) (by decide) h.words

/-- In master mode, from the first reset of the interpolator on: whatever the ADC shows, and however often the
interpolator is reset, the channel stays within the controller's range of the centre. -/
theorem tuning_word_range {inputs : List CoreIn} (hReset : s.cic = .reset) (hLong : 5 ≤ inputs.length)
    (hMaster : ∀ i ∈ inputs, Runs bias gain i ∧ i.crMaster = true) :
    Between bias gain (-32768) 32767 (run DdsCore.clock inputs s).synth.tune := by
  have hInit : Mastered bias gain 0 ([], s) :=
    ⟨hReset ▸ exact_reset, fun word hWord => absurd hWord List.not_mem_nil, tuned_zero ..⟩
  have hRun := run_counted (fun _ _ _ h hOk => Mastered.step h hOk.1 hOk.2) inputs hInit
    (along_of_forall (fun i hi _ => hMaster i hi) _)
  rw [← run_watch_snd DdsCore.clock feedCore inputs ([], s)]
  exact hRun.tuned.synth (by omega)

theorem tuning_word_range_reset :
    let i : CoreIn := ⟨true, true, 40000, ⟨3, 7⟩, true, false, 1, 1000, 2, 0, true, 0, false⟩
    Between 4294968296 2 (-32768) 32767 (run DdsCore.clock [i, i, i, i, i] .cleared).synth.tune := by
  intro i
  have hCentre : field 0 11 (1 : BitVec 32) ++ (1000 : BitVec 32) = (4294968296 : BitVec 43) := by decide
  refine tuning_word_range rfl (by decide) fun j hj => ?_
  obtain rfl : j = i := by simpa using hj
  exact ⟨⟨rfl, hCentre, rfl⟩, rfl⟩

end WrRfDemo.Core

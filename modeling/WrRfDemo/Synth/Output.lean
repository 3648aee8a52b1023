import WrRfDemo.Synth.QuadChannel

/-! # The output stage without overflow

With the table as it is, every field of the output stage shows the number that is computed for it, and the delay
lines bring entry, fraction and sign of one phase together.
-/

namespace WrRfDemo.Synth

open Clocked

namespace Stage

variable {s : Stage}

theorem toInt_interpMul (h : InRange s.lutIn) :
    s.interpMul.toInt = (slope s.lutIn).toInt * s.fracD3.toNat ∧ -2 ^ 34 ≤ s.interpMul.toInt ∧ s.interpMul.toInt ≤ 2 ^ 34 := by
  obtain ⟨-, -, hLow, hHigh⟩ := h
  have hFrac := s.fracD3.isLt
  have hLower : -65536 * (s.fracD3.toNat : Int) ≤ (slope s.lutIn).toInt * s.fracD3.toNat :=
    Int.mul_le_mul_of_nonneg_right hLow (by omega)
  have hUpper : (slope s.lutIn).toInt * s.fracD3.toNat ≤ 65536 * (s.fracD3.toNat : Int) :=
    Int.mul_le_mul_of_nonneg_right hHigh (by omega)
  have hSlope : ((slope s.lutIn).signExtend 36).toInt = (slope s.lutIn).toInt :=
    BitVec.toInt_signExtend_of_le (by decide)
  have hWide : (s.fracD3.setWidth 36).toInt = s.fracD3.toNat := by
    rw [BitVec.toInt_eq_toNat_of_lt] <;> rw [BitVec.toNat_setWidth_of_le (by decide)]
    omega
  have hMul : s.interpMul.toInt = (slope s.lutIn).toInt * s.fracD3.toNat := by
    rw [interpMul, toInt_mul_of_fits, hSlope, hWide]
    rw [hSlope, hWide]
    constructor <;> omega
  omega

theorem toInt_interp (h : InRange s.lutIn) (accI : BitVec 43) (lutDataI : BitVec 36) :
    (s.advance accI lutDataI).interp.toInt = (slope s.lutIn).toInt * s.fracD3.toNat / 2 ^ 25 ∧
      -512 ≤ (s.advance accI lutDataI).interp.toInt ∧ (s.advance accI lutDataI).interp.toInt ≤ 512 := by
  obtain ⟨hMul, hLow, hHigh⟩ := toInt_interpMul h
  have hInterp : (s.advance accI lutDataI).interp.toInt = s.interpMul.toInt / 2 ^ 25 := by
    rw [advance, toInt_sshiftRight_of_fits (by decide)]
    constructor <;> omega
  rw [hInterp, hMul]
  omega

theorem toInt_qv (hSample : 0 ≤ s.sampleD0.toInt ∧ s.sampleD0.toInt ≤ 126976)
    (hInterp : -512 ≤ s.interp.toInt ∧ s.interp.toInt ≤ 512) (accI : BitVec 43) (lutDataI : BitVec 36) :
    (s.advance accI lutDataI).qv.toInt = s.sampleD0.toInt + s.interp.toInt + s.ditherIn.toInt + 1 ∧
      -600 ≤ (s.advance accI lutDataI).qv.toInt ∧ (s.advance accI lutDataI).qv.toInt ≤ 127500 := by
  have hDither := fits_toInt s.ditherIn
  have hWide : (s.ditherIn.signExtend 18).toInt = s.ditherIn.toInt := BitVec.toInt_signExtend_of_le (by decide)
  have hOne : (1 : BitVec 18).toInt = 1 := by decide
  simp only [Fits] at hDither
  have hFirst : (s.sampleD0 + s.interp).toInt = s.sampleD0.toInt + s.interp.toInt :=
    toInt_add_of_fits (by constructor <;> omega)
  have hSecond : (s.sampleD0 + s.interp + s.ditherIn.signExtend 18).toInt =
      s.sampleD0.toInt + s.interp.toInt + s.ditherIn.toInt := by
    rw [toInt_add_of_fits, hFirst, hWide]
    rw [hFirst, hWide]
    constructor <;> omega
  have hQv : (s.advance accI lutDataI).qv.toInt = s.sampleD0.toInt + s.interp.toInt + s.ditherIn.toInt + 1 := by
    rw [advance, toInt_add_of_fits, hSecond, hOne]
    rw [hSecond, hOne]
    constructor <;> omega
  omega

def signAt (b : Bool) : Int := if b then 1 else -1

theorem toInt_yt (hQv : -600 ≤ s.qv.toInt ∧ s.qv.toInt ≤ 127500) (accI : BitVec 43) (lutDataI : BitVec 36) :
    (s.advance accI lutDataI).yt.toInt = signAt (s.sign.getLsbD 5) * s.qv.toInt / 8 ∧
      -16000 ≤ (s.advance accI lutDataI).yt.toInt ∧ (s.advance accI lutDataI).yt.toInt ≤ 16000 := by
  have hNeg : (-s.qv).toInt = -s.qv.toInt := toInt_neg_of_fits (by constructor <;> omega)
  have hYt : (s.advance accI lutDataI).yt.toInt = signAt (s.sign.getLsbD 5) * s.qv.toInt / 8 := by
    rw [advance, ytNext, signAt]
    split_ifs
    · rw [toInt_sshiftRight_of_fits (by decide), Int.one_mul]
      · rfl
      · constructor <;> omega
    · rw [toInt_sshiftRight_of_fits (by decide), hNeg, Int.neg_one_mul]
      · rfl
      · rw [hNeg]
        constructor <;> omega
  refine ⟨hYt, ?_⟩
  rw [hYt, signAt]
  split_ifs <;> omega

theorem toNat_yO (hYt : -16000 ≤ s.yt.toInt ∧ s.yt.toInt ≤ 16000) (accI : BitVec 43) (lutDataI : BitVec 36) :
    ((s.advance accI lutDataI).yO.toNat : Int) = 8192 + (s.yt.toInt + 1) / 2 := by
  have hField : (field 1 14 s.yt).toNat = s.yt.toNat / 2 := by
    have hLt := s.yt.isLt
    simp only [field, BitVec.extractLsb'_toNat, Nat.shiftRight_eq_div_pow]
    omega
  have hOdd : s.yt.getLsbD 0 = true ↔ s.yt.toNat % 2 = 1 := by
    rw [BitVec.getLsbD, Nat.testBit_zero, decide_eq_true_iff]
  have hSigned := BitVec.toInt_eq_toNat_cond s.yt
  have hLt := s.yt.isLt
  have hMiddle : (8192 : BitVec 14).toNat = 8192 := rfl
  have hOne : (1 : BitVec 14).toNat = 1 := rfl
  simp only [advance, yNext, hOdd]
  split_ifs with hBit
  · rw [BitVec.toNat_add, BitVec.toNat_add, hField, hMiddle, hOne]
    split_ifs at hSigned <;> omega
  · rw [BitVec.toNat_add, hField, hMiddle]
    split_ifs at hSigned <;> omega

/-! ### The delay line of the signs -/

theorem sign_first (accI : BitVec 43) (lutDataI : BitVec 36) (s : Stage) :
    (s.advance accI lutDataI).sign.getLsbD 0 = (half accI).getLsbD 0 := by
  have hFirst : ∀ (old : BitVec 8) (new : BitVec 1), (old ++ new).getLsbD 0 = new.getLsbD 0 := by
    intro old new
    rw [BitVec.getLsbD_append]
    rfl
  exact hFirst _ _

theorem sign_next (accI : BitVec 43) (lutDataI : BitVec 36) (s : Stage) {j : Nat} (hj : j < 8) :
    (s.advance accI lutDataI).sign.getLsbD (j + 1) = s.sign.getLsbD j := by
  have hNext : ∀ (old : BitVec 8) (new : BitVec 1), (old ++ new).getLsbD (j + 1) = old.getLsbD j := by
    intro old new
    rw [BitVec.getLsbD_append, if_neg (by omega), Nat.add_sub_cancel]
  apply (hNext _ _).trans
  simp [field, hj]

end Stage

/-! ### From the phase to the output -/

/-- The interpolated and dithered value of a phase, in unbounded numbers. -/
def exactQ (acc : BitVec 43) (dither : Int) : Int :=
  (sample (lut (address acc))).toInt + (slope (lut (address acc))).toInt * (frac acc).toNat / 2 ^ 25 + dither + 1

def phaseSign (acc : BitVec 43) : Int := if half acc = 1 then 1 else -1

/-- What the four registers at the end of a stage show of a phase, each in its clock. -/
structure ShowsPhase (acc : BitVec 43) (s5 s6 s7 s8 : Stage) : Prop where
  interp : s5.interp.toInt = (slope (lut (address acc))).toInt * (frac acc).toNat / 2 ^ 25
  qv : s6.qv.toInt = exactQ acc s5.ditherIn.toInt
  yt : s7.yt.toInt = phaseSign acc * exactQ acc s5.ditherIn.toInt / 8
  yO : (s8.yO.toNat : Int) = 8192 + (phaseSign acc * exactQ acc s5.ditherIn.toInt / 8 + 1) / 2

theorem signAt_half (acc : BitVec 43) : Stage.signAt ((half acc).getLsbD 0) = phaseSign acc := by
  rw [phaseSign, Stage.signAt]
  generalize half acc = h
  revert h
  decide

/-- The last four clocks, for a stage that holds the entry, the fraction and the sign of a phase. -/
theorem showsPhase_of_advances {acc : BitVec 43} {s4 s5 s6 s7 s8 : Stage} {phase : Nat → BitVec 43}
    {entry : Nat → BitVec 36} (h5 : s5 = s4.advance (phase 4) (entry 4)) (h6 : s6 = s5.advance (phase 5) (entry 5))
    (h7 : s7 = s6.advance (phase 6) (entry 6)) (h8 : s8 = s7.advance (phase 7) (entry 7))
    (hEntry : s4.lutIn = lut (address acc)) (hFrac : s4.fracD3 = frac acc)
    (hSign : s4.sign.getLsbD 3 = (half acc).getLsbD 0) : ShowsPhase acc s5 s6 s7 s8 := by
  have hRange : InRange s4.lutIn := hEntry ▸ lut_inRange _
  have hInterp := h5 ▸ Stage.toInt_interp hRange (phase 4) (entry 4)
  have hSample : s5.sampleD0 = sample (lut (address acc)) := by rw [h5, Stage.advance, hEntry]
  have hBound : 0 ≤ s5.sampleD0.toInt ∧ s5.sampleD0.toInt ≤ 126976 := by
    have hLut := lut_inRange (address acc)
    rw [hSample]
    exact ⟨hLut.1, hLut.2.1⟩
  have hQv := h6 ▸ Stage.toInt_qv hBound hInterp.2 (phase 5) (entry 5)
  have hYt := h7 ▸ Stage.toInt_yt hQv.2 (phase 6) (entry 6)
  have hY := h8 ▸ Stage.toNat_yO hYt.2 (phase 7) (entry 7)
  have hSign6 : s6.sign.getLsbD 5 = (half acc).getLsbD 0 := by
    rw [h6, Stage.sign_next _ _ _ (by decide), h5, Stage.sign_next _ _ _ (by decide), hSign]
  have hExact : s6.qv.toInt = exactQ acc s5.ditherIn.toInt := by
    rw [hQv.1, hSample, hInterp.1, hEntry, hFrac, exactQ]
  have hYtExact : s7.yt.toInt = phaseSign acc * exactQ acc s5.ditherIn.toInt / 8 := by
    rw [hYt.1, hSign6, signAt_half, hExact]
  refine ⟨?_, hExact, hYtExact, ?_⟩
  · rw [hInterp.1, hEntry, hFrac]
  · rw [hY, hYtExact]

namespace QuadChannel

variable {i : QuadIn} {inputs : List QuadIn}

theorem stage_clock (hRun : i.rstN = true ∧ i.dreq = true) (s : QuadChannel) (k : Fin 4) :
    (s.clock i).stages.get k = (s.stages.get k).advance (s.accF.get k) (s.lutData.get k) := by
  simp [clock, Stage.clock, hRun.1, hRun.2]

theorem lutData_clock (i : QuadIn) (s : QuadChannel) (k : Fin 4) :
    (s.clock i).lutData.get k = lut (s.stages.get k).lutAddrO := by
  simp [clock]

/-- In every run with `dreq_i`, each phase leaves its stage eight clocks later, and no field has lost a bit. -/
theorem output_exact (hRun : ∀ j ∈ inputs, j.rstN = true ∧ j.dreq = true) (s : QuadChannel) (k : Fin 4) {n : Nat}
    (hn : n + 8 ≤ inputs.length) :
    let stage (m : Nat) : Stage := (stateAt clock inputs s (n + m)).stages.get k
    ShowsPhase ((stateAt clock inputs s n).accF.get k) (stage 5) (stage 6) (stage 7) (stage 8) := by
  intro stage
  let phase (m : Nat) : BitVec 43 := (stateAt clock inputs s (n + m)).accF.get k
  let entry (m : Nat) : BitVec 36 := (stateAt clock inputs s (n + m)).lutData.get k
  have hClock : ∀ m < 8, stage (m + 1) = (stage m).advance (phase m) (entry m) ∧ entry (m + 1) = lut (stage m).lutAddrO := by
    intro m hm
    obtain ⟨i, hi, hState⟩ : ∃ i ∈ inputs, stateAt clock inputs s (n + (m + 1)) = (stateAt clock inputs s (n + m)).clock i :=
      exists_stateAt_succ (show n + m < inputs.length by omega)
    constructor
    · exact (congrArg (fun s : QuadChannel => s.stages.get k) hState).trans (stage_clock (hRun i hi) _ k)
    · exact (congrArg (fun s : QuadChannel => s.lutData.get k) hState).trans (lutData_clock _ _ k)
  have h1 := (hClock 0 (by decide)).1
  have h2 := (hClock 1 (by decide)).1
  have h3 := (hClock 2 (by decide)).1
  have h4 := (hClock 3 (by decide)).1
  have hAddress : (stage 2).lutAddrO = address (phase 0) := by rw [h2, Stage.advance, h1, Stage.advance]
  have hEntry : (stage 4).lutIn = lut (address (phase 0)) := by
    rw [h4, Stage.advance, (hClock 2 (by decide)).2, hAddress]
  have hFrac : (stage 4).fracD3 = frac (phase 0) := by
    rw [h4, Stage.advance, h3, Stage.advance, h2, Stage.advance, h1, Stage.advance]
  have hSign : (stage 4).sign.getLsbD 3 = (half (phase 0)).getLsbD 0 := by
    rw [h4, Stage.sign_next _ _ _ (by decide), h3, Stage.sign_next _ _ _ (by decide), h2,
      Stage.sign_next _ _ _ (by decide), h1, Stage.sign_first]
  exact showsPhase_of_advances (hClock 4 (by decide)).1 (hClock 5 (by decide)).1 (hClock 6 (by decide)).1
    (hClock 7 (by decide)).1 hEntry hFrac hSign

/-- The top of the sine, in the lower half of the output's range. -/
theorem output_exact_top :
    let stage : Stage := ⟨0xffffffff, 0, 0, 0, 0, 0, 0, 0, 0, 0, 0, 0, 0, 0⟩
    let s : QuadChannel := ⟨0, 0, 0, ⟨0, .twoPow 43 41, 0, 0⟩, 0, ⟨stage, stage, stage, stage⟩, ⟨0, 0, 0, 0⟩⟩
    let state := stateAt clock (List.replicate 8 ⟨true, false, false, true, 0, 0⟩) s
    (state 0).accF.get 1 = .twoPow 43 41 ∧ ShowsPhase ((state 0).accF.get 1) ((state (0 + 5)).stages.get 1)
      ((state (0 + 6)).stages.get 1) ((state (0 + 7)).stages.get 1) ((state (0 + 8)).stages.get 1) := by
  intro stage s state
  have hRun : ∀ j ∈ List.replicate 8 (⟨true, false, false, true, 0, 0⟩ : QuadIn), j.rstN = true ∧ j.dreq = true := by decide
  exact ⟨rfl, output_exact hRun s 1 (by decide)⟩

end QuadChannel

end WrRfDemo.Synth

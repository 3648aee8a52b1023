import WrRfDemo.Clocked.Run
import WrRfDemo.Clocked.Signed

/-! # The PI controller

A sample is integrated in the cycle in which it arrives, unless the last result was clipped and the
sample would drive it further out. Four more stages shift the integrator, multiply, add and clip.
-/

namespace WrRfDemo.Control

open Clocked

structure PiIn where
  rstN : Bool
  dValid : Bool
  d : BitVec 16
deriving DecidableEq

/-- `ki_i` and `kp_i`. -/
structure Gains where
  ki : BitVec 16
  kp : BitVec 16
deriving DecidableEq

structure PiControl where
  acc : BitVec 40
  d0 : BitVec 16
  d1 : BitVec 16
  stage0 : Bool
  stage1 : Bool
  stage2 : Bool
  stage3 : Bool
  acc0 : BitVec 34
  termP : BitVec 24
  termI : BitVec 24
  sum : BitVec 24
  clipPlus : Bool
  clipMinus : Bool
  qValidO : Bool
  qO : BitVec 16
deriving DecidableEq

/-- `g_goal`. -/
def goal : BitVec 32 := 32768

/-- `g_acc_shift`. -/
def accShift : Nat := 6

def PiIn.ds (i : PiIn) : BitVec 18 := (i.d.setWidth 32 - goal).setWidth 18

namespace PiControl

def integrate (ds : BitVec 18) (s : PiControl) : BitVec 40 :=
  if s.clipPlus && ds.slt 0 then s.acc + ds.signExtend 40
  else if s.clipMinus && (0 : BitVec 18).slt ds then s.acc + ds.signExtend 40
  else if !s.clipPlus && !s.clipMinus then s.acc + ds.signExtend 40
  else s.acc

def mulI (g : Gains) (s : PiControl) : BitVec 54 := s.acc0.signExtend 54 * g.ki.signExtend 54

def mulP (g : Gains) (s : PiControl) : BitVec 54 := s.d1.signExtend 54 * g.kp.signExtend 54

/-- The last stage, for a sum that has arrived. -/
def clip (s : PiControl) : PiControl :=
  if s.sum.toInt < -32767 then { s with clipMinus := true, clipPlus := false, qO := -32767 }
  else if s.sum.toInt > 32767 then { s with clipMinus := false, clipPlus := true, qO := 32767 }
  else { s with clipMinus := false, clipPlus := false, qO := s.sum.setWidth 16 }

/-- One rising edge, in the order of the processes. -/
def clock (g : Gains) (i : PiIn) (s : PiControl) : PiControl :=
  if i.rstN then
    let q := if s.stage3 then s.clip else s
    { stage0 := i.dValid
      acc := if i.dValid then s.integrate i.ds else s.acc
      d0 := if i.dValid then i.ds.setWidth 16 else s.d0
      acc0 := (s.acc >>> accShift).setWidth 34
      d1 := s.d0
      stage1 := s.stage0
      stage2 := s.stage1
      termI := (s.mulI g >>> 16).setWidth 24
      termP := (s.mulP g >>> 16).setWidth 24
      sum := s.termP + s.termI
      stage3 := s.stage2
      clipPlus := q.clipPlus
      clipMinus := q.clipMinus
      qO := q.qO
      qValidO := s.stage3 }
  else { s with
    stage0 := false, acc := 0, stage1 := false, stage2 := false, stage3 := false, qValidO := false, clipPlus := false,
    clipMinus := false }

end PiControl

/-! ### What the fields show -/

def PiIn.err (i : PiIn) : Int := i.d.toNat - 32768

theorem PiIn.err_range (i : PiIn) : -32768 ≤ i.err ∧ i.err ≤ 32767 := by
  have hLt := i.d.isLt
  simp only [PiIn.err]
  omega

theorem PiIn.toInt_ds (i : PiIn) : i.ds.toInt = i.err := by
  have hLt := i.d.isLt
  have hD : (i.d.setWidth 32).toInt = i.d.toNat := by
    rw [BitVec.toInt_eq_toNat_of_lt] <;> rw [BitVec.toNat_setWidth_of_le (by decide)]
    omega
  have hGoal : goal.toInt = 32768 := by decide
  have hErr : (i.d.setWidth 32 - goal).toInt = i.err := by
    rw [toInt_sub_of_fits, hD, hGoal, PiIn.err]
    rw [hD, hGoal]
    constructor <;> omega
  have hRange := i.err_range
  rw [PiIn.ds, toInt_setWidth_of_fits (by decide), hErr]
  rw [hErr]
  constructor <;> omega

namespace PiControl

variable {g : Gains} {s : PiControl} {i : PiIn}

theorem toInt_mulI (g : Gains) (s : PiControl) : (s.mulI g).toInt = s.acc0.toInt * g.ki.toInt := by
  have hFits := ((fits_toInt s.acc0).mul (fits_toInt g.ki)).mono (show 34 + 16 ≤ 54 by decide)
  have hAcc0 := BitVec.toInt_signExtend_of_le (x := s.acc0) (show 34 ≤ 54 by decide)
  have hKi := BitVec.toInt_signExtend_of_le (x := g.ki) (show 16 ≤ 54 by decide)
  rw [mulI, toInt_mul_of_fits, hAcc0, hKi]
  rw [hAcc0, hKi]
  exact hFits

theorem toInt_mulP (g : Gains) (s : PiControl) : (s.mulP g).toInt = s.d1.toInt * g.kp.toInt := by
  have hFits := ((fits_toInt s.d1).mul (fits_toInt g.kp)).mono (show 16 + 16 ≤ 54 by decide)
  have hD1 := BitVec.toInt_signExtend_of_le (x := s.d1) (show 16 ≤ 54 by decide)
  have hKp := BitVec.toInt_signExtend_of_le (x := g.kp) (show 16 ≤ 54 by decide)
  rw [mulP, toInt_mul_of_fits, hD1, hKp]
  rw [hD1, hKp]
  exact hFits

/-- The sample is integrated: nothing is clipped, or the sample leads back. -/
def Accepts (i : PiIn) (s : PiControl) : Prop :=
  s.clipPlus = true ∧ i.err < 0 ∨ s.clipMinus = true ∧ 0 < i.err ∨ s.clipPlus = false ∧ s.clipMinus = false

instance (i : PiIn) (s : PiControl) : Decidable (s.Accepts i) := inferInstanceAs (Decidable (_ ∨ _))

def taken (i : PiIn) (s : PiControl) : Int := if i.dValid ∧ s.Accepts i then i.err else 0

theorem integrate_eq (s : PiControl) : s.integrate i.ds = if s.Accepts i then s.acc + i.ds.signExtend 40 else s.acc := by
  have hNeg : i.ds.slt 0 = true ↔ i.err < 0 := by rw [BitVec.slt_iff_toInt_lt, i.toInt_ds]; rfl
  have hPos : (0 : BitVec 18).slt i.ds = true ↔ 0 < i.err := by rw [BitVec.slt_iff_toInt_lt, i.toInt_ds]; rfl
  simp only [integrate, Bool.and_eq_true, hNeg, hPos, Bool.not_eq_true']
  rcases em (s.Accepts i) with hTaken | hLeft
  · rw [if_pos hTaken]
    split_ifs with hPlus hMinus hFree
    · rfl
    · rfl
    · rfl
    · rcases hTaken with h | h | h <;> contradiction
  · rw [if_neg hLeft, if_neg fun h => hLeft (.inl h), if_neg fun h => hLeft (.inr (.inl h)),
      if_neg fun h => hLeft (.inr (.inr h))]

theorem toInt_acc_clock (hRst : i.rstN = true) (hFits : Fits 40 (s.acc.toInt + i.err)) :
    (s.clock g i).acc.toInt = s.acc.toInt + s.taken i := by
  have hDs : (i.ds.signExtend 40).toInt = i.err := by rw [BitVec.toInt_signExtend_of_le (by decide), i.toInt_ds]
  have hSum : (s.acc + i.ds.signExtend 40).toInt = s.acc.toInt + i.err := by
    rw [toInt_add_of_fits, hDs]
    rw [hDs]
    exact hFits
  simp only [clock, hRst, if_true, taken, integrate_eq]
  cases hValid : i.dValid with
  | false => simp
  | true =>
    rcases em (s.Accepts i) with hTaken | hLeft
    · simp [hTaken, hSum]
    · simp [hLeft]

theorem toInt_acc0_clock (hRst : i.rstN = true) : (s.clock g i).acc0.toInt = s.acc.toInt / 64 := by
  have hAcc := fits_toInt s.acc
  simp only [clock, hRst, if_true, accShift]
  rw [toInt_shift_of_fits (by decide)]
  · rfl
  · simp only [Fits] at hAcc ⊢
    omega

theorem toInt_termI_clock (hRst : i.rstN = true) (hFits : Fits 24 (s.acc0.toInt * g.ki.toInt / 65536)) :
    (s.clock g i).termI.toInt = s.acc0.toInt * g.ki.toInt / 65536 := by
  simp only [clock, hRst, if_true]
  rw [toInt_shift_of_fits (by decide), toInt_mulI]
  · rfl
  · rw [toInt_mulI]
    exact hFits

theorem fits_termP (g : Gains) (d : BitVec 16) : Fits 16 (d.toInt * g.kp.toInt / 65536) := by
  have hProduct := (fits_toInt d).mul (fits_toInt g.kp)
  simp only [Fits] at hProduct ⊢
  omega

theorem toInt_termP_clock (hRst : i.rstN = true) : (s.clock g i).termP.toInt = s.d1.toInt * g.kp.toInt / 65536 := by
  simp only [clock, hRst, if_true]
  rw [toInt_shift_of_fits (by decide), toInt_mulP]
  · rfl
  · rw [toInt_mulP]
    exact (fits_termP g s.d1).mono (by decide)

theorem toInt_sum_clock (hRst : i.rstN = true) (hFits : Fits 24 (s.termP.toInt + s.termI.toInt)) :
    (s.clock g i).sum.toInt = s.termP.toInt + s.termI.toInt := by
  simp only [clock, hRst, if_true]
  exact toInt_add_of_fits hFits

theorem toInt_d0_clock (hRst : i.rstN = true) (hValid : i.dValid = true) : (s.clock g i).d0.toInt = i.err := by
  have hRange := i.err_range
  simp only [clock, hRst, hValid, if_true]
  rw [toInt_setWidth_of_fits (by decide), i.toInt_ds]
  rw [i.toInt_ds]
  constructor <;> omega

theorem clipPlus_clip (s : PiControl) : s.clip.clipPlus = true ↔ 32767 < s.sum.toInt := by
  rw [clip]
  split_ifs with hUnder hOver
  · simp only [false_iff]
    omega
  · simp only [true_iff]
    omega
  · simp only [false_iff]
    omega

theorem clipMinus_clip (s : PiControl) : s.clip.clipMinus = true ↔ s.sum.toInt < -32767 := by
  rw [clip]
  split_ifs with hUnder hOver
  · simp only [true_iff]
    omega
  · simp only [false_iff]
    omega
  · simp only [false_iff]
    omega

theorem toInt_qO_clip (s : PiControl) : s.clip.qO.toInt = max (-32767) (min s.sum.toInt 32767) := by
  rw [clip]
  split_ifs with hUnder hOver
  · rw [show (-32767 : BitVec 16).toInt = -32767 by decide]
    omega
  · rw [show (32767 : BitVec 16).toInt = 32767 by decide]
    omega
  · rw [toInt_setWidth_of_fits (by decide)]
    · omega
    · constructor <;> omega

/-- For so many cycles no sample has come in. -/
structure Idle (age : Nat) (s : PiControl) : Prop where
  stage0 : 0 < age → s.stage0 = false
  stage1 : 1 < age → s.stage1 = false
  stage2 : 2 < age → s.stage2 = false
  stage3 : 3 < age → s.stage3 = false

theorem idle_zero (s : PiControl) : s.Idle 0 :=
  ⟨fun h => by omega, fun h => by omega, fun h => by omega, fun h => by omega⟩

theorem Idle.ever (h : s.Idle 4) (age : Nat) : s.Idle age :=
  ⟨fun _ => h.stage0 (by decide), fun _ => h.stage1 (by decide), fun _ => h.stage2 (by decide), fun _ => h.stage3 (by decide)⟩

theorem Idle.clock {age : Nat} (h : s.Idle age) (hRst : i.rstN = true) (hNone : i.dValid = false) : (s.clock g i).Idle (age + 1) := by
  constructor <;> intro hAge <;> simp only [PiControl.clock, hRst, if_true]
  · exact hNone
  · exact h.stage0 (by omega)
  · exact h.stage1 (by omega)
  · exact h.stage2 (by omega)

theorem qO_clock (hRst : i.rstN = true) (hNone : s.stage3 = false) : (s.clock g i).qO = s.qO := by
  simp [clock, hRst, hNone]

end PiControl

end WrRfDemo.Control

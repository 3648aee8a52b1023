import WrRfDemo.Clocked.Beside
import WrRfDemo.Synth.Output
import WrRfDemo.Synth.Phases

/-! # Two channels at one phase

What a channel puts out is determined by its accumulator and its tuning word, but for the dither: two channels whose
accumulators agree and that are tuned alike come to put out the same samples, within one step of the converter.
-/

namespace WrRfDemo.Synth

open Clocked

def Near (d x y : Int) : Prop := x ≤ y + d ∧ y ≤ x + d

namespace Stage

/-- The numbers that `m` clocks have brought into a stage are of the size that the table gives them. -/
structure Sized (m : Nat) (s : Stage) (entry : BitVec 36) : Prop where
  entry : 1 ≤ m → InRange entry
  lutIn : 2 ≤ m → InRange s.lutIn
  sampleD0 : 3 ≤ m → 0 ≤ s.sampleD0.toInt ∧ s.sampleD0.toInt ≤ 126976
  interp : 3 ≤ m → -512 ≤ s.interp.toInt ∧ s.interp.toInt ≤ 512
  qv : 4 ≤ m → -600 ≤ s.qv.toInt ∧ s.qv.toInt ≤ 127500
  yt : 5 ≤ m → -16000 ≤ s.yt.toInt ∧ s.yt.toInt ≤ 16000

/-- Two stages that were given the same phases for `m` clocks, each with the entry that comes to it next. -/
structure Echo (m : Nat) (a b : Stage) (entryA entryB : BitVec 36) : Prop where
  addr0 : 1 ≤ m → a.addr0 = b.addr0
  fracD0 : 1 ≤ m → a.fracD0 = b.fracD0
  fracD1 : 2 ≤ m → a.fracD1 = b.fracD1
  fracD2 : 3 ≤ m → a.fracD2 = b.fracD2
  fracD3 : 4 ≤ m → a.fracD3 = b.fracD3
  sign : ∀ j < 6, j < m → a.sign.getLsbD j = b.sign.getLsbD j
  lutAddrO : 2 ≤ m → a.lutAddrO = b.lutAddrO
  entry : 3 ≤ m → entryA = entryB
  lutIn : 4 ≤ m → a.lutIn = b.lutIn
  sampleD0 : 5 ≤ m → a.sampleD0 = b.sampleD0
  interp : 5 ≤ m → a.interp = b.interp
  qv : 6 ≤ m → Near 14 a.qv.toInt b.qv.toInt
  yt : 7 ≤ m → Near 2 a.yt.toInt b.yt.toInt
  yO : 8 ≤ m → Near 1 a.yO.toNat b.yO.toNat

variable {m : Nat} {s a b : Stage} {entry entryA entryB : BitVec 36}

theorem sized_zero (s : Stage) (entry : BitVec 36) : s.Sized 0 entry := by
  constructor <;> intro hPast <;> omega

theorem Sized.advance (h : s.Sized m entry) (accI : BitVec 43) : (s.advance accI entry).Sized (m + 1) (lut s.lutAddrO) := by
  constructor
  · exact fun _ => lut_inRange _
  · exact fun hm => h.entry (by omega)
  · intro hm
    obtain ⟨hLow, hHigh, -⟩ := h.lutIn (by omega)
    exact ⟨hLow, hHigh⟩
  · exact fun hm => (toInt_interp (h.lutIn (by omega)) accI entry).2
  · exact fun hm => (toInt_qv (h.sampleD0 (by omega)) (h.interp (by omega)) accI entry).2
  · exact fun hm => (toInt_yt (h.qv (by omega)) accI entry).2

theorem echo_zero (a b : Stage) (entryA entryB : BitVec 36) : Echo 0 a b entryA entryB := by
  constructor
  case sign =>
    intro j _ hPast
    omega
  all_goals
    intro hPast
    omega

/-- The dither goes from -8 to 6. -/
theorem ditherIn_near (a b : Stage) : Near 14 a.ditherIn.toInt b.ditherIn.toInt := by
  have hSmall : ∀ w : BitVec 3, -8 ≤ (w ++ 0#1).toInt ∧ (w ++ 0#1).toInt ≤ 6 := by decide
  obtain ⟨hLowA, hHighA⟩ := hSmall (field 5 3 a.lfsr)
  obtain ⟨hLowB, hHighB⟩ := hSmall (field 5 3 b.lfsr)
  simp only [Near, ditherIn]
  constructor <;> omega

theorem Echo.advance (h : Echo m a b entryA entryB) (hA : a.Sized (m + 2) entryA) (hB : b.Sized (m + 2) entryB)
    (accI : BitVec 43) :
    Echo (m + 1) (a.advance accI entryA) (b.advance accI entryB) (lut a.lutAddrO) (lut b.lutAddrO) := by
  constructor
  · exact fun _ => rfl
  · exact fun _ => rfl
  · exact fun hm => h.fracD0 (by omega)
  · exact fun hm => h.fracD1 (by omega)
  · exact fun hm => h.fracD2 (by omega)
  · intro j hj hm
    cases j with
    | zero => rw [sign_first, sign_first]
    | succ j =>
      rw [sign_next _ _ _ (by omega), sign_next _ _ _ (by omega)]
      exact h.sign j (by omega) (by omega)
  · exact fun hm => h.addr0 (by omega)
  · exact fun hm => congrArg lut (h.lutAddrO (by omega))
  · exact fun hm => h.entry (by omega)
  · exact fun hm => congrArg sample (h.lutIn (by omega))
  · intro hm
    simp only [Stage.advance, interpMul, h.lutIn (by omega), h.fracD3 (by omega)]
  · intro hm
    have hDither := ditherIn_near a b
    rw [(toInt_qv (hA.sampleD0 (by omega)) (hA.interp (by omega)) accI entryA).1,
      (toInt_qv (hB.sampleD0 (by omega)) (hB.interp (by omega)) accI entryB).1, h.sampleD0 (by omega), h.interp (by omega)]
    simp only [Near] at hDither ⊢
    omega
  · intro hm
    obtain ⟨hLow, hHigh⟩ := h.qv (by omega)
    rw [(toInt_yt (hA.qv (by omega)) accI entryA).1, (toInt_yt (hB.qv (by omega)) accI entryB).1,
      h.sign 5 (by decide) (by omega), signAt, Near]
    split_ifs <;> omega
  · intro hm
    obtain ⟨hLow, hHigh⟩ := h.yt (by omega)
    rw [toNat_yO (hA.yt (by omega)), toNat_yO (hB.yt (by omega)), Near]
    omega

end Stage

namespace QuadChannel

/-- Both channels advance, at one tuning word. -/
structure SameTune (i : QuadIn × QuadIn) (s : QuadChannel × QuadChannel) : Prop where
  first : i.1.advances = true
  second : i.2.advances = true
  tune : s.1.tune = s.2.tune

/-- Two channels at one phase, `m` clocks on. -/
structure Together (m : Nat) (s : QuadChannel × QuadChannel) : Prop where
  acc : s.1.acc = s.2.acc
  accD0 : 1 ≤ m → s.1.accD0 = s.2.accD0
  accF : 2 ≤ m → s.1.accF = s.2.accF
  first : ∀ k, (s.1.stages.get k).Sized m (s.1.lutData.get k)
  second : ∀ k, (s.2.stages.get k).Sized m (s.2.lutData.get k)
  echo : ∀ k, Stage.Echo (m - 2) (s.1.stages.get k) (s.2.stages.get k) (s.1.lutData.get k) (s.2.lutData.get k)

variable {m : Nat} {i : QuadIn × QuadIn} {s : QuadChannel × QuadChannel}

theorem together_zero (hAcc : s.1.acc = s.2.acc) : Together 0 s :=
  ⟨hAcc, fun hPast => absurd hPast (by decide), fun hPast => absurd hPast (by decide), fun _ => Stage.sized_zero _ _,
    fun _ => Stage.sized_zero _ _, fun _ => Stage.echo_zero _ _ _ _⟩

theorem Together.step (h : Together m s) (hSame : SameTune i s) : Together (m + 1) (beside clock clock i s) := by
  have hFirst := stage_clock ⟨(rstN_of_advances hSame.first).1, (rstN_of_advances hSame.first).2.2⟩ s.1
  have hSecond := stage_clock ⟨(rstN_of_advances hSame.second).1, (rstN_of_advances hSame.second).2.2⟩ s.2
  constructor
  · rw [beside, acc_clock hSame.first, acc_clock hSame.second, h.acc, hSame.tune]
  · intro _
    rw [beside, accD0_clock hSame.first, accD0_clock hSame.second, h.acc]
  · intro hm
    rw [beside, accF_clock hSame.first, accF_clock hSame.second, h.accD0 (by omega), hSame.tune]
  · intro k
    rw [beside, hFirst, lutData_clock]
    exact (h.first k).advance _
  · intro k
    rw [beside, hSecond, lutData_clock]
    exact (h.second k).advance _
  · intro k
    rcases Nat.lt_or_ge m 2 with hEarly | hLate
    · rw [show m + 1 - 2 = 0 by omega]
      exact Stage.echo_zero _ _ _ _
    · have hA := h.first k
      have hB := h.second k
      have hEcho := h.echo k
      rw [beside, hFirst, hSecond, lutData_clock, lutData_clock, h.accF hLate]
      obtain ⟨n, rfl⟩ := Nat.exists_eq_add_of_le' hLate
      exact hEcho.advance hA hB _

theorem Together.near (h : Together m s) (hm : 10 ≤ m) (k : Fin 4) : Near 1 (s.1.y.get k).toNat (s.2.y.get k).toNat := by
  simp only [y, Quad.get_ofFn]
  exact (h.echo k).yO (by omega)

/-- Two channels that are tuned alike keep their distance. -/
theorem SameTune.distance (h : SameTune i s) :
    (beside clock clock i s).1.acc - (beside clock clock i s).2.acc = s.1.acc - s.2.acc := by
  rw [beside, acc_clock h.first, acc_clock h.second, h.tune]
  bv_omega

/-- Two channels `m` clocks after their accumulators were at this distance. -/
structure Apart (distance : BitVec 43) (m : Nat) (s : QuadChannel × QuadChannel) : Prop where
  kept : s.1.acc - s.2.acc = distance
  together : distance = 0 → Together m s

theorem apart_zero (s : QuadChannel × QuadChannel) : Apart (s.1.acc - s.2.acc) 0 s :=
  ⟨rfl, fun hZero => together_zero (by bv_omega)⟩

theorem Apart.step {distance : BitVec 43} (h : Apart distance m s) (hSame : SameTune i s) :
    Apart distance (m + 1) (beside clock clock i s) :=
  ⟨hSame.distance.trans h.kept, fun hZero => (h.together hZero).step hSame⟩

theorem Apart.near {distance : BitVec 43} (h : Apart distance m s) (hZero : distance = 0) (hm : 10 ≤ m) (k : Fin 4) :
    Near 1 (s.1.y.get k).toNat (s.2.y.get k).toNat :=
  (h.together hZero).near hm k

end QuadChannel

end WrRfDemo.Synth

import WrRfDemo.Timing.Compare

/-! # White Rabbit time as ticks

The WR time counts cycles of the reference clock, with the seconds rolling over at the clock
rate. A timestamp whose cycles read as a non-negative number stands for a tick, and the
adder computes the tick of the sum.
-/

namespace WrRfDemo.Timing

open Clocked

/-- `g_ref_clk_rate`. -/
def refClkRate : Nat := 125000000

variable {taiBits fracBits : Nat}

def tickStamp (taiBits : Nat) (tick : Nat) : Stamp taiBits 28 :=
  ⟨BitVec.ofNat taiBits (tick / refClkRate), BitVec.ofNat 28 (tick % refClkRate)⟩

theorem toNat_cycles_tickStamp (tick : Nat) :
    (tickStamp taiBits tick).cycles.toNat = tick % refClkRate := by
  have hSmall : tick % refClkRate < 2 ^ 28 :=
    Nat.lt_trans (Nat.mod_lt _ (by decide)) (by decide)
  simp only [tickStamp, BitVec.toNat_ofNat]
  exact Nat.mod_eq_of_lt hSmall

theorem toNat_tai_tickStamp {tick : Nat} (h : tick / refClkRate < 2 ^ taiBits) :
    (tickStamp taiBits tick).tai.toNat = tick / refClkRate := by
  simp only [tickStamp, BitVec.toNat_ofNat]
  exact Nat.mod_eq_of_lt h

/-- The comparator ranks ticks as they follow each other, while the seconds do not wrap. -/
theorem earlier_tickStamp {before after : Nat} (h : before < after)
    (hWrap : after / refClkRate < 2 ^ taiBits) :
    (tickStamp taiBits before).Earlier (tickStamp taiBits after) := by
  have hTai : before / refClkRate ≤ after / refClkRate := Nat.div_le_div_right (Nat.le_of_lt h)
  have hBefore := toNat_tai_tickStamp (Nat.lt_of_le_of_lt hTai hWrap)
  have hAfter := toNat_tai_tickStamp hWrap
  rcases Nat.lt_or_eq_of_le hTai with hLess | hSame
  · left
    rw [BitVec.lt_def, hBefore, hAfter]
    exact hLess
  · right
    constructor
    · apply BitVec.eq_of_toNat_eq
      rw [hBefore, hAfter, hSame]
    · rw [BitVec.lt_def, toNat_cycles_tickStamp, toNat_cycles_tickStamp]
      have hLeft := Nat.div_add_mod before refClkRate
      have hRight := Nat.div_add_mod after refClkRate
      rw [hSame] at hLeft
      omega

theorem Stamp.Earlier.trans {cyclesBits : Nat} {a b c : Stamp taiBits cyclesBits} (hFirst : a.Earlier b)
    (hThen : b.Earlier c) : a.Earlier c := by
  simp only [Stamp.Earlier, BitVec.lt_def, ← BitVec.toNat_inj] at *
  omega

theorem Stamp.Earlier.irrefl {cyclesBits : Nat} (a : Stamp taiBits cyclesBits) : ¬a.Earlier a := by
  simp [Stamp.Earlier]

theorem Stamp.Earlier.asymm {cyclesBits : Nat} {a b : Stamp taiBits cyclesBits} (h : a.Earlier b) :
    ¬b.Earlier a := fun hBack => Stamp.Earlier.irrefl a (h.trans hBack)

theorem Stamp.Earlier.ne {cyclesBits : Nat} {a b : Stamp taiBits cyclesBits} (h : a.Earlier b) : a ≠ b := by
  rintro rfl
  exact Stamp.Earlier.irrefl a h

theorem tickStamp_inj {before after : Nat} (hBefore : before / refClkRate < 2 ^ taiBits)
    (hAfter : after / refClkRate < 2 ^ taiBits)
    (h : tickStamp taiBits before = tickStamp taiBits after) : before = after := by
  rcases Nat.lt_trichotomy before after with hLess | hSame | hMore
  · exact absurd h (earlier_tickStamp hLess hAfter).ne
  · exact hSame
  · exact absurd h.symm (earlier_tickStamp hMore hBefore).ne

/-! ### The tick of a sum -/

theorem toNat_signExtend {cycles : BitVec 28} (h : cycles.toNat < 2 ^ 27) :
    (cycles.signExtend 30).toNat = cycles.toNat := by
  have hMsb : cycles.msb = false := by
    rw [BitVec.msb_eq_decide, decide_eq_false_iff_not]
    omega
  rw [BitVec.signExtend_eq_setWidth_of_msb_false hMsb, BitVec.toNat_setWidth]
  exact Nat.mod_eq_of_lt (by omega)

theorem tickStamp_of_lt (seconds : Nat) {cycles : Nat} (h : cycles < refClkRate) :
    tickStamp taiBits (seconds * refClkRate + cycles) =
      ⟨BitVec.ofNat taiBits seconds, BitVec.ofNat 28 cycles⟩ := by
  rw [tickStamp, Nat.mul_comm, Nat.mul_add_div (by decide), Nat.mul_add_mod, Nat.div_eq_of_lt h,
    Nat.mod_eq_of_lt h, Nat.add_zero]

theorem toNat_field (w : BitVec 30) : (field 0 28 w).toNat = w.toNat % 2 ^ 28 := by
  simp [field]

theorem sumOf_eq_tickStamp (i : TsAdderIn fracBits 28 taiBits) (hFrac : i.aFrac = 0 ∧ i.bFrac = 0)
    (hA : i.a.cycles.toNat < 2 ^ 27) (hSum : i.a.cycles.toNat + i.b.cycles.toNat < 2 * refClkRate)
    (hB : i.b.cycles.toNat < 2 ^ 27) :
    TsAdder.sumOf refClkRate i = tickStamp taiBits ((i.a.tai.toNat + i.b.tai.toNat) * refClkRate +
      (i.a.cycles.toNat + i.b.cycles.toNat)) := by
  have hRate : refClkRate = 125000000 := rfl
  have hCoarse : (TsSum.ofFields i).coarse.toNat = i.a.cycles.toNat + i.b.cycles.toNat := by
    rw [TsSum.ofFields, BitVec.toNat_add, toNat_signExtend hA, toNat_signExtend hB]
    exact Nat.mod_eq_of_lt (by omega)
  have hCarry : (TsSum.ofFields i).carryFrac = TsSum.ofFields i := by
    simp [TsSum.carryFrac, TsSum.ovfFrac, TsSum.ofFields, hFrac]
  have hSigned : (TsSum.ofFields i).coarse.toInt = (i.a.cycles.toNat + i.b.cycles.toNat : Nat) := by
    rw [BitVec.toInt_eq_toNat_of_lt (by omega), hCoarse]
  have hUtc : (TsSum.ofFields i).utc = BitVec.ofNat taiBits (i.a.tai.toNat + i.b.tai.toNat) := by
    apply BitVec.eq_of_toNat_eq
    simp [TsSum.ofFields, BitVec.toNat_add]
  simp only [TsAdder.sumOf, hCarry, TsSum.coarseRange, hSigned]
  rw [if_neg (by omega), if_neg (by omega)]
  by_cases hOver : refClkRate ≤ i.a.cycles.toNat + i.b.cycles.toNat
  · rw [if_pos (by omega)]
    have hTick : (i.a.tai.toNat + i.b.tai.toNat) * refClkRate + (i.a.cycles.toNat + i.b.cycles.toNat) =
        (i.a.tai.toNat + i.b.tai.toNat + 1) * refClkRate +
          (i.a.cycles.toNat + i.b.cycles.toNat - refClkRate) := by
      rw [Nat.add_one_mul]
      omega
    rw [hTick, tickStamp_of_lt _ (by omega)]
    simp only [TsSum.normalize, TsSum.stamp, Bool.false_eq_true, if_false, hUtc, Stamp.mk.injEq]
    constructor
    · simp [BitVec.ofNat_add]
    · apply BitVec.eq_of_toNat_eq
      rw [if_neg (by decide), if_pos trivial, toNat_field, BitVec.toNat_sub, hCoarse]
      simp only [BitVec.toNat_ofNat]
      omega
  · rw [if_neg (by omega), tickStamp_of_lt _ (by omega)]
    simp only [TsSum.normalize, TsSum.stamp, Bool.false_eq_true, if_false, hUtc, Stamp.mk.injEq]
    constructor
    · rfl
    · apply BitVec.eq_of_toNat_eq
      rw [if_neg (by decide), if_neg (by decide), toNat_field, hCoarse, BitVec.toNat_ofNat]

end WrRfDemo.Timing

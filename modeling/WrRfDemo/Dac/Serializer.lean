/-! # The serial DAC interface

One transfer shifts `numExtraBits` zeros and the sixteen value bits out of `dataSh`,
most significant bit first. The clock divider, the one-hot bit counter and the data
shifter are separate processes, and each has its own reaction to the load strobe.
-/

namespace WrRfDemo.Dac

structure SerialDacIn where
  rstN : Bool
  value : BitVec 16
  csSel : BitVec 2
  load : Bool
  sclkDivsel : BitVec 3

structure SerialDac (numExtraBits : Nat) where
  divider : BitVec 12
  dataSh : BitVec (numExtraBits + 16)
  bitCounter : BitVec (numExtraBits + 16 + 2)
  sendingData : Bool
  iDacClk : Bool
  csSelReg : BitVec 2
deriving DecidableEq

namespace SerialDac

variable {numExtraBits : Nat}

/-- Divider bit 1 for `000` up to bit 8 for `111`. -/
def dividerMuxed (sclkDivsel : BitVec 3) (s : SerialDac numExtraBits) : Bool :=
  s.divider.getLsbD (sclkDivsel.toNat + 1)

def endSendingData (s : SerialDac numExtraBits) : Bool := s.bitCounter.msb

def clock (i : SerialDacIn) (s : SerialDac numExtraBits) : SerialDac numExtraBits where
  sendingData :=
    if !i.rstN then false
    else if i.load && !s.sendingData then true
    else if s.endSendingData then false
    else s.sendingData
  divider :=
    if i.load then 0
    else if s.sendingData then
      if s.dividerMuxed i.sclkDivsel then 0 else s.divider + 1
    else if s.endSendingData then 0
    else s.divider
  iDacClk :=
    if !i.rstN then true
    else if i.load then true
    else if s.dividerMuxed i.sclkDivsel then !s.iDacClk
    else if s.endSendingData then true
    else s.iDacClk
  dataSh :=
    if !i.rstN then 0
    else if i.load && !s.sendingData then (0 : BitVec numExtraBits) ++ i.value
    else if s.sendingData && s.dividerMuxed i.sclkDivsel && !s.iDacClk then s.dataSh.rotateLeft 1
    else s.dataSh
  csSelReg :=
    if i.rstN && i.load && !s.sendingData then i.csSel else s.csSelReg
  bitCounter :=
    if i.load && !s.sendingData then 1
    else if s.sendingData && s.divider == 0 && s.iDacClk then s.bitCounter <<< 1
    else s.bitCounter

def xdone (s : SerialDac numExtraBits) : Bool := !s.sendingData

def dacSdata (s : SerialDac numExtraBits) : Bool := s.dataSh.msb

def dacSclk (s : SerialDac numExtraBits) : Bool := s.iDacClk

/-- `dac_cs_n_o(k) <= not sendingData or not cs_sel_reg(k)`. -/
def dacCsN (s : SerialDac numExtraBits) : BitVec 2 :=
  if s.sendingData then ~~~s.csSelReg else 3

end SerialDac

/-! ### Progress of one transfer -/

/-- The bit that the `k`-th clock pulse of a transfer of `value` presents. -/
def frameBit (numExtraBits : Nat) (value : BitVec 16) (k : Nat) : Bool :=
  ((0 : BitVec numExtraBits) ++ value).getMsbD k

/-- The extra bits as zeros, then the value, most significant bit first. -/
def frameBits (numExtraBits : Nat) (value : BitVec 16) : List Bool :=
  List.replicate numExtraBits false ++ (List.range 16).map value.getMsbD

theorem map_frameBit (numExtraBits : Nat) (value : BitVec 16) :
    (List.range (numExtraBits + 16)).map (frameBit numExtraBits value) =
      frameBits numExtraBits value := by
  apply List.ext_getElem
  · simp [frameBits]
  · intro k hLeft hRight
    simp only [List.length_map, List.length_range] at hLeft
    simp only [List.getElem_map, List.getElem_range, frameBit, BitVec.getMsbD_append, frameBits]
    by_cases hk : k < numExtraBits
    · simp [hk, List.getElem_append_left, Nat.not_le.mpr hk]
    · simp [List.getElem_append_right, Nat.le_of_not_lt hk]

namespace SerialDac

variable {numExtraBits : Nat}

/-- A transfer of `value` in which `high` says which half of the `k`-th clock period the
serializer is in: `k` falling edges are complete while the clock is high, and the edge into
the current low half is counted as well while it is low. -/
structure Sending (value : BitVec 16) (k : Nat) (s : SerialDac numExtraBits) : Prop where
  sending : s.sendingData = true
  divider : s.divider.toNat ≤ 4
  shifted : ∀ m, m + k < numExtraBits + 16 →
    s.dataSh.getMsbD m = frameBit numExtraBits value (m + k)
  high : s.iDacClk = true → k ≤ numExtraBits + 16 ∧
    s.bitCounter = BitVec.twoPow _ (if s.divider = 0#12 then k else k + 1) ∧
    (k = numExtraBits + 16 → s.divider.toNat ≤ 1)
  low : s.iDacClk = false → k < numExtraBits + 16 ∧ s.bitCounter = BitVec.twoPow _ (k + 1)

theorem divider_cases {d : BitVec 12} (h : d.toNat ≤ 4) :
    d = 0#12 ∨ d = 1#12 ∨ d = 2#12 ∨ d = 3#12 ∨ d = 4#12 := by
  have hCases : d.toNat = 0 ∨ d.toNat = 1 ∨ d.toNat = 2 ∨ d.toNat = 3 ∨ d.toNat = 4 := by omega
  simpa [← BitVec.toNat_inj] using hCases

theorem dividerMuxed_iff {s : SerialDac numExtraBits} (h : s.divider.toNat ≤ 4) :
    s.dividerMuxed 1#3 = true ↔ s.divider = 4#12 := by
  unfold dividerMuxed
  rcases divider_cases h with hd | hd | hd | hd | hd <;> rw [hd] <;> decide

/-- The one-hot counter reaches its top bit one cycle after the last clock period. -/
theorem Sending.endSendingData_iff {value : BitVec 16} {k : Nat} {s : SerialDac numExtraBits}
    (h : Sending value k s) : s.endSendingData = true ↔
      s.iDacClk = true ∧ k = numExtraBits + 16 ∧ s.divider ≠ 0#12 := by
  cases hClk : s.iDacClk with
  | true =>
    obtain ⟨hk, hCounter, _⟩ := h.high hClk
    rw [endSendingData, hCounter, BitVec.msb_twoPow, Bool.and_eq_true, decide_eq_true_eq, decide_eq_true_eq]
    by_cases hDivider : s.divider = 0#12
    · rw [if_pos hDivider]
      exact ⟨fun ⟨_, hTop⟩ => by omega, fun ⟨_, _, hNe⟩ => absurd hDivider hNe⟩
    · rw [if_neg hDivider]
      exact ⟨fun ⟨_, hTop⟩ => ⟨rfl, by omega, hDivider⟩, fun ⟨_, hDone, _⟩ => by omega⟩
  | false =>
    obtain ⟨hk, hCounter⟩ := h.low hClk
    rw [endSendingData, hCounter, BitVec.msb_twoPow, Bool.and_eq_true, decide_eq_true_eq, decide_eq_true_eq]
    exact ⟨fun ⟨_, hTop⟩ => by omega, fun ⟨hFalse, _⟩ => absurd hFalse (by decide)⟩

theorem twoPow_shiftLeft_one (w k : Nat) :
    (BitVec.twoPow w k) <<< 1 = BitVec.twoPow w (k + 1) := by
  rw [BitVec.twoPow_eq, BitVec.twoPow_eq, BitVec.shiftLeft_add]

/-- How one clock cycle moves a transfer on while no load strobe is up. -/
inductive Moved (value : BitVec 16) (k : Nat) (s s' : SerialDac numExtraBits) : Prop
  | held (hClk : s'.iDacClk = s.iDacClk) (h : Sending value k s')
  | fell (hBefore : s.iDacClk = true) (hAfter : s'.iDacClk = false) (h : Sending value k s')
  | rose (hBefore : s.iDacClk = false) (hAfter : s'.iDacClk = true) (h : Sending value (k + 1) s')
  | ended (hDone : k = numExtraBits + 16) (hBefore : s.iDacClk = true)
      (hAfter : s'.iDacClk = true) (h : s'.sendingData = false)

variable {value : BitVec 16} {k : Nat} {i : SerialDacIn} {s : SerialDac numExtraBits}

theorem divider_clock (hSending : s.sendingData = true) (hLoad : i.load = false) :
    (clock i s).divider = if s.dividerMuxed i.sclkDivsel then 0#12 else s.divider + 1#12 := by
  simp [clock, hSending, hLoad]

theorem divider_succ {d : BitVec 12} (h : d.toNat ≤ 4) (hNotFour : d ≠ 4#12) :
    (d + 1#12).toNat ≤ 4 ∧ d + 1#12 ≠ 0#12 := by
  rcases divider_cases h with rfl | rfl | rfl | rfl | rfl <;> first | decide | exact absurd rfl hNotFour

theorem Sending.moved_high (h : Sending value k s) (hClk : s.iDacClk = true)
    (hRst : i.rstN = true) (hLoad : i.load = false) (hSel : i.sclkDivsel = 1#3) :
    Moved value k s (clock i s) := by
  obtain ⟨hk, hCounter, hLast⟩ := h.high hClk
  have hSending := h.sending
  have hDivider := divider_clock hSending hLoad
  rw [hSel] at hDivider
  have hMuxed := dividerMuxed_iff h.divider
  by_cases hEnd : s.endSendingData = true
  · obtain ⟨_, hDone, _⟩ := h.endSendingData_iff.mp hEnd
    have hMux : s.dividerMuxed 1#3 = false := by
      apply Bool.eq_false_iff.mpr
      intro hMux
      exact absurd (hLast hDone) (by rw [hMuxed.mp hMux]; decide)
    exact .ended hDone hClk (by simp [clock, hRst, hLoad, hSel, hMux, hEnd])
      (by simp [clock, hRst, hLoad, hEnd])
  have hNotEnd : s.endSendingData = false := Bool.eq_false_iff.mpr hEnd
  by_cases hMux : s.dividerMuxed 1#3 = true
  · have hFour := hMuxed.mp hMux
    rw [hFour] at hCounter hLast
    have hLess : k < numExtraBits + 16 := by
      rcases Nat.lt_or_eq_of_le hk with hLt | hEq
      · exact hLt
      · exact absurd (hLast hEq) (by decide)
    have hFell : (clock i s).iDacClk = false := by simp [clock, hRst, hLoad, hSel, hMux, hClk]
    refine .fell hClk hFell ⟨?_, ?_, ?_, ?_, ?_⟩
    · simp [clock, hRst, hLoad, hSending, hNotEnd]
    · simp [hDivider, hMux]
    · simpa [clock, hRst, hLoad, hClk] using h.shifted
    · simp [hFell]
    · intro _
      refine ⟨hLess, ?_⟩
      rw [if_neg (by decide)] at hCounter
      simpa [clock, hLoad, hSending, hClk, hFour] using hCounter
  · have hNotFour : s.divider ≠ 4#12 := fun hFour => hMux (hMuxed.mpr hFour)
    have hMux : s.dividerMuxed 1#3 = false := Bool.eq_false_iff.mpr hMux
    obtain ⟨hBound, hNonzero⟩ := divider_succ h.divider hNotFour
    simp only [hMux, Bool.false_eq_true, if_false] at hDivider
    have hHeld : (clock i s).iDacClk = s.iDacClk := by simp [clock, hRst, hLoad, hSel, hMux, hNotEnd]
    refine .held hHeld ⟨?_, ?_, ?_, ?_, ?_⟩
    · simp [clock, hRst, hLoad, hSending, hNotEnd]
    · rwa [hDivider]
    · simpa [clock, hRst, hLoad, hClk] using h.shifted
    · intro _
      refine ⟨hk, ?_, ?_⟩
      · rw [hDivider, if_neg hNonzero]
        by_cases hZero : s.divider = 0#12
        · rw [if_pos hZero] at hCounter
          simp [clock, hLoad, hSending, hClk, hZero, hCounter, twoPow_shiftLeft_one]
        · rw [if_neg hZero] at hCounter
          rw [← hCounter]
          simp [clock, hLoad, hZero]
      · intro hDone
        have hZero : s.divider = 0#12 := by
          have := mt h.endSendingData_iff.mpr hEnd
          simpa [hClk, hDone] using this
        rw [hDivider, hZero]
        decide
    · simp [hHeld, hClk]

theorem Sending.moved_low (h : Sending value k s) (hClk : s.iDacClk = false)
    (hRst : i.rstN = true) (hLoad : i.load = false) (hSel : i.sclkDivsel = 1#3) :
    Moved value k s (clock i s) := by
  obtain ⟨hk, hCounter⟩ := h.low hClk
  have hSending := h.sending
  have hDivider := divider_clock hSending hLoad
  rw [hSel] at hDivider
  have hMuxed := dividerMuxed_iff h.divider
  have hNotEnd : s.endSendingData = false := by
    apply Bool.eq_false_iff.mpr
    intro hEnd
    simpa [hClk] using (h.endSendingData_iff.mp hEnd).1
  have hKept : (clock i s).bitCounter = s.bitCounter := by simp [clock, hLoad, hClk]
  by_cases hMux : s.dividerMuxed 1#3 = true
  · have hRose : (clock i s).iDacClk = true := by simp [clock, hRst, hLoad, hSel, hMux, hClk]
    simp only [hMux, if_true] at hDivider
    refine .rose hClk hRose ⟨?_, ?_, ?_, ?_, ?_⟩
    · simp [clock, hRst, hLoad, hSending, hNotEnd]
    · simp [hDivider]
    · intro m hm
      have hRotate : (clock i s).dataSh = s.dataSh.rotateLeft 1 := by
        simp [clock, hRst, hLoad, hSending, hSel, hMux, hClk]
      rw [hRotate, BitVec.getMsbD_rotateLeft_of_lt (by omega), Nat.mod_eq_of_lt (by omega),
        decide_eq_true (show m < numExtraBits + 16 by omega), Bool.true_and, Nat.add_comm 1 m,
        h.shifted (m + 1) (by omega), show m + 1 + k = m + (k + 1) by omega]
    · intro _
      refine ⟨by omega, ?_, by simp [hDivider]⟩
      rw [hDivider, if_pos rfl, hKept, hCounter]
    · simp [hRose]
  · have hNotFour : s.divider ≠ 4#12 := fun hFour => hMux (hMuxed.mpr hFour)
    have hMux : s.dividerMuxed 1#3 = false := Bool.eq_false_iff.mpr hMux
    simp only [hMux, Bool.false_eq_true, if_false] at hDivider
    have hHeld : (clock i s).iDacClk = s.iDacClk := by simp [clock, hRst, hLoad, hSel, hMux, hNotEnd]
    refine .held hHeld ⟨?_, ?_, ?_, ?_, ?_⟩
    · simp [clock, hRst, hLoad, hSending, hNotEnd]
    · rw [hDivider]
      exact (divider_succ h.divider hNotFour).1
    · simpa [clock, hRst, hLoad, hSending, hSel, hMux] using h.shifted
    · simp [hHeld, hClk]
    · exact fun _ => ⟨hk, hKept.trans hCounter⟩

theorem Sending.moved (h : Sending value k s) (hRst : i.rstN = true) (hLoad : i.load = false)
    (hSel : i.sclkDivsel = 1#3) : Moved value k s (clock i s) := by
  cases hClk : s.iDacClk with
  | true => exact h.moved_high hClk hRst hLoad hSel
  | false => exact h.moved_low hClk hRst hLoad hSel

/-- The cycles that are left of a transfer: ten for a clock period, and two at the end. -/
def left (k : Nat) (s : SerialDac numExtraBits) : Nat :=
  10 * (numExtraBits + 16 - k) + (if s.iDacClk then 2 else 0) - (if s.iDacClk then 0 else 3) - s.divider.toNat

theorem left_le (k : Nat) (s : SerialDac numExtraBits) : s.left k ≤ 10 * (numExtraBits + 16) + 2 := by
  rw [left]
  split <;> omega

theorem Sending.left_pos (h : Sending value k s) : 0 < s.left k := by
  have hDivider := h.divider
  rw [left]
  cases hClk : s.iDacClk with
  | true =>
    obtain ⟨hk, -, hLast⟩ := h.high hClk
    simp only [if_true]
    omega
  | false =>
    obtain ⟨hk, -⟩ := h.low hClk
    simp only [Bool.false_eq_true, if_false]
    omega

/-- The clock turns with the divider, but at the end. -/
theorem muxed_iff_turns (hRst : i.rstN = true) (hLoad : i.load = false) (hSel : i.sclkDivsel = 1#3)
    (hNext : (clock i s).sendingData = true) : s.dividerMuxed 1#3 = true ↔ (clock i s).iDacClk ≠ s.iDacClk := by
  have hNotEnd : s.endSendingData = false := by
    cases hEnd : s.endSendingData with
    | false => rfl
    | true => simp [clock, hRst, hLoad, hEnd] at hNext
  have hClk : (clock i s).iDacClk = if s.dividerMuxed 1#3 then !s.iDacClk else s.iDacClk := by
    simp [clock, hRst, hLoad, hSel, hNotEnd]
  rw [hClk]
  cases s.dividerMuxed 1#3 <;> cases s.iDacClk <;> decide

theorem Sending.sooner (h : Sending value k s) (hRst : i.rstN = true) (hLoad : i.load = false) (hSel : i.sclkDivsel = 1#3) :
    (clock i s).sendingData = false ∨ ∃ k', Sending value k' (clock i s) ∧ (clock i s).left k' < s.left k := by
  have hPos := h.left_pos
  have hBound := h.divider
  have hFour := dividerMuxed_iff h.divider
  have hDivider := divider_clock h.sending hLoad
  rw [hSel] at hDivider
  cases h.moved hRst hLoad hSel with
  | ended hDone hBefore hAfter hNext => exact .inl hNext
  | held hSame hNext =>
    have hTurns := muxed_iff_turns hRst hLoad hSel hNext.sending
    rw [hTurns] at hFour
    rw [if_neg (by rw [hTurns]; exact fun hOther => hOther hSame)] at hDivider
    have hSucc : (s.divider + 1#12).toNat = s.divider.toNat + 1 := by
      rw [BitVec.toNat_add]
      exact Nat.mod_eq_of_lt (by simp; omega)
    refine .inr ⟨k, hNext, ?_⟩
    rw [left] at hPos
    rw [left, left, hSame, hDivider, hSucc]
    omega
  | fell hBefore hAfter hNext =>
    have hTurns := (muxed_iff_turns hRst hLoad hSel hNext.sending).mpr (by rw [hBefore, hAfter]; decide)
    obtain ⟨hk, -⟩ := hNext.low hAfter
    rw [if_pos hTurns] at hDivider
    refine .inr ⟨k, hNext, ?_⟩
    rw [left, left, hBefore, hAfter, hDivider, hFour.mp hTurns]
    simp
    omega
  | rose hBefore hAfter hNext =>
    have hTurns := (muxed_iff_turns hRst hLoad hSel hNext.sending).mpr (by rw [hBefore, hAfter]; decide)
    obtain ⟨hk, -⟩ := h.low hBefore
    rw [if_pos hTurns] at hDivider
    refine .inr ⟨k + 1, hNext, ?_⟩
    rw [left, left, hBefore, hAfter, hDivider, hFour.mp hTurns]
    simp
    omega

/-- A load strobe that finds the serializer idle starts a transfer of its value. -/
theorem sending_of_load (hRst : i.rstN = true) (hLoad : i.load = true)
    (hIdle : s.sendingData = false) : Sending i.value 0 (clock i s) where
  sending := by simp [clock, hRst, hLoad, hIdle]
  divider := by simp [clock, hLoad]
  shifted := by simp [clock, hRst, hLoad, hIdle, frameBit]
  high := by
    intro _
    refine ⟨by omega, ?_, by simp [clock, hLoad]⟩
    simp [clock, hLoad, hIdle, BitVec.twoPow_eq]
  low := by simp [clock, hRst, hLoad]

end SerialDac

end WrRfDemo.Dac

import WrRfDemo.Spi.Gpior

/-! # Bit-banged SPI

`gpio_set`, `gpio_get` and `spi_txrx` on the GPIO register. Setting a pin writes back what was
read of all the others, for `PLL_SDIO` the level at the input; but the output latch changes one
clock after the clock pin, so the level at a rising edge is still the one that was set before.
-/

namespace WrRfDemo.Spi

variable (levels : Nat → InputPins)

def withPin (pin : BitVec 32) (value : Bool) (g : BitVec 32) : BitVec 32 := if value then g ||| pin else g &&& ~~~pin

def gpioSet (pin : BitVec 32) (value : Bool) (s : Gpior) : Gpior :=
  (s.read levels).2.write (withPin pin value (s.read levels).1)

def gpioGet (pin : BitVec 32) (s : Gpior) : BitVec 32 × Gpior :=
  ((s.read levels).1 &&& pin, (s.read levels).2)

/-- The variables of `spi_txrx` with the register. -/
structure Shifting where
  value : BitVec 32
  rv : BitVec 32
  port : Gpior

def spiRound (nBits : Nat) (x : Shifting) : Shifting :=
  let value := x.value <<< 1
  let port := gpioSet levels pllSdio (value &&& ((1 : BitVec 32) <<< nBits) != 0) x.port
  let port := gpioSet levels pllSclk true port
  let sample := gpioGet levels pllSdio port
  ⟨value, (x.rv <<< 1) ||| (if sample.1 != 0 then 1 else 0), gpioSet levels pllSclk false sample.2⟩

def spiLoop (nBits : Nat) : Nat → Shifting → Shifting
  | 0, x => x
  | i + 1, x => spiRound levels nBits (spiLoop nBits i x)

def spiTxrx (cs : ChipSelect) (nBits : Nat) (value : BitVec 32) (s : Gpior) : BitVec 32 × Gpior :=
  let port := gpioSet levels cs.mask false (gpioSet levels pllSclk false s)
  let x := spiLoop levels nBits nBits ⟨value, 0, port⟩
  (x.rv, gpioSet levels cs.mask true x.port)

/-! ### Setting one pin -/

variable {levels}

/-- From `s` to `s'` the pin of this bit is set, to be seen at the first clock unless it is `PLL_SDIO`. -/
structure Sets (levels : Nat → InputPins) (k : Nat) (v : Bool) (s s' : Gpior) : Prop where
  out : ∀ j, outputBits.getLsbD j = true → s'.pins.out.getLsbD j = if j = k then v else s.pins.out.getLsbD j
  sdio : s'.pins.sdio = if k = 3 then v else (levels s.reads).pllVcxoSdo
  wave : s'.wave = s.wave ++ [⟨s'.pins.out, s.pins.sdio⟩, s'.pins]
  reads : s'.reads = s.reads + 1

theorem getLsbD_withPin {k j : Nat} (hk : k < 32) (hj : j < 32) (v : Bool) (g : BitVec 32) :
    (withPin (BitVec.twoPow 32 k) v g).getLsbD j = if j = k then v else g.getLsbD j := by
  have hBit := getLsbD_twoPow_of_lt hk j
  rcases eq_or_ne j k with rfl | hOther
  · cases v <;> simp only [withPin, if_true, Bool.false_eq_true, if_false, BitVec.getLsbD_or, BitVec.getLsbD_and,
      BitVec.getLsbD_not, hBit, decide_true, Bool.or_true, Bool.not_true, Bool.and_false]
  · rw [decide_eq_false hOther.symm] at hBit
    cases v with
    | false => simp [withPin, hj, hOther]
    | true => simp [withPin, hBit, hOther]

theorem gpioSet_sets {k : Nat} (hk : k < 32) (v : Bool) (s : Gpior) :
    Sets levels k v s (gpioSet levels (BitVec.twoPow 32 k) v s) := by
  constructor
  case out =>
    intro j hOut
    change ((withPin (BitVec.twoPow 32 k) v (s.value (levels s.reads))) &&& outputBits).getLsbD j = _
    rw [BitVec.getLsbD_and, hOut, Bool.and_true, getLsbD_withPin hk (BitVec.lt_of_getLsbD hOut), getLsbD_value _ _ hOut]
  case sdio =>
    change (withPin (BitVec.twoPow 32 k) v (s.value (levels s.reads))).getLsbD 3 = _
    rw [getLsbD_withPin hk (by decide), getLsbD_value_sdio]
    simp only [eq_comm]
  case wave => rfl
  case reads => rfl

/-! ### Edges -/

/-- A rising edge of the clock: whether the chip is selected, and the levels of `PLL_SDIO` before it
and at it. -/
structure Edge where
  selected : Bool
  before : Bool
  level : Bool
deriving DecidableEq

def risingEdges (cs : ChipSelect) : Pins → List Pins → List Edge
  | _, [] => []
  | p, q :: rest =>
    (if !p.sclk && q.sclk then [⟨p.selected cs && q.selected cs, p.sdio, q.sdio⟩] else []) ++ risingEdges cs q rest

theorem risingEdges_append (cs : ChipSelect) (p : Pins) (before after : List Pins) :
    risingEdges cs p (before ++ after) =
      risingEdges cs p before ++ risingEdges cs (before.getLastD p) after := by
  induction before generalizing p with
  | nil => rfl
  | cons q rest ih =>
    rw [List.cons_append, risingEdges, ih q, risingEdges, List.append_assoc]
    cases rest <;> rfl

/-- The wave from these pins on, up to the pins as they are. -/
structure Shows (cs : ChipSelect) (p : Pins) (edges : List Edge) (s : Gpior) : Prop where
  last : s.wave.getLastD p = s.pins
  edges : risingEdges cs p s.wave = edges

/-- Setting a pin makes an edge at most at its first clock, when `PLL_SDIO` is as it was. -/
theorem Shows.next {cs : ChipSelect} {p : Pins} {edges : List Edge} {s s' : Gpior} (h : Shows cs p edges s) {k : Nat}
    {v : Bool} (hSets : Sets levels k v s s') :
    Shows cs p
      (edges ++ if !s.pins.sclk && s'.pins.sclk then
        [⟨s.pins.selected cs && s'.pins.selected cs, s.pins.sdio, s.pins.sdio⟩] else []) s' := by
  constructor
  · simp [hSets.wave]
  · rw [hSets.wave, risingEdges_append, h.last, h.edges]
    simp [risingEdges, Pins.sclk, Pins.selected]

theorem Shows.low {cs : ChipSelect} {p : Pins} {edges : List Edge} {s s' : Gpior} (h : Shows cs p edges s) {k : Nat}
    {v : Bool} (hSets : Sets levels k v s s') (hClock : s'.pins.out.getLsbD 2 = false) : Shows cs p edges s' := by
  have hNext := h.next hSets
  rwa [Pins.sclk, Pins.sclk, hClock, Bool.and_false, if_neg Bool.false_ne_true, List.append_nil] at hNext

/-! ### The other pins -/

/-- The same levels at all outputs but the clock, the data and the chip select. -/
def SameOthers (cs : ChipSelect) (p q : Pins) : Prop :=
  ∀ k, outputBits.getLsbD k = true → k ≠ 2 → k ≠ cs.bit → q.out.getLsbD k = p.out.getLsbD k

structure Keeps (cs : ChipSelect) (p : Pins) (s : Gpior) : Prop where
  pins : SameOthers cs p s.pins
  wave : ∀ q ∈ s.wave, SameOthers cs p q

theorem Keeps.next {cs : ChipSelect} {p : Pins} {s s' : Gpior} (h : Keeps cs p s) {k : Nat} {v : Bool}
    (hSets : Sets levels k v s s') (hk : k = 2 ∨ k = 3 ∨ k = cs.bit) : Keeps cs p s' := by
  have hNew : ∀ sdio, SameOthers cs p ⟨s'.pins.out, sdio⟩ := by
    intro sdio j hOut hClock hSelect
    have hData : j ≠ 3 := by
      rintro rfl
      exact absurd hOut (by decide)
    have hOther : j ≠ k := by
      rintro rfl
      rcases hk with hk | hk | hk
      · exact hClock hk
      · exact hData hk
      · exact hSelect hk
    rw [hSets.out j hOut, if_neg hOther]
    exact h.pins j hOut hClock hSelect
  refine ⟨hNew _, fun q hq => ?_⟩
  rw [hSets.wave] at hq
  rcases List.mem_append.mp hq with hOld | hLast
  · exact h.wave q hOld
  · rcases List.mem_pair.mp hLast with rfl | rfl
    · exact hNew _
    · exact hNew _

/-! ### The loop -/

theorem and_one_shiftLeft (v : BitVec 32) {n : Nat} (hn : n < 32) :
    (v &&& ((1 : BitVec 32) <<< n) != 0) = v.getLsbD n := by
  have hMask : (1 : BitVec 32) <<< n = BitVec.twoPow 32 n := rfl
  rw [hMask, BitVec.and_twoPow]
  cases hBit : v.getLsbD n with
  | false => simp
  | true =>
    have hSome : BitVec.twoPow 32 n ≠ 0 := by
      intro hZero
      have := getLsbD_twoPow_of_lt hn n
      simp [hZero] at this
    simpa using hSome

theorem outputBits_bit (cs : ChipSelect) : outputBits.getLsbD cs.bit = true ∧ cs.bit ≠ 2 ∧ cs.bit ≠ 3 ∧ cs.bit < 32 := by
  cases cs <;> decide

/-- The read at which the input is sampled in this round. -/
def sampleAt (i : Nat) : Nat := 4 * i + 4

def sentBit (nBits : Nat) (value : BitVec 32) (i : Nat) : Bool := value.getLsbD (nBits - 1 - i)

structure Rounds (levels : Nat → InputPins) (cs : ChipSelect) (nBits : Nat) (value : BitVec 32) (p : Pins) (i : Nat)
    (x : Shifting) : Prop where
  shifted : x.value = value <<< i
  rv : ∀ k, x.rv.getLsbD k = (decide (k < i) && (levels (sampleAt (i - 1 - k))).pllVcxoSdo)
  shows : Shows cs p ((List.range i).map fun j => ⟨true, sentBit nBits value j, sentBit nBits value j⟩) x.port
  low : x.port.pins.out.getLsbD 2 = false
  selected : x.port.pins.out.getLsbD cs.bit = false
  keeps : Keeps cs p x.port
  reads : x.port.reads = 4 * i + 2

theorem gpioGet_pllSdio (s : Gpior) : ((gpioGet levels pllSdio s).1 != 0) = (levels s.reads).pllVcxoSdo := by
  have hMask : pllSdio = (1 : BitVec 32) <<< 3 := rfl
  rw [← getLsbD_value_sdio (levels s.reads) s, ← and_one_shiftLeft _ (by decide : 3 < 32), ← hMask]
  rfl

theorem getLsbD_shiftIn (rv : BitVec 32) (b : Bool) {k : Nat} (hk : k < 32) :
    ((rv <<< 1) ||| (if b then 1 else 0)).getLsbD k = if k = 0 then b else rv.getLsbD (k - 1) := by
  cases k with
  | zero => cases b <;> simp
  | succ k =>
    have hPred : k < 32 := Nat.lt_of_succ_lt hk
    cases b <;> simp [hk, hPred]

/-- The bits sampled so far move up, and the new one comes in below them. -/
theorem sampled_shiftIn {rv : BitVec 32} {i : Nat} (hi : i < 32)
    (h : ∀ k, rv.getLsbD k = (decide (k < i) && (levels (sampleAt (i - 1 - k))).pllVcxoSdo)) (k : Nat) :
    ((rv <<< 1) ||| (if (levels (sampleAt i)).pllVcxoSdo then 1 else 0)).getLsbD k =
      (decide (k < i + 1) && (levels (sampleAt (i + 1 - 1 - k))).pllVcxoSdo) := by
  rcases Nat.lt_or_ge k 32 with hBound | hBeyond
  · rw [getLsbD_shiftIn _ _ hBound]
    cases k with
    | zero => simp
    | succ k => simp [h k, Nat.sub_sub, Nat.add_comm]
  · rw [BitVec.getLsbD_of_ge _ _ hBeyond, decide_eq_false (by omega), Bool.false_and]

theorem bit_of_shifted {nBits i : Nat} (hn : nBits < 31) (hi : i < nBits) (value : BitVec 32) :
    (value <<< (i + 1) &&& ((1 : BitVec 32) <<< nBits) != 0) = sentBit nBits value i := by
  rw [and_one_shiftLeft _ (by omega), BitVec.getLsbD_shiftLeft, sentBit]
  simp [show nBits < 32 by omega, show ¬nBits < i + 1 by omega, show nBits - (i + 1) = nBits - 1 - i by omega]

theorem rounds_succ {cs : ChipSelect} {nBits : Nat} {value : BitVec 32} {p : Pins} {i : Nat} {x : Shifting} (hn : nBits < 31)
    (hi : i < nBits) (h : Rounds levels cs nBits value p i x) :
    Rounds levels cs nBits value p (i + 1) (spiRound levels nBits x) := by
  obtain ⟨hCsOut, hCsClock, hCsData, -⟩ := outputBits_bit cs
  have hClockOut : outputBits.getLsbD 2 = true := by decide
  have hValue : x.value <<< 1 = value <<< (i + 1) := by rw [h.shifted, ← BitVec.shiftLeft_add]
  have hBit : (x.value <<< 1 &&& ((1 : BitVec 32) <<< nBits) != 0) = sentBit nBits value i := by
    rw [hValue, bit_of_shifted hn hi]
  -- the data pin, then the clock up, a sample, and the clock down
  let s₁ := gpioSet levels pllSdio (sentBit nBits value i) x.port
  let s₂ := gpioSet levels pllSclk true s₁
  let s₃ : Gpior := { s₂ with reads := s₂.reads + 1 }
  let s₄ := gpioSet levels pllSclk false s₃
  have hSets₁ : Sets levels 3 (sentBit nBits value i) x.port s₁ := gpioSet_sets (by decide) _ _
  have hSets₂ : Sets levels 2 true s₁ s₂ := gpioSet_sets (by decide) _ _
  have hSets₄ : Sets levels 2 false s₃ s₄ := gpioSet_sets (by decide) _ _
  have hRound : spiRound levels nBits x =
      ⟨x.value <<< 1, (x.rv <<< 1) ||| (if (gpioGet levels pllSdio s₂).1 != 0 then 1 else 0), s₄⟩ := by
    simp only [spiRound, hBit]
    rfl
  have hClock₁ : s₁.pins.out.getLsbD 2 = false := (hSets₁.out 2 hClockOut).trans h.low
  have hClock₂ : s₂.pins.out.getLsbD 2 = true := hSets₂.out 2 hClockOut
  have hClock₄ : s₄.pins.out.getLsbD 2 = false := hSets₄.out 2 hClockOut
  have hSelect₁ : s₁.pins.out.getLsbD cs.bit = false := by
    rw [hSets₁.out _ hCsOut, if_neg hCsData, h.selected]
  have hSelect₂ : s₂.pins.out.getLsbD cs.bit = false := by
    rw [hSets₂.out _ hCsOut, if_neg hCsClock, hSelect₁]
  have hSelect₄ : s₄.pins.out.getLsbD cs.bit = false := by
    rw [hSets₄.out _ hCsOut, if_neg hCsClock]
    exact hSelect₂
  have hData₁ : s₁.pins.sdio = sentBit nBits value i := hSets₁.sdio
  have hSampled : s₂.reads = sampleAt i := by
    rw [hSets₂.reads, hSets₁.reads, h.reads, sampleAt]
  rw [hRound]
  constructor
  case shifted => exact hValue
  case rv =>
    dsimp only
    rw [gpioGet_pllSdio, hSampled]
    exact sampled_shiftIn (by omega) h.rv
  case shows =>
    have hEdge : (⟨s₁.pins.selected cs && s₂.pins.selected cs, s₁.pins.sdio, s₁.pins.sdio⟩ : Edge) =
        ⟨true, sentBit nBits value i, sentBit nBits value i⟩ := by
      simp [Pins.selected, hSelect₁, hSelect₂, hData₁]
    have hRise : (!s₁.pins.sclk && s₂.pins.sclk) = true := by rw [Pins.sclk, Pins.sclk, hClock₁, hClock₂]; rfl
    have hShows₂ := (h.shows.low hSets₁ hClock₁).next hSets₂
    rw [if_pos hRise, hEdge] at hShows₂
    have hShows₃ : Shows cs p _ s₃ := ⟨hShows₂.last, hShows₂.edges⟩
    rw [List.range_succ, List.map_append]
    exact hShows₃.low hSets₄ hClock₄
  case low => exact hClock₄
  case selected => exact hSelect₄
  case keeps =>
    have hKeeps₂ := (h.keeps.next hSets₁ (.inr (.inl rfl))).next hSets₂ (.inl rfl)
    have hKeeps₃ : Keeps cs p s₃ := ⟨hKeeps₂.pins, hKeeps₂.wave⟩
    exact hKeeps₃.next hSets₄ (.inl rfl)
  case reads =>
    calc s₄.reads
      _ = s₂.reads + 1 + 1 := hSets₄.reads
      _ = 4 * i + 4 + 1 + 1 := by rw [hSampled, sampleAt]
      _ = 4 * (i + 1) + 2 := by omega

theorem spiLoop_rounds {cs : ChipSelect} {nBits : Nat} {value : BitVec 32} {p : Pins} {x : Shifting} (hn : nBits < 31)
    (h : Rounds levels cs nBits value p 0 x) {i : Nat} (hi : i ≤ nBits) :
    Rounds levels cs nBits value p i (spiLoop levels nBits i x) := by
  induction i with
  | zero => exact h
  | succ i ih => exact rounds_succ hn hi (ih (Nat.le_of_succ_le hi))

theorem rounds_zero (cs : ChipSelect) (nBits : Nat) (value : BitVec 32) (p : Pins) :
    Rounds levels cs nBits value p 0
      ⟨value, 0, gpioSet levels cs.mask false (gpioSet levels pllSclk false ⟨p, [], 0⟩)⟩ := by
  obtain ⟨hCsOut, hCsClock, -, hCsBound⟩ := outputBits_bit cs
  have hClockOut : outputBits.getLsbD 2 = true := by decide
  let s₀ : Gpior := ⟨p, [], 0⟩
  let s₁ := gpioSet levels pllSclk false s₀
  let s₂ := gpioSet levels cs.mask false s₁
  have hSets₁ : Sets levels 2 false s₀ s₁ := gpioSet_sets (by decide) _ _
  have hSets₂ : Sets levels cs.bit false s₁ s₂ := gpioSet_sets hCsBound _ _
  have hClock₁ : s₁.pins.out.getLsbD 2 = false := hSets₁.out 2 hClockOut
  have hClock₂ : s₂.pins.out.getLsbD 2 = false := by
    rw [hSets₂.out 2 hClockOut, if_neg hCsClock.symm, hClock₁]
  have hShows : Shows cs p [] s₀ := ⟨rfl, rfl⟩
  have hKeeps : Keeps cs p s₀ := ⟨fun _ _ _ _ => rfl, fun _ hq => absurd hq List.not_mem_nil⟩
  constructor
  case shifted => simp
  case rv => simp
  case shows => exact (hShows.low hSets₁ hClock₁).low hSets₂ hClock₂
  case low => exact hClock₂
  case selected => simpa using hSets₂.out _ hCsOut
  case keeps => exact (hKeeps.next hSets₁ (.inl rfl)).next hSets₂ (.inr (.inr rfl))
  case reads => exact hSets₂.reads.trans (congrArg (· + 1) hSets₁.reads)

/-- Whatever the pins and the levels at the inputs, a transfer makes one edge for each bit, while the
chip is selected and with the bit on `PLL_SDIO` before and at the edge, returns the bits sampled
after the edges, and leaves the other pins alone. -/
theorem spiTxrx_transfers (cs : ChipSelect) {nBits : Nat} (hn : nBits < 31) (value : BitVec 32) (p : Pins)
    (levels : Nat → InputPins) :
    let r := spiTxrx levels cs nBits value ⟨p, [], 0⟩
    risingEdges cs p r.2.wave =
        (List.range nBits).map (fun i => ⟨true, value.getLsbD (nBits - 1 - i), value.getLsbD (nBits - 1 - i)⟩) ∧
      (∀ k, r.1.getLsbD k = (decide (k < nBits) && (levels (sampleAt (nBits - 1 - k))).pllVcxoSdo)) ∧
      ∀ q ∈ r.2.wave, SameOthers cs p q := by
  obtain ⟨-, hCsClock, -, hCsBound⟩ := outputBits_bit cs
  let start : Shifting := ⟨value, 0, gpioSet levels cs.mask false (gpioSet levels pllSclk false ⟨p, [], 0⟩)⟩
  let x := spiLoop levels nBits nBits start
  have h : Rounds levels cs nBits value p nBits x := spiLoop_rounds hn (rounds_zero cs nBits value p) (le_refl nBits)
  have hSets : Sets levels cs.bit true x.port (gpioSet levels cs.mask true x.port) := gpioSet_sets hCsBound true x.port
  have hClock := hSets.out 2 (by decide)
  rw [if_neg hCsClock.symm, h.low] at hClock
  exact ⟨(h.shows.low hSets hClock).edges, h.rv, (h.keeps.next hSets (.inr (.inr rfl))).wave⟩

theorem spiTxrx_transfers_twentyFour :
    (risingEdges .pllSysCsN ⟨0, false⟩
      (spiTxrx (fun _ => ⟨true, false, 0⟩) .pllSysCsN 24 0x1820 ⟨⟨0, false⟩, [], 0⟩).2.wave).length = 24 := by
  rw [(spiTxrx_transfers .pllSysCsN (by decide : 24 < 31) 0x1820 ⟨0, false⟩ _).1]
  rfl

end WrRfDemo.Spi

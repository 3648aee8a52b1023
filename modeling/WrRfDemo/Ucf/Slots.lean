import WrRfDemo.Ucf.Section

/-! # The slots of the mezzanines

The slot counter goes on only behind a mezzanine. Behind an empty slot it lags, and the lines of a mezzanine are those of a
slot before its own.
-/

namespace WrRfDemo.Ucf

open Text

variable {u : UcfGen} {car : Carrier} {slotMappings : List (Option (List Char))} {written : List (List (List Char))}

def mappedTo (slotMappings : List (Option (List Char))) (slot : Nat) : Option (List Char) := slotMappings[slot]?.bind UcfGen.requested

/-- The number of mezzanines in the slots before this one. -/
def populated (slotMappings : List (Option (List Char))) (slot : Nat) : Nat :=
  (slotMappings.take slot).countP fun mapping => (UcfGen.requested mapping).isSome

/-- The lines of each mezzanine are those of the slot that it is asked for in. -/
def FromSlot (u : UcfGen) (car : Carrier) (slotMappings : List (Option (List Char))) (written : List (List (List Char))) : Prop :=
  ∀ slot name mez, mappedTo slotMappings slot = some name → u.findMezzanine name = some mez →
    car.netLines slot mez.pins = .ok (written.getD slot []).tail

/-- A pin whose lines are the same in both slots. -/
def SamePin (car : Carrier) (slot other : Nat) (p : MezzaninePin) : Prop :=
  (car.findPin p.fmcLine slot).map CarrierPin.fpgaPin = (car.findPin p.fmcLine other).map CarrierPin.fpgaPin ∧
    (car.numSlots ≤ 1 ∨ '%' ∉ p.portName)

instance (car : Carrier) (slot other : Nat) (p : MezzaninePin) : Decidable (SamePin car slot other p) :=
  inferInstanceAs (Decidable (_ ∧ _))

/-- Every mezzanine stands behind populated slots, or in a slot like the one that the counter shows. -/
def Settled (u : UcfGen) (car : Carrier) (slotMappings : List (Option (List Char))) : Prop :=
  ∀ slot name mez, mappedTo slotMappings slot = some name → u.findMezzanine name = some mez →
    populated slotMappings slot = slot ∨ ∀ p ∈ mez.pins, SamePin car slot (populated slotMappings slot) p

/-! ### The lines of a slot -/

theorem netLine_port {port port' keyword value : List Char}
    (h : Carrier.netLine port keyword value = Carrier.netLine port' keyword value) : port = port' :=
  List.append_cancel_left (List.append_cancel_right (List.append_cancel_right (List.append_cancel_right
    (List.append_cancel_right (List.append_cancel_right h)))))

theorem netLine_value {port keyword value value' : List Char}
    (h : Carrier.netLine port keyword value = Carrier.netLine port keyword value') : value = value' :=
  List.append_cancel_left (List.append_cancel_right h)

theorem slotStr_injective {slot other : Nat} (hSlots : 1 < car.numSlots) (h : car.slotStr slot = car.slotStr other) :
    slot = other := by
  rw [Carrier.slotStr, Carrier.slotStr, if_pos hSlots, if_pos hSlots] at h
  rw [← Nat.ofDigitChars_ten_toDigits (n := slot), h, Nat.ofDigitChars_ten_toDigits]

theorem port_eq_iff {slot other : Nat} (hOther : other ≠ slot) (p : MezzaninePin) :
    car.port slot p = car.port other p ↔ car.numSlots ≤ 1 ∨ '%' ∉ p.portName := by
  constructor
  · intro hPort
    by_contra hShown
    obtain ⟨hSlots, hMem⟩ := not_or.mp hShown
    exact hOther (slotStr_injective (Int.not_le.mp hSlots) (replace_injective (not_not.mp hMem) hPort)).symm
  · rintro (hOne | hPlain)
    · rw [Carrier.port, Carrier.port, Carrier.slotStr, Carrier.slotStr, if_neg (Int.not_lt.mpr hOne),
        if_neg (Int.not_lt.mpr hOne)]
    · rw [Carrier.port, Carrier.port, replace_of_not_mem hPlain, replace_of_not_mem hPlain]

theorem netLines_iff {slot other : Nat} (hOther : other ≠ slot) {pins : List MezzaninePin} {nets : List (List Char)}
    (hNets : car.netLines other pins = .ok nets) :
    car.netLines slot pins = .ok nets ↔ ∀ p ∈ pins, SamePin car slot other p := by
  induction pins generalizing nets with
  | nil =>
    cases hNets
    exact ⟨fun _ _ hMem => absurd hMem List.not_mem_nil, fun _ => rfl⟩
  | cons p rest ih =>
    obtain ⟨pin, more, hPin, hRest, rfl⟩ := Carrier.netLines_cons.mp hNets
    rw [Carrier.netLines_cons, List.forall_mem_cons, ← ih hRest]
    constructor
    · rintro ⟨pin', more', hPin', hRest', hLines⟩
      obtain ⟨hLoc, hTail⟩ := List.cons.inj hLines
      obtain ⟨hStandard, rfl⟩ := List.cons.inj hTail
      have hPort := netLine_port hStandard
      rw [hPort] at hLoc
      refine ⟨⟨?_, (port_eq_iff hOther p).mp hPort.symm⟩, hRest'⟩
      rw [hPin, hPin', Option.map_some, Option.map_some, netLine_value hLoc]
    · rintro ⟨⟨hSame, hPort⟩, hRest'⟩
      rw [hPin, Option.map_some, Option.map_eq_some_iff] at hSame
      obtain ⟨pin', hPin', hFpga⟩ := hSame
      refine ⟨pin', more, hPin', hRest', ?_⟩
      rw [(port_eq_iff hOther p).mpr hPort, hFpga]

/-! ### The counter -/

theorem passes_slot {first : Nat} (hWritten : u.passes car slotMappings first = .ok written) {slot : Nat} {name : List Char}
    (hName : mappedTo slotMappings slot = some name) :
    ∃ mez, u.findMezzanine name = some mez ∧
      car.netLines (first + populated slotMappings slot) mez.pins = .ok (written.getD slot []).tail := by
  induction slotMappings generalizing first written slot with
  | nil => cases hName
  | cons mapping rest ih =>
    rcases UcfGen.passes_cons hWritten with ⟨hNone, more, hRest, rfl⟩ | ⟨asked, mez, nets, more, hAsked, hMez, hNets, hRest, rfl⟩
    · cases slot with
      | zero =>
        change UcfGen.requested mapping = some name at hName
        rw [hNone] at hName
        cases hName
      | succ slot =>
        have hCount : populated (mapping :: rest) (slot + 1) = populated rest slot := by
          simp [populated, hNone]
        rw [hCount]
        exact ih hRest hName
    · cases slot with
      | zero =>
        change UcfGen.requested mapping = some name at hName
        rw [hAsked] at hName
        cases hName
        exact ⟨mez, hMez, hNets⟩
      | succ slot =>
        have hCount : populated (mapping :: rest) (slot + 1) = populated rest slot + 1 := by
          simp [populated, hAsked]
        rw [hCount, ← Nat.add_assoc, Nat.add_right_comm]
        exact ih hRest hName

theorem fromSlot_iff (hWritten : u.passes car slotMappings 0 = .ok written) :
    FromSlot u car slotMappings written ↔ Settled u car slotMappings := by
  refine forall_congr' fun slot => forall_congr' fun name => forall_congr' fun mez => forall_congr' fun hName =>
    forall_congr' fun hMez => ?_
  obtain ⟨found, hFound, hNets⟩ := passes_slot hWritten hName
  rw [hMez] at hFound
  cases hFound
  rw [Nat.zero_add] at hNets
  by_cases hCount : populated slotMappings slot = slot
  · rw [hCount] at hNets
    exact ⟨fun _ => Or.inl hCount, fun _ => hNets⟩
  · rw [netLines_iff hCount hNets]
    exact ⟨Or.inr, fun h => h.resolve_left hCount⟩

/-- Each mezzanine gets the lines of its slot exactly when no slot before it is empty, or its pins are the same in the
slot that the counter shows. -/
theorem pins_iff {file carrierName : Option (List Char)} {out : List Char}
    (hOk : u.generateUcf file carrierName slotMappings = .ok out) :
    ∃ car written, findFirst (fun car => some car.name = carrierName) u.carriers = some car ∧
      u.passes car slotMappings 0 = .ok written ∧ out = unlines (userLines file ++ UcfGen.ours written) ∧
      (FromSlot u car slotMappings written ↔ Settled u car slotMappings) := by
  obtain ⟨car, written, hCar, hWritten, hAny⟩ := generateUcf_ok hOk
  exact ⟨car, written, hCar, hWritten, Except.ok.inj (hOk.symm.trans (hAny file)), fromSlot_iff hWritten⟩

theorem pins_iff_full :
    ∃ car written, UcfGen.passes ⟨[svec], [dds]⟩ car [some dds.name, some dds.name] 0 = .ok written ∧
      FromSlot ⟨[svec], [dds]⟩ car [some dds.name, some dds.name] written := by
  obtain ⟨lines, hLines⟩ : ∃ lines, UcfGen.passes ⟨[svec], [dds]⟩ svec [some dds.name, some dds.name] 0 = .ok lines := ⟨_, rfl⟩
  have hCar : findFirst (fun car => some car.name = some svec.name) [svec] = some svec := rfl
  obtain ⟨car, written, -, hWritten, -, hIff⟩ := pins_iff (generateUcf_eq hCar hLines none)
  refine ⟨car, written, hWritten, hIff.mpr ?_⟩
  intro slot name mez hName _
  left
  match slot, hName with
  | 0, _ => rfl
  | 1, _ => rfl

/-- The mezzanine of slot 1 gets the name and the pin of slot 0. -/
theorem pins_shifted :
    (∃ written, UcfGen.passes ⟨[svec], [dds]⟩ svec [none, some dds.name] 0 = .ok written ∧
      "NET \"fmc0_clk\" LOC = \"A1\";".toList ∈ written.getD 1 []) ∧
    ¬ ∀ (u : UcfGen) (file carrierName : Option (List Char)) (slotMappings : List (Option (List Char))) (out : List Char)
        (car : Carrier) (written : List (List (List Char))),
      u.generateUcf file carrierName slotMappings = .ok out →
      findFirst (fun car => some car.name = carrierName) u.carriers = some car →
      u.passes car slotMappings 0 = .ok written → FromSlot u car slotMappings written := by
  obtain ⟨written, hWritten, hLine⟩ : ∃ written, UcfGen.passes ⟨[svec], [dds]⟩ svec [none, some dds.name] 0 = .ok written ∧
      "NET \"fmc0_clk\" LOC = \"A1\";".toList ∈ written.getD 1 [] := ⟨_, rfl, by decide⟩
  refine ⟨⟨written, hWritten, hLine⟩, fun hAlways => ?_⟩
  have hCar : findFirst (fun car => some car.name = some svec.name) [svec] = some svec := rfl
  have hFrom := hAlways ⟨[svec], [dds]⟩ none (some svec.name) _ _ svec written (generateUcf_eq hCar hWritten none) hCar hWritten
  have hSettled := (fromSlot_iff hWritten).mp hFrom 1 dds.name dds rfl rfl
  exact absurd hSettled (by decide)

end WrRfDemo.Ucf

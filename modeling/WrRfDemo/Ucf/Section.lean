import WrRfDemo.Ucf.UcfGen

/-! # The section and the lines around it

The section is found again between its marks. The empty line in front of it is written with the section and read with the
lines of the user, so that each run leaves one more of them.
-/

namespace WrRfDemo.Ucf

open Text

variable {u : UcfGen} {file carrierName : Option (List Char)} {slotMappings : List (Option (List Char))} {out : List Char}

/-! ### Reading -/

theorem startMark_not_mem_ucfUser (usermode : Bool) (lines : List (List Char)) : startMark ∉ ucfUser usermode lines := by
  induction lines generalizing usermode with
  | nil => exact List.not_mem_nil
  | cons l rest ih =>
    rw [ucfUser, List.mem_append, not_or]
    refine ⟨fun hMem => ?_, ih _⟩
    split_ifs at hMem with hUser
    · rw [List.mem_singleton] at hMem
      simp [← hMem] at hUser
    · exact absurd hMem List.not_mem_nil

theorem mem_of_mem_ucfUser {usermode : Bool} {lines : List (List Char)} {line : List Char}
    (hMem : line ∈ ucfUser usermode lines) : line ∈ lines := by
  induction lines generalizing usermode with
  | nil => exact hMem
  | cons l rest ih =>
    rw [ucfUser, List.mem_append] at hMem
    rcases hMem with hHere | hRest
    · split_ifs at hHere
      · rw [List.mem_singleton.mp hHere]
        exact List.mem_cons_self
      · exact absurd hHere List.not_mem_nil
    · exact List.mem_cons_of_mem l (ih hRest)

theorem ucfUser_append {lines : List (List Char)} (hStart : startMark ∉ lines) (rest : List (List Char)) :
    ucfUser true (lines ++ rest) = lines ++ ucfUser true rest := by
  induction lines with
  | nil => rfl
  | cons l lines ih =>
    obtain ⟨hLine, hLines⟩ := not_or.mp (List.mem_cons.not.mp hStart)
    simp [ucfUser, Ne.symm hLine, ih hLines]

theorem ucfUser_startMark (usermode : Bool) (rest : List (List Char)) :
    ucfUser usermode (startMark :: rest) = ucfUser false rest := by
  have hMarks : startMark ≠ endMark := by decide
  simp [ucfUser, hMarks]

theorem ucfUser_hidden {lines : List (List Char)} (hEnd : endMark ∉ lines) : ucfUser false (lines ++ [endMark]) = [] := by
  induction lines with
  | nil => rfl
  | cons l lines ih =>
    obtain ⟨hLine, hLines⟩ := not_or.mp (List.mem_cons.not.mp hEnd)
    simp [ucfUser, Ne.symm hLine, ih hLines]

theorem oneLine_userLines (file : Option (List Char)) : ∀ line ∈ userLines file, OneLine line := by
  cases file with
  | none => exact fun _ hMem => absurd hMem List.not_mem_nil
  | some text => exact fun line hMem => oneLine_splitFrom false text line (mem_of_mem_ucfUser hMem)

theorem startMark_not_mem_userLines (file : Option (List Char)) : startMark ∉ userLines file := by
  cases file with
  | none => exact List.not_mem_nil
  | some text => exact startMark_not_mem_ucfUser true _

/-! ### Writing -/

def marked (written : List (List (List Char))) : List (List Char) :=
  [startMark, [], UcfGen.notice] ++ written.flatten ++ [endMark]

theorem ours_eq (written : List (List (List Char))) : UcfGen.ours written = [] :: marked written := rfl

theorem generateUcf_eq {car : Carrier} {written : List (List (List Char))}
    (hCar : findFirst (fun car => some car.name = carrierName) u.carriers = some car)
    (hWritten : u.passes car slotMappings 0 = .ok written) (file : Option (List Char)) :
    u.generateUcf file carrierName slotMappings = .ok (unlines (userLines file ++ UcfGen.ours written)) := by
  simp only [UcfGen.generateUcf, hCar, hWritten]
  rfl

/-- What is written depends on the file only through the lines of the user. -/
theorem generateUcf_ok (hOk : u.generateUcf file carrierName slotMappings = .ok out) :
    ∃ car written, findFirst (fun car => some car.name = carrierName) u.carriers = some car ∧
      u.passes car slotMappings 0 = .ok written ∧
      ∀ file, u.generateUcf file carrierName slotMappings = .ok (unlines (userLines file ++ UcfGen.ours written)) := by
  simp only [UcfGen.generateUcf] at hOk
  cases hCar : findFirst (fun car => some car.name = carrierName) u.carriers with
  | none =>
    rw [hCar] at hOk
    cases hOk
  | some car =>
    rw [hCar] at hOk
    cases hWritten : u.passes car slotMappings 0 with
    | error e =>
      simp only [hWritten] at hOk
      cases hOk
    | ok written => exact ⟨car, written, rfl, hWritten, generateUcf_eq hCar hWritten⟩

/-- The lines of the user, and the empty line in front of the section, are the first that the next run reads. -/
theorem userLines_unlines (file : Option (List Char)) (written : List (List (List Char))) :
    userLines (some (unlines (userLines file ++ UcfGen.ours written))) =
      userLines file ++ [[]] ++ ucfUser true (splitlines (unlines (marked written))) := by
  have hOneLine : ∀ line ∈ userLines file ++ [[]], OneLine line := by
    intro line hMem
    rcases List.mem_append.mp hMem with hUser | hEmpty
    · exact oneLine_userLines file line hUser
    · rw [List.mem_singleton.mp hEmpty]
      exact oneLine_nil
  have hStart : startMark ∉ userLines file ++ [[]] := by
    rw [List.mem_append, not_or]
    exact ⟨startMark_not_mem_userLines file, by decide⟩
  rw [userLines, ours_eq, ← List.singleton_append, ← List.append_assoc, unlines_append, splitlines_unlines hOneLine,
    ucfUser_append hStart]

theorem append_ne_self (before : List (List Char)) (line : List Char) (more : List (List Char)) :
    before ++ [line] ++ more ≠ before := by
  intro hSame
  have hLength := congrArg List.length hSame
  simp at hLength

theorem unlines_ne (before : List (List Char)) (line : List Char) (more after : List (List Char)) :
    unlines (before ++ [line] ++ more ++ after) ≠ unlines (before ++ after) := by
  intro hSame
  have hLength := congrArg List.length hSame
  simp [unlines] at hLength
  omega

/-- The second run never leaves the file as it is: it finds one line of the user more than the first. -/
theorem generate_grows (hOk : u.generateUcf file carrierName slotMappings = .ok out) :
    u.generateUcf (some out) carrierName slotMappings ≠ .ok out ∧ userLines (some out) ≠ userLines file := by
  obtain ⟨car, written, -, -, hAny⟩ := generateUcf_ok hOk
  have hOut : unlines (userLines file ++ UcfGen.ours written) = out := Except.ok.inj ((hAny file).symm.trans hOk)
  have hUser := userLines_unlines file written
  rw [hOut] at hUser
  constructor
  · intro hSame
    have hAgain : unlines (userLines (some out) ++ UcfGen.ours written) = out :=
      Except.ok.inj ((hAny (some out)).symm.trans hSame)
    rw [hUser] at hAgain
    exact unlines_ne _ _ _ _ (hAgain.trans hOut.symm)
  · rw [hUser]
    exact append_ne_self _ _ _

def svec : Carrier :=
  ⟨"svec".toList, 2, [⟨0, "LA00".toList, "A1".toList⟩, ⟨1, "LA00".toList, "B1".toList⟩]⟩

def dds : Mezzanine := ⟨"dds".toList, [⟨"LA00".toList, "fmc%_clk".toList, "lvcmos25".toList⟩]⟩

theorem generateUcf_demo (file : Option (List Char)) :
    ∃ out, UcfGen.generateUcf ⟨[svec], [dds]⟩ file (some svec.name) [some dds.name] = .ok out := by
  obtain ⟨written, hWritten⟩ : ∃ written, UcfGen.passes ⟨[svec], [dds]⟩ svec [some dds.name] 0 = .ok written := ⟨_, rfl⟩
  exact ⟨_, generateUcf_eq rfl hWritten file⟩

theorem generate_grows_empty :
    ∃ out, UcfGen.generateUcf ⟨[svec], [dds]⟩ none (some svec.name) [some dds.name] = .ok out ∧
      UcfGen.generateUcf ⟨[svec], [dds]⟩ (some out) (some svec.name) [some dds.name] ≠ .ok out := by
  obtain ⟨out, hOut⟩ := generateUcf_demo none
  exact ⟨out, hOut, (generate_grows hOut).1⟩

/-! ### Descriptions of words -/

/-- No word of a description breaks a line. -/
structure Words (u : UcfGen) : Prop where
  pin : ∀ car ∈ u.carriers, ∀ f ∈ car.pins, OneLine f.fpgaPin
  name : ∀ mez ∈ u.mezzanines, OneLine mez.name
  port : ∀ mez ∈ u.mezzanines, ∀ p ∈ mez.pins, OneLine p.portName ∧ OneLine p.ioStandard

/-- A line that is read as it is written, inside the section. -/
structure Inside (line : List Char) : Prop where
  oneLine : OneLine line
  beforeEnd : line ≠ endMark

theorem oneLine_slotStr (car : Carrier) (slot : Nat) : OneLine (car.slotStr slot) := by
  rw [Carrier.slotStr]
  split_ifs
  · exact oneLine_toDigits slot
  · exact oneLine_nil

theorem inside_netLine {port keyword value : List Char} (hPort : OneLine port) (hKeyword : OneLine keyword)
    (hValue : OneLine value) : Inside (Carrier.netLine port keyword value) := by
  constructor
  · have hStart : OneLine "NET \"".toList ∧ OneLine "\" ".toList ∧ OneLine " = \"".toList ∧ OneLine "\";".toList := by decide
    change OneLine ("NET \"".toList ++ port ++ "\" ".toList ++ keyword ++ " = \"".toList ++ value ++ "\";".toList)
    simp only [oneLine_append]
    exact ⟨⟨⟨⟨⟨⟨hStart.1, hPort⟩, hStart.2.1⟩, hKeyword⟩, hStart.2.2.1⟩, hValue⟩, hStart.2.2.2⟩
  · intro hEnd
    have hFirst : 'N' = '#' := (List.cons.inj hEnd).1
    exact absurd hFirst (by decide)

theorem inside_netLines {car : Carrier} (hPins : ∀ f ∈ car.pins, OneLine f.fpgaPin) {slot : Nat} {pins : List MezzaninePin}
    (hPorts : ∀ p ∈ pins, OneLine p.portName ∧ OneLine p.ioStandard) {nets : List (List Char)}
    (hNets : car.netLines slot pins = .ok nets) : ∀ line ∈ nets, Inside line := by
  induction pins generalizing nets with
  | nil =>
    cases hNets
    exact fun _ hMem => absurd hMem List.not_mem_nil
  | cons p rest ih =>
    obtain ⟨pCarrier, more, hPin, hRest, rfl⟩ := Carrier.netLines_cons.mp hNets
    obtain ⟨hName, hStandard⟩ := hPorts p List.mem_cons_self
    have hPort : OneLine (car.port slot p) := oneLine_replace (oneLine_slotStr car slot) hName '%'
    intro line hMem
    rcases List.mem_cons.mp hMem with rfl | hMem
    · exact inside_netLine hPort (by decide) (hPins pCarrier (findFirst_some hPin).1)
    · rcases List.mem_cons.mp hMem with rfl | hMem
      · exact inside_netLine hPort (by decide) (oneLine_map_toUpper hStandard)
      · exact ih (fun q hq => hPorts q (List.mem_cons_of_mem p hq)) hRest line hMem

theorem inside_slotComment {name : List Char} (hName : OneLine name) (slot : Nat) : Inside (UcfGen.slotComment name slot) := by
  constructor
  · have hStart : OneLine "# ucfgen pin assignments for mezzanine ".toList ∧ OneLine " slot ".toList := by decide
    change OneLine ("# ucfgen pin assignments for mezzanine ".toList ++ name ++ " slot ".toList ++ Nat.toDigits 10 slot)
    simp only [oneLine_append]
    exact ⟨⟨⟨hStart.1, hName⟩, hStart.2⟩, oneLine_toDigits slot⟩
  · intro hEnd
    have hThird : 'u' = '<' := (List.cons.inj (List.cons.inj (List.cons.inj hEnd).2).2).1
    exact absurd hThird (by decide)

theorem inside_passes (h : Words u) {car : Carrier} (hCar : car ∈ u.carriers) {slot : Nat}
    {written : List (List (List Char))} (hWritten : u.passes car slotMappings slot = .ok written) :
    ∀ line ∈ written.flatten, Inside line := by
  induction slotMappings generalizing slot written with
  | nil =>
    cases hWritten
    exact fun _ hMem => absurd hMem List.not_mem_nil
  | cons mapping rest ih =>
    rcases UcfGen.passes_cons hWritten with ⟨-, more, hRest, rfl⟩ | ⟨name, mez, nets, more, -, hMez, hNets, hRest, rfl⟩
    · rw [List.flatten_cons, List.nil_append]
      exact ih hRest
    · obtain ⟨hMem, hName⟩ := findFirst_some hMez
      have hSame : mez.name = name := of_decide_eq_true hName
      intro line hLine
      rw [List.flatten_cons, List.cons_append] at hLine
      rcases List.mem_cons.mp hLine with rfl | hLine
      · exact inside_slotComment (hSame ▸ h.name mez hMem) slot
      · rcases List.mem_append.mp hLine with hNet | hMore
        · exact inside_netLines (h.pin car hCar) (h.port mez hMem) hNets line hNet
        · exact ih hRest line hMore

/-- Where the descriptions are made of words, a run adds one empty line to those of the user, and nothing else. -/
theorem userLines_generateUcf (h : Words u) (hOk : u.generateUcf file carrierName slotMappings = .ok out) :
    userLines (some out) = userLines file ++ [[]] := by
  obtain ⟨car, written, hCar, hWritten, hAny⟩ := generateUcf_ok hOk
  have hOut : unlines (userLines file ++ UcfGen.ours written) = out := Except.ok.inj ((hAny file).symm.trans hOk)
  have hInside := inside_passes h (findFirst_some hCar).1 hWritten
  have hMarks : ∀ line ∈ [startMark, [], UcfGen.notice], OneLine line := by decide +kernel
  have hLines : ∀ line ∈ marked written, OneLine line := by
    intro line hMem
    rcases List.mem_append.mp hMem with hMem | hLast
    · rcases List.mem_append.mp hMem with hFirst | hPass
      · exact hMarks line hFirst
      · exact (hInside line hPass).oneLine
    · rw [List.mem_singleton.mp hLast]
      decide
  have hRead : splitlines (unlines (marked written)) = marked written := by
    have hRead := splitlines_unlines hLines []
    rw [List.append_nil] at hRead
    rw [hRead]
    exact List.append_nil _
  have hHidden : ucfUser true (marked written) = [] := by
    have hEnd : endMark ∉ [[], UcfGen.notice] ++ written.flatten := by
      rw [List.mem_append, not_or]
      exact ⟨by decide, fun hMem => (hInside endMark hMem).beforeEnd rfl⟩
    change ucfUser true (startMark :: ([[], UcfGen.notice] ++ written.flatten ++ [endMark])) = []
    rw [ucfUser_startMark]
    exact ucfUser_hidden hEnd
  rw [← hOut, userLines_unlines, hRead, hHidden, List.append_nil]

theorem generateUcf_again (h : Words u) (hOk : u.generateUcf file carrierName slotMappings = .ok out) :
    ∃ written, out = unlines (userLines file ++ UcfGen.ours written) ∧
      u.generateUcf (some out) carrierName slotMappings = .ok (unlines (userLines file ++ [[]] ++ UcfGen.ours written)) := by
  obtain ⟨car, written, -, -, hAny⟩ := generateUcf_ok hOk
  refine ⟨written, Except.ok.inj (hOk.symm.trans (hAny file)), ?_⟩
  rw [hAny (some out), userLines_generateUcf h hOk]

theorem words_demo : Words ⟨[svec], [dds]⟩ where
  pin := by decide
  name := by decide
  port := by decide

/-- The second run puts one more empty line in front of the section. -/
theorem generate_twice :
    (∃ out, UcfGen.generateUcf ⟨[svec], [dds]⟩ (some []) (some svec.name) [some dds.name] = .ok out ∧
      UcfGen.generateUcf ⟨[svec], [dds]⟩ (some out) (some svec.name) [some dds.name] = .ok ('\n' :: out)) ∧
    ¬ ∀ (u : UcfGen) (text : List Char) (carrierName : Option (List Char)) (slotMappings : List (Option (List Char)))
        (out : List Char), u.generateUcf (some text) carrierName slotMappings = .ok out →
      u.generateUcf (some out) carrierName slotMappings = .ok out := by
  obtain ⟨out, hOut⟩ := generateUcf_demo (some [])
  have hAgain : UcfGen.generateUcf ⟨[svec], [dds]⟩ (some out) (some svec.name) [some dds.name] = .ok ('\n' :: out) := by
    obtain ⟨written, hText, hAgain⟩ := generateUcf_again words_demo hOut
    rw [hAgain, hText]
    rfl
  refine ⟨⟨out, hOut, hAgain⟩, fun hAlways => ?_⟩
  have hSame := hAlways ⟨[svec], [dds]⟩ [] (some svec.name) [some dds.name] out hOut
  have hLength := congrArg List.length (Except.ok.inj (hAgain.symm.trans hSame))
  rw [List.length_cons] at hLength
  exact absurd hLength (Nat.succ_ne_self out.length)

end WrRfDemo.Ucf

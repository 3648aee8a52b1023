import WrRfDemo.Text.Lines

/-! # The pin assignments

`ucfgen.py` keeps a section of a constraint file up to date: the lines outside the section are the user's, and the section
is written anew from the descriptions of the carrier and of the mezzanines in its slots.
-/

namespace WrRfDemo.Ucf

open Text

structure MezzaninePin where
  fmcLine : List Char
  portName : List Char
  ioStandard : List Char
deriving DecidableEq

structure CarrierPin where
  fmcSlot : Int
  fmcLine : List Char
  fpgaPin : List Char
deriving DecidableEq

structure Carrier where
  name : List Char
  numSlots : Int
  pins : List CarrierPin
deriving DecidableEq

structure Mezzanine where
  name : List Char
  pins : List MezzaninePin
deriving DecidableEq

structure UcfGen where
  carriers : List Carrier
  mezzanines : List Mezzanine
deriving DecidableEq

def findFirst {α : Type*} (cond : α → Bool) (l : List α) : Option α := (l.filter cond).head?

/-! ### The lines of the user -/

def startMark : List Char := "# <ucfgen_start>".toList

def endMark : List Char := "# <ucfgen_end>".toList

def ucfUser (usermode : Bool) : List (List Char) → List (List Char)
  | [] => []
  | l :: rest =>
    let usermode := usermode && l ≠ startMark
    (if usermode then [l] else []) ++ ucfUser (usermode || l = endMark) rest

/-- A file that cannot be opened has no lines. -/
def userLines : Option (List Char) → List (List Char)
  | none => []
  | some text => ucfUser true (splitlines text)

/-! ### The lines of the section -/

namespace Carrier

def slotStr (car : Carrier) (slot : Nat) : List Char := if 1 < car.numSlots then Nat.toDigits 10 slot else []

def findPin (car : Carrier) (fmcLine : List Char) (slot : Nat) : Option CarrierPin :=
  findFirst (fun f => f.fmcLine = fmcLine ∧ f.fmcSlot = slot) car.pins

def port (car : Carrier) (slot : Nat) (p : MezzaninePin) : List Char := replace '%' (car.slotStr slot) p.portName

def netLine (port keyword value : List Char) : List Char :=
  "NET \"".toList ++ port ++ "\" ".toList ++ keyword ++ " = \"".toList ++ value ++ "\";".toList

def netLines (car : Carrier) (slot : Nat) : List MezzaninePin → Except (List Char) (List (List Char))
  | [] => .ok []
  | p :: rest =>
    match car.findPin p.fmcLine slot with
    | none => .error ("Mezzanine FMC line ".toList ++ p.fmcLine ++ " not defined in the carrier description".toList)
    | some pCarrier => do
      let more ← car.netLines slot rest
      return netLine (car.port slot p) "LOC".toList pCarrier.fpgaPin ::
        netLine (car.port slot p) "IOSTANDARD".toList (p.ioStandard.map Char.toUpper) :: more

end Carrier

namespace UcfGen

def findMezzanine (u : UcfGen) (mapping : List Char) : Option Mezzanine := findFirst (fun mez => mez.name = mapping) u.mezzanines

def slotComment (mapping : List Char) (slot : Nat) : List Char :=
  "# ucfgen pin assignments for mezzanine ".toList ++ mapping ++ " slot ".toList ++ Nat.toDigits 10 slot

/-- The name that a mapping gives, unless it is empty. -/
def requested (mapping : Option (List Char)) : Option (List Char) := mapping.filter (· ≠ [])

/-- The lines of each pass. A pass over an empty mapping leaves the slot where it is. -/
def passes (u : UcfGen) (car : Carrier) : List (Option (List Char)) → Nat → Except (List Char) (List (List (List Char)))
  | [], _ => .ok []
  | mapping :: rest, slot =>
    match requested mapping with
    | none => do
      let more ← u.passes car rest slot
      return [] :: more
    | some name =>
      match u.findMezzanine name with
      | none => .error ("Unsupported mezzanine: ".toList ++ name ++ " ".toList)
      | some mez => do
        let nets ← car.netLines slot mez.pins
        let more ← u.passes car rest (slot + 1)
        return (slotComment name slot :: nets) :: more

def notice : List Char :=
  "# This section has bee generated automatically by ucfgen.py. Do not hand-modify if not really necessary.".toList

/-- The section begins with an empty line. -/
def ours (written : List (List (List Char))) : List (List Char) :=
  [[], startMark, [], notice] ++ written.flatten ++ [endMark]

/-- The text that the file holds afterwards. Nothing is written where an exception is raised. -/
def generateUcf (u : UcfGen) (file : Option (List Char)) (carrierName : Option (List Char))
    (slotMappings : List (Option (List Char))) : Except (List Char) (List Char) :=
  match findFirst (fun car => some car.name = carrierName) u.carriers with
  | none => .error ("Unsupported carrier: ".toList ++ carrierName.getD "None".toList)
  | some car => do
    let written ← u.passes car slotMappings 0
    return unlines (userLines file ++ ours written)

end UcfGen

/-! ### What a pass does -/

theorem findFirst_some {α : Type*} {cond : α → Bool} {l : List α} {x : α} (h : findFirst cond l = some x) : x ∈ l ∧ cond x = true :=
  List.mem_filter.mp (List.mem_of_mem_head? h)

theorem Carrier.netLines_cons {car : Carrier} {slot : Nat} {p : MezzaninePin} {rest : List MezzaninePin}
    {nets : List (List Char)} :
    car.netLines slot (p :: rest) = .ok nets ↔
      ∃ pCarrier more, car.findPin p.fmcLine slot = some pCarrier ∧ car.netLines slot rest = .ok more ∧
        nets = netLine (car.port slot p) "LOC".toList pCarrier.fpgaPin ::
          netLine (car.port slot p) "IOSTANDARD".toList (p.ioStandard.map Char.toUpper) :: more := by
  rw [netLines]
  cases hPin : car.findPin p.fmcLine slot with
  | none => simp
  | some pCarrier =>
    cases hRest : car.netLines slot rest with
    | error e => simp [bind, Except.bind]
    | ok more => simp [bind, Except.bind, pure, Except.pure, eq_comm]

theorem UcfGen.passes_cons {u : UcfGen} {car : Carrier} {mapping : Option (List Char)} {rest : List (Option (List Char))}
    {slot : Nat} {written : List (List (List Char))} (h : u.passes car (mapping :: rest) slot = .ok written) :
    (requested mapping = none ∧ ∃ more, u.passes car rest slot = .ok more ∧ written = [] :: more) ∨
      ∃ name mez nets more, requested mapping = some name ∧ u.findMezzanine name = some mez ∧
        car.netLines slot mez.pins = .ok nets ∧ u.passes car rest (slot + 1) = .ok more ∧
        written = (slotComment name slot :: nets) :: more := by
  rw [passes] at h
  cases hName : requested mapping with
  | none =>
    left
    cases hRest : u.passes car rest slot with
    | error e => simp [hName, hRest, bind, Except.bind] at h
    | ok more => simpa [hName, hRest, bind, Except.bind, pure, Except.pure, eq_comm] using h
  | some name =>
    right
    cases hMez : u.findMezzanine name with
    | none => simp [hName, hMez] at h
    | some mez =>
      cases hNets : car.netLines slot mez.pins with
      | error e => simp [hName, hMez, hNets, bind, Except.bind] at h
      | ok nets =>
        cases hRest : u.passes car rest (slot + 1) with
        | error e => simp [hName, hMez, hNets, hRest, bind, Except.bind] at h
        | ok more =>
          refine ⟨name, mez, nets, more, rfl, hMez, hNets, rfl, ?_⟩
          simpa [hName, hMez, hNets, hRest, bind, Except.bind, pure, Except.pure, eq_comm] using h

end WrRfDemo.Ucf

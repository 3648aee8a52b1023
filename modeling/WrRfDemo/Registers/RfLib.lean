import WrRfDemo.Registers.Host
import WrRfDemo.Speclib.Loader
import WrRfDemo.Spi.Adf4002

/-! # The functions of the driver library on the bus

What `rf_init` leaves in the registers, and which words `read_adc` and `write_tune` carry through the FIFOs.
-/

namespace WrRfDemo.Registers

open Clocked Spi Memory Speclib

/-! ### The registers by their addresses -/

def ddsRegCr : BitVec 32 := 0x00
def ddsRegGpior : BitVec 32 := 0x04
def ddsRegFreqHi : BitVec 32 := 0x08
def ddsRegFreqLo : BitVec 32 := 0x0c
def ddsRegGain : BitVec 32 := 0x10
def ddsRegRstr : BitVec 32 := 0x14
def ddsRegPir : BitVec 32 := 0x1c
def ddsRegDlyr : BitVec 32 := 0x20
def ddsRegMacl : BitVec 32 := 0x28
def ddsRegMach : BitVec 32 := 0x2c
def ddsRegPdFifoR0 : BitVec 32 := 0x40
def ddsRegPdFifoCsr : BitVec 32 := 0x44
def ddsRegTuneFifoR0 : BitVec 32 := 0x48
def ddsRegTuneFifoCsr : BitVec 32 := 0x4c

def csrEmpty : BitVec 32 := BitVec.twoPow 32 17

def csrFull : BitVec 32 := BitVec.twoPow 32 16

/-- `WBGEN2_GEN_WRITE`. -/
def genWrite (value : BitVec 32) (offset size : Nat) : BitVec 32 := (value &&& (((1 : BitVec 32) <<< size) - 1)) <<< offset

/-! ### The FIFOs -/

/-- `while(rf_readl(dev, adr) & mask);`, for as many reads at most. -/
def pollDown (adr mask : BitVec 32) (limit : Nat) : Prog Bool := .pollUntil (fun v => v &&& mask == 0) adr limit

def readAdc (limit : Nat) : Nat → Prog (Option (List (BitVec 32) × Int))
  | 0 => return some ([], -1)
  | n + 1 => do
    let ready ← pollDown ddsRegPdFifoCsr csrEmpty limit
    if ready then
      let v ← Program.load ddsRegPdFifoR0
      let rest ← readAdc limit n
      return rest.map fun r => ((v &&& 0xffff) :: r.1, r.2)
    else
      return none

def writeTune (limit : Nat) (tune : BitVec 32) : Prog (Option Unit) := do
  let ready ← pollDown ddsRegTuneFifoCsr csrFull limit
  if ready then
    Program.store ddsRegTuneFifoR0 tune
    return some ()
  else
    return none

def writeTunes (limit : Nat) : List (BitVec 32) → Prog (Option Unit)
  | [] => return some ()
  | tune :: rest => do
    let r ← writeTune limit tune
    if r = none then return none else writeTunes limit rest

/-! ### Setting up -/

inductive Mode
  | master | slave | test
deriving DecidableEq

def resetCore : Prog Unit := do
  Program.store ddsRegRstr 1
  Program.store ddsRegRstr 0
  Program.store ddsRegRstr 2
  Program.store ddsRegRstr 0

/-- `set_center_freq`, behind its floating point. -/
def setCenterFreq (tune : BitVec 64) : Prog Unit := do
  Program.store ddsRegFreqHi ((tune >>> 32).setWidth 32)
  Program.store ddsRegFreqLo (tune.setWidth 32)

/-- `ki_q` and `kp_q`: 1024 * 0.0000005 and 0.05, times 65536, truncated. -/
def kiQ : BitVec 32 := 33

def kpQ : BitVec 32 := 3276

def enterMode (bcid : BitVec 32) : Mode → Prog Unit
  | .master => do
    Program.store ddsRegPir (genWrite kiQ 16 16 ||| genWrite kpQ 0 16)
    Program.store ddsRegCr ((4 : BitVec 32) ||| genWrite bcid 16 16)
  | .slave => do
    Program.store ddsRegRstr 2
    Program.store ddsRegRstr 0
    Program.store ddsRegDlyr 10000
    Program.store ddsRegCr (genWrite bcid 16 16 ||| 2)
  | .test => return ()

/-- `rf_init` behind the loader, with the two words that it prints. -/
def rfSettings (tune : BitVec 64) (mode : Mode) (bcid : BitVec 32) : Prog (BitVec 32 × BitVec 32) := do
  setCenterFreq tune
  (portGpio.adf4002Configure 2 2 4).at ddsRegGpior
  Program.store ddsRegGain 3000
  Program.store ddsRegMach 0x0800
  Program.store ddsRegMacl 0x30618689
  let mach ← Program.load ddsRegMach
  let macl ← Program.load ddsRegMacl
  enterMode bcid mode
  return (mach, macl)

/-- `rf_init`, with the core's registers as the first bus and the rest of the card as the second. What the loader returns is ignored;
none where it goes on polling. -/
def rfInit (limit : Nat) (beyond : Nat → BitVec 8) (file : Option (List (BitVec 8))) (tune : BitVec 64) (mode : Mode)
    (bcid : BitVec 32) : Program (BitVec 32 ⊕ BitVec 32) (BitVec 32) (Option (BitVec 32 × BitVec 32)) := do
  let _ ← (Program.load 0).moved .inr
  (Program.store ddsRegCr 0).moved .inl
  resetCore.moved .inl
  let loaded ← (specLoadLm32 0xc0000 limit beyond file).moved .inr
  match loaded with
  | none => return none
  | some _ => do
    let mac ← (rfSettings tune mode bcid).moved .inl
    return some mac

/-! ### Polling -/

theorem and_twoPow_eq_zero_iff {k : Nat} (hk : k < 32) (v : BitVec 32) :
    (v &&& BitVec.twoPow 32 k == 0) = true ↔ v.getLsbD k = false := by
  rw [beq_iff_eq, BitVec.and_twoPow]
  cases hBit : v.getLsbD k with
  | false => exact ⟨fun _ => rfl, fun _ => rfl⟩
  | true =>
    refine ⟨fun hZero => ?_, fun hOther => absurd hOther (by decide)⟩
    have hOne := congrArg (fun w => w.getLsbD k) hZero
    simp [hk] at hOne

/-! ### The test FIFO -/

def Taken (t : Nat) (m : Card) : Prop := m.pd.taken = t

theorem stable_taken (t : Nat) : Stable Card.device (Taken t) :=
  fun _ _ hTaken hMoves => hMoves.pd.2.trans hTaken

theorem stable_content : Stable Card.device fun m => m.pd.content ≠ [] :=
  fun _ _ hSome hMoves => hMoves.pd.content_ne_nil hSome

theorem regAt_pdFifoCsr : regAt ddsRegPdFifoCsr = .pdFifoCsr := rfl

theorem meets_pollDown_empty (t limit : Nat) :
    Meets Card.device (Taken t) (pollDown ddsRegPdFifoCsr csrEmpty limit)
      fun ready m => Taken t m ∧ (ready = true → m.pd.content ≠ []) := by
  apply meets_pollUntil (stable_taken t) stable_content
  rintro m v m' hTaken hAccess
  refine ⟨?_, fun hDown => ?_⟩
  · rw [hAccess.after]
    exact hTaken
  · rw [hAccess.after]
    have hFlag := (and_twoPow_eq_zero_iff (by decide) v).mp hDown
    exact fun hNone => Bool.eq_false_iff.mp hFlag ((hAccess.empty regAt_pdFifoCsr).mpr hNone)

theorem and_setWidth {v : BitVec 32} {x : BitVec 16} (h : field 0 16 v = x) : v &&& 0xffff = x.setWidth 32 := by
  have hMask : ∀ k < 32, (0xffff : BitVec 32).getLsbD k = decide (k < 16) := by decide
  apply BitVec.eq_of_getLsbD_eq
  intro k hk
  rw [BitVec.getLsbD_and, hMask k hk, ← h]
  by_cases hLow : k < 16 <;> simp [field, hLow, hk]

/-- The word at a place of the FIFO's history, in a word of the bus. -/
def Shown (t : Nat) (v : BitVec 32) (m : Card) : Prop := ∃ x, m.pd.written[t]? = some x ∧ v &&& 0xffff = x.setWidth 32

theorem getElem?_of_prefix {α : Type} {l l' : List α} (h : l <+: l') {t : Nat} {x : α} (hx : l[t]? = some x) :
    l'[t]? = some x := by
  obtain ⟨rest, rfl⟩ := h
  rw [List.getElem?_append_left, hx]
  exact (List.getElem?_eq_some_iff.mp hx).1

theorem written_after (we : Bool) (r : Reg) (dat : BitVec 32) (m : Card) : (m.after we r dat).pd.written = m.pd.written := by
  rw [Card.after]
  split_ifs <;> rfl

theorem lasting_shown (t : Nat) (v : BitVec 32) : Lasting Card.device (Shown t v) := by
  constructor
  · rintro adr m w m' ⟨x, hAt, hShown⟩ hAccess
    rw [hAccess.after]
    exact ⟨x, (congrArg (·[t]?) (written_after ..)).trans hAt, hShown⟩
  · rintro adr data m m' ⟨x, hAt, hShown⟩ ⟨w, hAccess⟩
    rw [hAccess.after]
    exact ⟨x, (congrArg (·[t]?) (written_after ..)).trans hAt, hShown⟩
  · rintro m m' ⟨x, hAt, hShown⟩ hMoves
    exact ⟨x, getElem?_of_prefix hMoves.pd.1 hAt, hShown⟩

theorem lasting_written (l : List (BitVec 16)) : Lasting Card.device fun m => l <+: m.pd.written := by
  constructor
  · rintro adr m w m' hPrefix hAccess
    rw [hAccess.after, written_after]
    exact hPrefix
  · rintro adr data m m' hPrefix ⟨w, hAccess⟩
    rw [hAccess.after, written_after]
    exact hPrefix
  · rintro m m' hPrefix hMoves
    exact hPrefix.trans hMoves.pd.1

theorem meets_load_pd (t : Nat) :
    Meets Card.device (fun m => Taken t m ∧ m.pd.content ≠ []) (Program.load ddsRegPdFifoR0)
      fun v m => Taken (t + 1) m ∧ Shown t v m := by
  apply meets_load ((stable_taken t).and stable_content) (fun v => (stable_taken (t + 1)).and (lasting_shown t v).move)
  rintro m v m' ⟨hTaken, hSome⟩ hAccess
  have hAccess' : Card.Access false .pdFifoR0 0 m v m' := hAccess
  obtain ⟨x, hHead⟩ : ∃ x, m.pd.content.head? = some x := by
    cases hContent : m.pd.content with
    | nil => exact absurd hContent hSome
    | cons x rest => exact ⟨x, rfl⟩
  rw [hAccess'.after]
  refine ⟨(Fifo.taken_take_one hSome).trans (congrArg (· + 1) hTaken), x, ?_, and_setWidth (hAccess'.word rfl x hHead)⟩
  rw [written_after, ← hTaken]
  exact Fifo.head_content hHead

structure ReadFrom (t : Nat) (buffer : List (BitVec 32)) (m : Card) : Prop where
  taken : m.pd.taken = t + buffer.length
  words : buffer = ((m.pd.written.drop t).take buffer.length).map (BitVec.setWidth 32)

theorem ReadFrom.cons {t : Nat} {v : BitVec 32} {rest : List (BitVec 32)} {m : Card} (h : ReadFrom (t + 1) rest m)
    (hShown : Shown t v m) : ReadFrom t ((v &&& 0xffff) :: rest) m := by
  obtain ⟨x, hAt, hWord⟩ := hShown
  obtain ⟨hLt, hEq⟩ := List.getElem?_eq_some_iff.mp hAt
  constructor
  · rw [h.taken, List.length_cons]
    omega
  · rw [List.drop_eq_getElem_cons hLt, List.length_cons, List.take_succ_cons, List.map_cons, hEq, ← hWord, ← h.words]

theorem stable_readFrom (t : Nat) (buffer : List (BitVec 32)) : Stable Card.device (ReadFrom t buffer) := by
  rintro m m' hRead hMoves
  obtain ⟨later, hLater⟩ := hMoves.pd.1
  have hTaken := hRead.taken
  have hLe := m.pd.taken_le
  refine ⟨hMoves.pd.2.trans hTaken, ?_⟩
  rw [← hLater, List.drop_append_of_le_length (by omega), List.take_append_of_le_length]
  · exact hRead.words
  · rw [List.length_drop]
    omega

/-- However the polling goes, the words come in order, each once, and `n` has come to -1. -/
theorem meets_readAdc (limit n t : Nat) :
    Meets Card.device (Taken t) (readAdc limit n)
      fun r m => ∀ buffer k, r = some (buffer, k) → k = -1 ∧ buffer.length = n ∧ ReadFrom t buffer m := by
  induction n generalizing t with
  | zero =>
    refine meets_done (stable_taken t) fun m hTaken => ?_
    rintro buffer k hSome
    obtain ⟨rfl, rfl⟩ : [] = buffer ∧ -1 = k := by simpa using hSome
    exact ⟨rfl, rfl, hTaken, rfl⟩
  | succ n ih =>
    refine (meets_pollDown_empty t limit).bind fun ready => ?_
    cases ready with
    | false =>
      rintro m r m' - hDoes buffer k hSome
      rw [(does_done hDoes).1] at hSome
      exact absurd hSome (by simp)
    | true =>
      have hLoad : Meets Card.device (fun m => Taken t m ∧ (true = true → m.pd.content ≠ []))
          (Program.load ddsRegPdFifoR0) fun v m => Taken (t + 1) m ∧ Shown t v m :=
        (meets_load_pd t).mono (fun _ h => ⟨h.1, h.2 rfl⟩) fun _ _ h => h
      refine hLoad.bind fun v => ((ih (t + 1)).frame (lasting_shown t v)).bind fun rest => ?_
      apply meets_done
      · refine Stable.and (stable_forall fun buffer => stable_forall fun k => Stable.imp ?_ _) (lasting_shown t v).move
        exact (stable_const _ _).and ((stable_const _ _).and (stable_readFrom (t + 1) buffer))
      · rintro m ⟨hRest, hShown⟩ buffer k hSome
        cases rest with
        | none => exact absurd hSome (by simp)
        | some r =>
          obtain ⟨rfl, rfl⟩ : (v &&& 0xffff) :: r.1 = buffer ∧ r.2 = k := by simpa using hSome
          obtain ⟨hK, hLength, hRead⟩ := hRest r.1 r.2 rfl
          exact ⟨hK, by rw [List.length_cons, hLength], hRead.cons hShown⟩

def Holds (n : Nat) (m : Card) : Prop := n ≤ m.pd.content.length

theorem stable_holds (n : Nat) : Stable Card.device (Holds n) :=
  fun _ _ hHolds hMoves => Nat.le_trans hHolds hMoves.pd.length_content_le

/-- The words that are there are read without polling. -/
theorem meets_readAdc_returns (limit n : Nat) :
    Meets Card.device (Holds n) (readAdc (limit + 1) n) fun r _ => r ≠ none := by
  induction n with
  | zero => exact meets_done (stable_holds 0) fun _ _ => Option.some_ne_none _
  | succ n ih =>
    have hPoll : Meets Card.device (Holds (n + 1)) (pollDown ddsRegPdFifoCsr csrEmpty (limit + 1))
        fun ready m => Holds (n + 1) m ∧ ready = true := by
      refine meets_pollUntil_once (stable_holds (n + 1)) (fun m v m' hHolds hAccess => ?_) limit
      have hSome : m.pd.content ≠ [] := List.length_pos_iff.mp (Nat.lt_of_lt_of_le n.succ_pos hHolds)
      have hFlag : v.getLsbD 17 = false := Bool.eq_false_iff.mpr fun hUp => hSome ((hAccess.empty regAt_pdFifoCsr).mp hUp)
      refine ⟨?_, (and_twoPow_eq_zero_iff (by decide) v).mpr hFlag⟩
      rw [hAccess.after]
      exact hHolds
    refine hPoll.bind fun ready => ?_
    cases ready with
    | false =>
      rintro m r m' ⟨-, hOther⟩
      exact absurd hOther Bool.false_ne_true
    | true =>
      have hLoad : Meets Card.device (fun m => Holds (n + 1) m ∧ true = true) (Program.load ddsRegPdFifoR0)
          fun _ => Holds n := by
        apply meets_load ((stable_holds (n + 1)).and (stable_const _ _)) (fun _ => stable_holds n)
        rintro m v m' ⟨hHolds, -⟩ hAccess
        have hAccess' : Card.Access false .pdFifoR0 0 m v m' := hAccess
        have hSome : m.pd.content ≠ [] := List.length_pos_iff.mp (Nat.lt_of_lt_of_le n.succ_pos hHolds)
        rw [hAccess'.after, Holds]
        change n ≤ (m.pd.take 1).content.length
        rw [Fifo.content, List.length_drop, Fifo.taken_take_one hSome]
        rw [Holds, Fifo.content, List.length_drop] at hHolds
        change n ≤ m.pd.written.length - (m.pd.taken + 1)
        omega
      refine hLoad.bind fun v => ih.bind fun rest => ?_
      refine meets_done (fun _ _ h _ => h) fun m hSome => ?_
      cases rest with
      | none => exact absurd rfl hSome
      | some r => exact Option.some_ne_none _

variable {ports : Ports} (around : Nat → SysIn) (gap : Nat → Nat) {s : Host ports}

/-- With any gaps on the bus and any polling, `read_adc` puts the next words of the FIFO into the buffer, in order and each
once, takes no other, and returns -1; it ends at once where the words are there. -/
theorem readAdc_on_bus (hPorts : ports.Obey) (hResting : Resting s.slave) (limit n : Nat) :
    ∃ r s', (readAdc limit n).run (Host.bus around gap) s = some (r, s') ∧ Resting s'.slave ∧
      s.card.pd.written <+: s'.card.pd.written ∧
      (∀ buffer k, r = some (buffer, k) →
        k = -1 ∧ buffer = ((s'.card.pd.written.drop s.card.pd.taken).take n).map (BitVec.setWidth 32) ∧ buffer.length = n ∧
          s'.card.pd.taken = s.card.pd.taken + n) ∧
      (0 < limit → n ≤ s.card.pd.content.length → r ≠ none) := by
  have hMeets := (meets_readAdc limit n s.card.pd.taken).frame (lasting_written s.card.pd.written)
  obtain ⟨r, s', hRun, hEnd, hRead, hPrefix⟩ :=
    (host_implements around gap hPorts).meets hMeets hResting ⟨rfl, List.prefix_rfl⟩
  refine ⟨r, s', hRun, hEnd, hPrefix, fun buffer k hSome => ?_, fun hLimit hHolds => ?_⟩
  · obtain ⟨hK, rfl, hWords⟩ := hRead buffer k hSome
    exact ⟨hK, hWords.words, rfl, hWords.taken⟩
  · obtain ⟨limit, rfl⟩ := Nat.exists_eq_add_one_of_ne_zero (Nat.ne_of_gt hLimit)
    obtain ⟨r', s'', hRun', -, hSome⟩ :=
      (host_implements around gap hPorts).meets (meets_readAdc_returns limit n) hResting hHolds
    obtain ⟨rfl, rfl⟩ : r' = r ∧ s'' = s' := by simpa [hRun] using hRun'.symm
    exact hSome

theorem readAdc_on_bus_two :
    let s : Host (testPorts fun _ => [7]) := .reset (⟨[4, 5, 6], 1, by decide⟩, 0) .empty
    ∃ s', (readAdc 1 2).run (Host.bus (fun _ => quietCycle) fun _ => 3) s = some (some ([5, 6], -1), s') := by
  intro s
  have hReset : Resting s.slave := resting_reset
  obtain ⟨r, s', hRun, -, ⟨later, hLater⟩, hWords, hReturns⟩ :=
    readAdc_on_bus (fun _ => quietCycle) (fun _ => 3) (testPorts_obey _) hReset 1 2
  have hSome : r ≠ none := hReturns (by decide) (by decide)
  obtain ⟨⟨buffer, k⟩, rfl⟩ := Option.ne_none_iff_exists'.mp hSome
  obtain ⟨rfl, hBuffer, -⟩ := hWords buffer k rfl
  rw [← hLater] at hBuffer
  have hTwo : buffer = [5, 6] := hBuffer
  rw [hTwo] at hRun
  exact ⟨s', hRun⟩

/-! ### The tuning FIFO -/

def Written (l : List (BitVec 32)) (m : Card) : Prop := m.tune.written = l

theorem stable_written (l : List (BitVec 32)) : Stable Card.device (Written l) :=
  fun _ _ hWritten hMoves => hMoves.tune.1.trans hWritten

theorem stable_room : Stable Card.device fun m => m.tune.content.length < fifoSize :=
  fun _ _ hRoom hMoves => Nat.lt_of_le_of_lt hMoves.tune.length_content_le hRoom

theorem meets_writeTune (limit : Nat) (tune : BitVec 32) (l : List (BitVec 32)) :
    Meets Card.device (Written l) (writeTune limit tune)
      fun r m => Written (if r = none then l else l ++ [tune]) m := by
  have hPoll : Meets Card.device (Written l) (pollDown ddsRegTuneFifoCsr csrFull limit)
      fun ready m => Written l m ∧ (ready = true → m.tune.content.length < fifoSize) := by
    apply meets_pollUntil (stable_written l) stable_room
    rintro m v m' hWritten hAccess
    have hAccess' : Card.Access false .tuneFifoCsr 0 m v m' := hAccess
    rw [hAccess'.after]
    refine ⟨hWritten, fun hDown => Nat.not_le.mp fun hFull => ?_⟩
    exact Bool.eq_false_iff.mp ((and_twoPow_eq_zero_iff (by decide) v).mp hDown) ((hAccess'.full rfl).mpr hFull)
  refine hPoll.bind fun ready => ?_
  cases ready with
  | false =>
    exact meets_done ((stable_written l).and (stable_room.imp _)) fun m h => h.1
  | true =>
    have hStore : Meets Card.device (fun m => Written l m ∧ (true = true → m.tune.content.length < fifoSize))
        (Program.store ddsRegTuneFifoR0 tune) fun _ => Written (l ++ [tune]) := by
      apply meets_store ((stable_written l).and (stable_room.imp _)) (stable_written (l ++ [tune]))
      rintro m m' ⟨hWritten, hRoom⟩ ⟨v, hAccess⟩
      have hAccess' : Card.Access true .tuneFifoR0 tune m v m' := hAccess
      have hTune : (m.after true .tuneFifoR0 tune).tune = m.tune.put [tune] := if_pos ⟨rfl, rfl, hRoom rfl⟩
      rw [hAccess'.after, Written, hTune]
      exact congrArg (· ++ [tune]) hWritten
    refine hStore.bind fun _ => meets_done (stable_written _) fun m hWritten => ?_
    exact hWritten

/-- The words go in in order, each once, up to the call that has not returned. -/
theorem meets_writeTunes (limit : Nat) (tunes l : List (BitVec 32)) :
    Meets Card.device (Written l) (writeTunes limit tunes)
      fun r m => ∃ sent, sent <+: tunes ∧ Written (l ++ sent) m ∧ (r ≠ none → sent = tunes) := by
  induction tunes generalizing l with
  | nil =>
    refine meets_done (stable_written l) fun m hWritten => ⟨[], List.prefix_rfl, ?_, fun _ => rfl⟩
    rwa [List.append_nil]
  | cons tune rest ih =>
    refine (meets_writeTune limit tune l).bind fun r => ?_
    split_ifs with hNone
    · refine meets_done (stable_written l) fun m hWritten => ⟨[], List.nil_prefix, ?_, fun hSome => absurd rfl hSome⟩
      rwa [List.append_nil]
    · refine (ih (l ++ [tune])).mono (fun _ h => h) ?_
      rintro r' m ⟨sent, hSent, hWritten, hAll⟩
      refine ⟨tune :: sent, List.cons_prefix_cons.mpr ⟨rfl, hSent⟩, ?_, fun hSome => congrArg _ (hAll hSome)⟩
      rwa [List.append_cons]

def Room (n : Nat) (m : Card) : Prop := m.tune.content.length + n ≤ fifoSize

theorem stable_holds_room (n : Nat) : Stable Card.device (Room n) := by
  rintro m m' hRoom hMoves
  have hLess := hMoves.tune.length_content_le
  rw [Room] at hRoom ⊢
  omega

theorem meets_writeTunes_returns (limit : Nat) (tunes : List (BitVec 32)) :
    Meets Card.device (Room tunes.length) (writeTunes (limit + 1) tunes) fun r _ => r ≠ none := by
  induction tunes with
  | nil => exact meets_done (stable_holds_room _) fun _ _ => Option.some_ne_none _
  | cons tune rest ih =>
    have hPoll : Meets Card.device (Room (rest.length + 1)) (pollDown ddsRegTuneFifoCsr csrFull (limit + 1))
        fun ready m => Room (rest.length + 1) m ∧ ready = true := by
      refine meets_pollUntil_once (stable_holds_room _) (fun m v m' hRoom hAccess => ?_) limit
      have hAccess' : Card.Access false .tuneFifoCsr 0 m v m' := hAccess
      have hNotFull : ¬fifoSize ≤ m.tune.content.length := by
        rw [Room] at hRoom
        omega
      have hFlag : v.getLsbD 16 = false := Bool.eq_false_iff.mpr fun hUp => hNotFull ((hAccess'.full rfl).mp hUp)
      refine ⟨?_, (and_twoPow_eq_zero_iff (by decide) v).mpr hFlag⟩
      rw [hAccess'.after]
      exact hRoom
    have hWrite : Meets Card.device (Room (rest.length + 1)) (writeTune (limit + 1) tune)
        fun r m => r ≠ none ∧ Room rest.length m := by
      refine hPoll.bind fun ready => ?_
      cases ready with
      | false =>
        rintro m r m' ⟨-, hOther⟩
        exact absurd hOther Bool.false_ne_true
      | true =>
        have hStore : Meets Card.device (fun m => Room (rest.length + 1) m ∧ true = true)
            (Program.store ddsRegTuneFifoR0 tune) fun _ => Room rest.length := by
          apply meets_store ((stable_holds_room _).and (stable_const _ _)) (stable_holds_room _)
          rintro m m' ⟨hRoom, -⟩ ⟨v, hAccess⟩
          have hAccess' : Card.Access true .tuneFifoR0 tune m v m' := hAccess
          rw [Room] at hRoom
          have hTune : (m.after true .tuneFifoR0 tune).tune = m.tune.put [tune] := if_pos ⟨rfl, rfl, by omega⟩
          rw [hAccess'.after, Room, hTune, Fifo.length_content_put, List.length_singleton]
          omega
        refine hStore.bind fun _ => meets_done (stable_holds_room _) fun m hRoom => ?_
        exact ⟨Option.some_ne_none _, hRoom⟩
    refine hWrite.bind fun r => ?_
    split_ifs with hNone
    · rintro m r m' ⟨hSome, -⟩
      exact absurd hNone hSome
    · exact ih.mono (fun _ h => h.2) fun _ _ h => h

/-- With any gaps on the bus and any polling, calls of `write_tune` put their words into the FIFO in order and each once,
whatever the reference clock takes from it; they all return where there is room. -/
theorem writeTunes_on_bus (hPorts : ports.Obey) (hResting : Resting s.slave) (limit : Nat) (tunes : List (BitVec 32)) :
    ∃ r s', (writeTunes limit tunes).run (Host.bus around gap) s = some (r, s') ∧ Resting s'.slave ∧
      (∃ sent, sent <+: tunes ∧ s'.card.tune.written = s.card.tune.written ++ sent ∧ (r ≠ none → sent = tunes)) ∧
      (0 < limit → s.card.tune.content.length + tunes.length ≤ fifoSize → r ≠ none) := by
  obtain ⟨r, s', hRun, hEnd, hWritten⟩ :=
    (host_implements around gap hPorts).meets (meets_writeTunes limit tunes s.card.tune.written) hResting rfl
  refine ⟨r, s', hRun, hEnd, hWritten, fun hLimit hRoom => ?_⟩
  obtain ⟨limit, rfl⟩ := Nat.exists_eq_add_one_of_ne_zero (Nat.ne_of_gt hLimit)
  obtain ⟨r', s'', hRun', -, hSome⟩ :=
    (host_implements around gap hPorts).meets (meets_writeTunes_returns limit tunes) hResting hRoom
  obtain ⟨rfl, rfl⟩ : r' = r ∧ s'' = s' := by simpa [hRun] using hRun'.symm
  exact hSome

theorem writeTunes_on_bus_two :
    let s : Host (testPorts fun _ => []) := .reset (.empty, 0) .empty
    ∃ s', (writeTunes 1 [15000, 16000]).run (Host.bus (fun _ => quietCycle) fun _ => 3) s = some (some (), s') ∧
      s'.card.tune.written = [15000, 16000] := by
  intro s
  have hReset : Resting s.slave := resting_reset
  obtain ⟨r, s', hRun, -, ⟨sent, -, hWritten, hAll⟩, hReturns⟩ :=
    writeTunes_on_bus (fun _ => quietCycle) (fun _ => 3) (testPorts_obey _) hReset 1 [15000, 16000]
  have hSome : r ≠ none := hReturns (by decide) (by decide)
  obtain ⟨_, rfl⟩ := Option.ne_none_iff_exists'.mp hSome
  refine ⟨s', hRun, ?_⟩
  rw [hWritten, hAll hSome]
  rfl

/-! ### The registers after setting up -/

def Knows (l : List (Reg × BitVec 32)) (m : Card) : Prop := ∀ p ∈ l, m.memory p.1 = p.2

theorem stable_knows (l : List (Reg × BitVec 32)) : Stable Card.device (Knows l) := by
  rintro m m' hKnows hMoves p hp
  rw [hMoves.memory]
  exact hKnows p hp

theorem memory_after_write (r : Reg) (dat : BitVec 32) (m : Card) :
    (m.after true r dat).memory = Function.update m.memory r (dat &&& r.shown) := rfl

def without (r : Reg) (l : List (Reg × BitVec 32)) : List (Reg × BitVec 32) := l.filter fun p => p.1 ≠ r

theorem Knows.without {l : List (Reg × BitVec 32)} {m : Card} (h : Knows l m) (r : Reg) (x : BitVec 32) :
    ∀ p ∈ without r l, Function.update m.memory r x p.1 = p.2 := by
  rintro p hp
  obtain ⟨hMem, hNe⟩ := List.mem_filter.mp hp
  rw [Function.update_of_ne (by simpa using hNe)]
  exact h p hMem

theorem meets_store_knows {l : List (Reg × BitVec 32)} {adr dat x : BitVec 32} (hStored : dat &&& (regAt adr).shown = x) :
    Meets Card.device (Knows l) (Program.store adr dat)
      fun _ => Knows ((regAt adr, x) :: without (regAt adr) l) := by
  apply meets_store (stable_knows l) (stable_knows _)
  rintro m m' hKnows ⟨v, hAccess⟩ p hp
  rw [hAccess.after, memory_after_write, hStored]
  rcases List.mem_cons.mp hp with rfl | hOther
  · exact Function.update_self ..
  · exact hKnows.without _ _ p hOther

theorem meets_load_knows {l : List (Reg × BitVec 32)} {adr x : BitVec 32} (hIn : (regAt adr, x) ∈ l) :
    Meets Card.device (Knows l) (Program.load adr) fun v m => v &&& (regAt adr).shown = x ∧ Knows l m := by
  apply meets_load (stable_knows l) (fun v => (stable_const _ _).and (stable_knows l))
  rintro m v m' hKnows hAccess
  refine ⟨hAccess.memory.trans (hKnows _ hIn), ?_⟩
  rw [hAccess.after]
  exact hKnows

theorem meets_at_knows {α : Type} {l : List (Reg × BitVec 32)} {adr : BitVec 32} (hNone : ∀ p ∈ l, p.1 ≠ regAt adr)
    (d : Driver (BitVec 32) α) : Meets Card.device (Knows l) (d.at adr) fun _ => Knows l := by
  refine meets_at (stable_knows l) ?_ ?_ d
  · rintro m v m' hKnows hAccess
    rw [hAccess.after]
    exact hKnows
  · rintro data m m' hKnows ⟨v, hAccess⟩ p hp
    rw [hAccess.after, memory_after_write, Function.update_of_ne (hNone p hp)]
    exact hKnows p hp

theorem Knows.mono {l l' : List (Reg × BitVec 32)} {m : Card} (h : Knows l m) (hSub : ∀ p ∈ l', p ∈ l) : Knows l' m :=
  fun p hp => h p (hSub p hp)

theorem meets_resetCore : Meets Card.device (Knows [(.cr, 0)]) resetCore fun _ => Knows [(.rstr, 0), (.cr, 0)] := by
  have hPll : Meets Card.device (Knows [(.cr, 0)]) (Program.store ddsRegRstr 1)
    fun _ => Knows [(.rstr, 1), (.cr, 0)] := meets_store_knows rfl
  have hOff : ∀ x, Meets Card.device (Knows [(.rstr, x), (.cr, 0)]) (Program.store ddsRegRstr 0)
    fun _ => Knows [(.rstr, 0), (.cr, 0)] := fun _ => meets_store_knows rfl
  have hSoftware : Meets Card.device (Knows [(.rstr, 0), (.cr, 0)]) (Program.store ddsRegRstr 2)
    fun _ => Knows [(.rstr, 2), (.cr, 0)] := meets_store_knows rfl
  exact hPll.bind fun _ => (hOff 1).bind fun _ => hSoftware.bind fun _ => hOff 2

theorem regAt_gpior : regAt ddsRegGpior = .gpior := rfl

/-- The words that do not depend on the mode. -/
def common (tune : BitVec 64) : List (Reg × BitVec 32) :=
  [(.macl, 0x30618689), (.mach, 0x0800), (.gain, 3000), (.freqLo, tune.setWidth 32), (.freqHi, (tune >>> 32).setWidth 32),
    (.rstr, 0)]

def settings (tune : BitVec 64) (bcid : BitVec 32) : Mode → List (Reg × BitVec 32)
  | .master => (.cr, (4 : BitVec 32) ||| genWrite bcid 16 16) :: (.pir, 0x00210ccc) :: common tune
  | .slave => (.cr, genWrite bcid 16 16 ||| 2) :: (.dlyr, 10000) :: common tune
  | .test => (.cr, 0) :: common tune

theorem and_whole (x : BitVec 32) : x &&& 0xffffffff = x := BitVec.and_allOnes

theorem meets_setCenterFreq (tune : BitVec 64) :
    Meets Card.device (Knows [(.rstr, 0), (.cr, 0)]) (setCenterFreq tune)
      fun _ => Knows [(.freqLo, tune.setWidth 32), (.freqHi, (tune >>> 32).setWidth 32), (.rstr, 0), (.cr, 0)] := by
  have hHigh : Meets Card.device (Knows [(.rstr, 0), (.cr, 0)])
    (Program.store ddsRegFreqHi ((tune >>> 32).setWidth 32))
    fun _ => Knows [(.freqHi, (tune >>> 32).setWidth 32), (.rstr, 0), (.cr, 0)] := meets_store_knows (and_whole _)
  exact hHigh.bind fun _ => meets_store_knows (and_whole _)

/-- The words of `CR` keep their sixteen bits of the clock. -/
theorem genWrite_shown (bcid : BitVec 32) : genWrite bcid 16 16 &&& Reg.cr.shown = genWrite bcid 16 16 := by
  have hMask : ∀ k < 32, Reg.cr.shown.getLsbD k = (decide (k < 3) || decide (16 ≤ k)) := by decide
  apply BitVec.eq_of_getLsbD_eq
  intro k hk
  rw [BitVec.getLsbD_and, hMask k hk, genWrite, BitVec.getLsbD_shiftLeft]
  by_cases hHigh : 16 ≤ k
  · simp [hHigh]
  · simp [hk, Nat.lt_of_not_le hHigh]

theorem meets_enterMode (tune : BitVec 64) (bcid : BitVec 32) (mode : Mode) :
    Meets Card.device (Knows ((.cr, 0) :: common tune)) (enterMode bcid mode)
      fun _ => Knows (settings tune bcid mode) := by
  cases mode with
  | master =>
    have hPir : Meets Card.device (Knows ((.cr, 0) :: common tune))
      (Program.store ddsRegPir (genWrite kiQ 16 16 ||| genWrite kpQ 0 16))
      fun _ => Knows ((.pir, 0x00210ccc) :: (.cr, 0) :: common tune) := meets_store_knows rfl
    have hValue : ((4 : BitVec 32) ||| genWrite bcid 16 16) &&& (regAt ddsRegCr).shown = (4 : BitVec 32) ||| genWrite bcid 16 16 := by
      rw [BitVec.and_or_distrib_right]
      exact congrArg _ (genWrite_shown bcid)
    exact hPir.bind fun _ => meets_store_knows hValue
  | slave =>
    let rest := without .rstr (common tune)
    have hReset : Meets Card.device (Knows ((.cr, 0) :: common tune)) (Program.store ddsRegRstr 2)
      fun _ => Knows ((.rstr, 2) :: (.cr, 0) :: rest) := meets_store_knows rfl
    have hRun : Meets Card.device (Knows ((.rstr, 2) :: (.cr, 0) :: rest)) (Program.store ddsRegRstr 0)
      fun _ => Knows ((.rstr, 0) :: (.cr, 0) :: rest) := meets_store_knows rfl
    have hDelay : Meets Card.device (Knows ((.rstr, 0) :: (.cr, 0) :: rest)) (Program.store ddsRegDlyr 10000)
      fun _ => Knows ((.dlyr, 10000) :: (.rstr, 0) :: (.cr, 0) :: rest) := meets_store_knows rfl
    have hValue : (genWrite bcid 16 16 ||| 2) &&& (regAt ddsRegCr).shown = genWrite bcid 16 16 ||| 2 := by
      rw [BitVec.and_or_distrib_right]
      exact congrArg (· ||| (2 : BitVec 32)) (genWrite_shown bcid)
    have hCr : Meets Card.device (Knows ((.dlyr, 10000) :: (.rstr, 0) :: (.cr, 0) :: rest))
      (Program.store ddsRegCr (genWrite bcid 16 16 ||| 2))
      fun _ => Knows ((.cr, genWrite bcid 16 16 ||| 2) :: (.dlyr, 10000) :: (.rstr, 0) :: rest) := meets_store_knows hValue
    refine (hReset.bind fun _ => hRun.bind fun _ => hDelay.bind fun _ => hCr).mono (fun _ h => h) fun _ m h => ?_
    apply h.mono
    simp [settings, common, rest, without]
  | test => exact meets_done (stable_knows _) fun _ h => h

/-- The two words that `rf_init` prints, without the bits that the registers do not have. -/
def PrintsMac (r : BitVec 32 × BitVec 32) : Prop := r.1 &&& 0xffff = 0x0800 ∧ r.2 = 0x30618689

theorem meets_rfSettings (tune : BitVec 64) (mode : Mode) (bcid : BitVec 32) :
    Meets Card.device (Knows [(.rstr, 0), (.cr, 0)]) (rfSettings tune mode bcid)
      fun r m => PrintsMac r ∧ Knows (settings tune bcid mode) m := by
  let centre : List (Reg × BitVec 32) := [(.freqLo, tune.setWidth 32), (.freqHi, (tune >>> 32).setWidth 32), (.rstr, 0), (.cr, 0)]
  have hAdf : Meets Card.device (Knows centre) ((portGpio.adf4002Configure 2 2 4).at ddsRegGpior)
    fun _ => Knows centre := meets_at_knows (by simp [centre, regAt_gpior]) _
  have hGain : Meets Card.device (Knows centre) (Program.store ddsRegGain 3000)
    fun _ => Knows ((.gain, 3000) :: centre) := meets_store_knows rfl
  have hMach : Meets Card.device (Knows ((.gain, 3000) :: centre)) (Program.store ddsRegMach 0x0800)
    fun _ => Knows ((.mach, 0x0800) :: (.gain, 3000) :: centre) := meets_store_knows rfl
  have hMacl : Meets Card.device (Knows ((.mach, 0x0800) :: (.gain, 3000) :: centre))
    (Program.store ddsRegMacl 0x30618689)
    fun _ => Knows ((.macl, 0x30618689) :: (.mach, 0x0800) :: (.gain, 3000) :: centre) := meets_store_knows rfl
  have hPrintMach : Meets Card.device (Knows ((.macl, 0x30618689) :: (.mach, 0x0800) :: (.gain, 3000) :: centre))
    (Program.load ddsRegMach)
    fun v m => v &&& 0xffff = 0x0800 ∧ Knows ((.macl, 0x30618689) :: (.mach, 0x0800) :: (.gain, 3000) :: centre) m :=
    meets_load_knows (.tail _ (.head _))
  have hPrintMacl : Meets Card.device (Knows ((.macl, 0x30618689) :: (.mach, 0x0800) :: (.gain, 3000) :: centre))
    (Program.load ddsRegMacl)
    fun v m => v &&& 0xffffffff = 0x30618689 ∧
      Knows ((.macl, 0x30618689) :: (.mach, 0x0800) :: (.gain, 3000) :: centre) m := meets_load_knows (.head _)
  refine (meets_setCenterFreq tune).bind fun _ => hAdf.bind fun _ => hGain.bind fun _ => hMach.bind fun _ => hMacl.bind fun _ =>
    hPrintMach.bind fun mach => meets_pure fun hHigh => hPrintMacl.bind fun macl => meets_pure fun hLow => ?_
  have hMode : Meets Card.device (Knows ((.macl, 0x30618689) :: (.mach, 0x0800) :: (.gain, 3000) :: centre))
    (enterMode bcid mode) fun _ => Knows (settings tune bcid mode) :=
    (meets_enterMode tune bcid mode).mono (fun _ h => h.mono (by simp [common, centre])) fun _ _ h => h
  refine hMode.bind fun _ => meets_done (stable_knows _) fun m h => ⟨⟨hHigh, ?_⟩, h⟩
  exact (and_whole macl).symm.trans hLow

end WrRfDemo.Registers

import WrRfDemo.Dds.RxPath

/-! # Every FIFO entry is one received block

The assembly of a block survives a switch of slave mode only when nothing happens while the
mode is off: a pending write strobe is not cleared, and a word of the block that is being
assembled goes by unseen. A block of fewer than three words is completed with words of the
next one.
-/

namespace WrRfDemo.Dds

open Clocked

namespace RxPath

/-- The switch of slave mode neither holds a write strobe nor hides a word of the block being
assembled, and no new block begins before the third word of that block. -/
def Undisturbed (i : RxIn × BitVec 128) (s : RxPath) : Prop :=
  i.1.rstN = true →
    (i.1.crSlave = false → s.newSampleSys = false ∧ (s.state = .waitSample ∨ i.1.rxValid = false)) ∧
    (i.1.crSlave = true → s.state = .waitSample ∨ i.1.rxValid = false ∨ i.1.rxFirst = false)

instance (i : RxIn × BitVec 128) (s : RxPath) : Decidable (Undisturbed i s) :=
  inferInstanceAs (Decidable (_ → _))

end RxPath

namespace RxLog

variable {o : RxLog} {i : RxIn × BitVec 128} {s : RxPath}

def entries (o : RxLog) : List Entry := o.written.map unpack

/-- The entries that blocks stand for, in order. -/
def due (blocks : List (List RxWord)) : List Entry := blocks.filterMap entryOf

/-- What the registers hold of the block being received, and which blocks are written. -/
def Assembled (o : RxLog) (s : RxPath) : Prop :=
  match s.state with
  | .waitSample => (o.entries ++ if s.newSampleSys then [s.held] else []).Sublist (due o.blocks)
  | .acc => s.newSampleSys = false ∧ o.entries.Sublist (due o.closed) ∧
    ∃ w1, o.opened = [w1] ∧ s.taiSys = field 32 32 w1.data ∧ s.cyclesSys = field 0 28 w1.data
  | .tune => s.newSampleSys = false ∧ o.entries.Sublist (due o.closed) ∧
    ∃ w1 w2, o.opened = [w1, w2] ∧ s.taiSys = field 32 32 w1.data ∧
      s.cyclesSys = field 0 28 w1.data ∧ s.accSys = field 0 43 w2.data

theorem due_append (before after : List (List RxWord)) : due (before ++ after) = due before ++ due after :=
  List.filterMap_append

theorem due_closed_isPrefix (o : RxLog) : due o.closed <+: due o.blocks := by
  rw [blocks, due_append]
  exact List.prefix_append _ _

theorem due_extend_isPrefix (block more : List RxWord) : due [block] <+: due [block ++ more] := by
  match block with
  | [] | [_] | [_, _] => exact List.nil_prefix
  | w1 :: w2 :: w3 :: rest => exact List.prefix_refl _

theorem due_receive_isPrefix (word : RxWord) (first : Bool) (o : RxLog) :
    due o.blocks <+: due (o.receive word first).blocks := by
  unfold receive
  split_ifs with hFirst hNone
  · exact due_closed_isPrefix ⟨o.closed ++ [o.opened], [word], o.written⟩
  · simp [blocks, List.isEmpty_iff.mp hNone]
  · simp only [blocks, due_append]
    exact (List.prefix_append_right_inj _).mpr (due_extend_isPrefix o.opened [word])

theorem due_see_isPrefix (o : RxLog) (i : RxIn × BitVec 128) (s : RxPath) :
    due o.blocks <+: due (o.see i s).blocks := by
  unfold see
  split_ifs
  · exact due_receive_isPrefix _ _ _
  · exact List.prefix_refl _

theorem written_receive (word : RxWord) (first : Bool) (o : RxLog) :
    (o.receive word first).written = o.written := by
  unfold receive
  split_ifs <;> rfl

theorem entries_see (o : RxLog) (i : RxIn × BitVec 128) (s : RxPath) :
    (o.see i s).entries = o.entries ++ if i.1.rstN && s.newSampleSys then [s.held] else [] := by
  have hWritten : (o.see i s).written = o.written ++ (s.fifoWrite i.1 i.2).toList := by
    unfold see
    split_ifs <;> simp [written_receive]
  rw [entries, hWritten, List.map_append, RxPath.fifoWrite]
  split_ifs <;> simp [entries, unpack_fifoIn]

theorem opened_see (o : RxLog) (i : RxIn × BitVec 128) (s : RxPath) :
    (o.see i s).opened = if i.1.rxValid then
      (o.receive ⟨i.1.rxData, i.1.crClkId⟩ i.1.rxFirst).opened else o.opened := by
  unfold see
  split_ifs <;> rfl

theorem closed_see (o : RxLog) (i : RxIn × BitVec 128) (s : RxPath) :
    (o.see i s).closed = if i.1.rxValid then
      (o.receive ⟨i.1.rxData, i.1.crClkId⟩ i.1.rxFirst).closed else o.closed := by
  unfold see
  split_ifs <;> rfl

theorem Assembled.covered (h : o.Assembled s) :
    (o.entries ++ if s.newSampleSys then [s.held] else []).Sublist (due o.blocks) := by
  unfold Assembled at h
  cases hState : s.state with
  | waitSample => simpa only [hState] using h
  | acc | tune =>
    simp only [hState] at h
    obtain ⟨hNone, hEntries, -⟩ := h
    simpa [hNone] using hEntries.trans (due_closed_isPrefix o).sublist

theorem Assembled.entries_see (h : o.Assembled s) :
    (o.see i s).entries.Sublist (due (o.see i s).blocks) := by
  refine List.Sublist.trans ?_ (h.covered.trans (due_see_isPrefix o i s).sublist)
  rw [RxLog.entries_see]
  cases i.1.rstN <;> cases s.newSampleSys <;> simp

theorem Assembled.of_wait {next : RxPath} (h : o.Assembled s) (hState : next.state = .waitSample)
    (hNone : next.newSampleSys = false) : (o.see i s).Assembled next := by
  simp only [Assembled, hState, hNone]
  simpa using h.entries_see

theorem Assembled.of_idle {next : RxPath} (h : o.Assembled s) (hWord : i.1.rxValid = false)
    (hNone : s.newSampleSys = false) (hSame : next.state = s.state ∧ next.newSampleSys = false ∧
      next.held = s.held) : (o.see i s).Assembled next := by
  obtain ⟨hState, hStrobe, hHeld⟩ := hSame
  obtain ⟨hTai, hCycles, hAcc, -⟩ : next.taiSys = s.taiSys ∧ next.cyclesSys = s.cyclesSys ∧
    next.accSys = s.accSys ∧ next.tuneSys = s.tuneSys := by simpa [RxPath.held] using hHeld
  have hEntries : (o.see i s).entries = o.entries := by simp [RxLog.entries_see, hNone]
  have hOpened : (o.see i s).opened = o.opened := by simp [opened_see, hWord]
  have hClosed : (o.see i s).closed = o.closed := by simp [closed_see, hWord]
  unfold Assembled at h ⊢
  rw [hState]
  cases hCase : s.state <;>
    simp_all [blocks]

theorem Assembled.first (h : o.Assembled s) (hSlave : i.1.rstN = true ∧ i.1.crSlave = true)
    (hState : s.state = .waitSample) (hFirst : i.1.rxValid = true ∧ i.1.rxFirst = true) :
    (o.see i s).Assembled (s.pRxFsm i.1) := by
  have hNext : s.pRxFsm i.1 = { s with
      rxDreq := true, newSampleSys := false, state := .acc, taiSys := field 32 32 i.1.rxData,
      cyclesSys := field 0 28 i.1.rxData } := by
    simp [RxPath.pRxFsm, hSlave, hState, hFirst]
  rw [hNext]
  refine ⟨rfl, ?_, ⟨i.1.rxData, i.1.crClkId⟩, ?_, rfl, rfl⟩
  · have hClosed : (o.see i s).closed = o.blocks := by simp [closed_see, receive, blocks, hFirst]
    rw [hClosed, RxLog.entries_see, hSlave.1]
    exact h.covered
  · simp [opened_see, receive, hFirst]

theorem Assembled.second (h : o.Assembled s) (hSlave : i.1.rstN = true ∧ i.1.crSlave = true)
    (hState : s.state = .acc) (hWord : i.1.rxValid = true ∧ i.1.rxFirst = false) :
    (o.see i s).Assembled (s.pRxFsm i.1) := by
  have hNext : s.pRxFsm i.1 = { s with accSys := field 0 43 i.1.rxData, state := .tune } := by
    simp [RxPath.pRxFsm, hSlave, hState, hWord]
  simp only [Assembled, hState] at h
  obtain ⟨hNone, hEntries, w1, hOpened, hTai, hCycles⟩ := h
  rw [hNext]
  refine ⟨hNone, ?_, w1, ⟨i.1.rxData, i.1.crClkId⟩, ?_, hTai, hCycles, rfl⟩
  · have hClosed : (o.see i s).closed = o.closed := by simp [closed_see, receive, hWord]
    simpa [hClosed, RxLog.entries_see, hNone] using hEntries
  · simp [opened_see, receive, hWord, hOpened]

theorem Assembled.third (h : o.Assembled s) (hSlave : i.1.rstN = true ∧ i.1.crSlave = true)
    (hState : s.state = .tune) (hWord : i.1.rxValid = true ∧ i.1.rxFirst = false) :
    (o.see i s).Assembled (s.pRxFsm i.1) := by
  simp only [Assembled, hState] at h
  obtain ⟨hNone, hEntries, w1, w2, hOpened, hTai, hCycles, hAcc⟩ := h
  have hSame : (o.see i s).entries = o.entries := by simp [RxLog.entries_see, hNone]
  have hClosed : (o.see i s).closed = o.closed := by simp [closed_see, receive, hWord]
  have hBlock : (o.see i s).opened = [w1, w2, ⟨i.1.rxData, i.1.crClkId⟩] := by
    simp [opened_see, receive, hWord, hOpened]
  by_cases hMatch : field 32 16 i.1.rxData = i.1.crClkId
  · have hNext : s.pRxFsm i.1 = { s with
        tuneSys := field 0 18 i.1.rxData, state := .waitSample, rxCnt := s.rxCnt + 1,
        newSampleSys := !i.1.fifoFull } := by
      simp [RxPath.pRxFsm, hSlave, hState, hWord, hMatch]
    rw [hNext]
    simp only [Assembled, blocks, due_append, hSame, hClosed, hBlock]
    apply hEntries.append
    cases i.1.fifoFull <;> simp [due, entryOf, hMatch, RxPath.held, hTai, hCycles, hAcc]
  · have hNext : s.pRxFsm i.1 = { s with
        tuneSys := field 0 18 i.1.rxData, state := .waitSample } := by
      simp [RxPath.pRxFsm, hSlave, hState, hWord, hMatch]
    rw [hNext]
    simp only [Assembled, blocks, due_append, hSame, hClosed, hBlock, hNone]
    simpa [due, entryOf, hMatch] using hEntries

theorem Assembled.of_slave (h : o.Assembled s) (hSlave : i.1.rstN = true ∧ i.1.crSlave = true)
    (hWhole : s.state = .waitSample ∨ i.1.rxValid = false ∨ i.1.rxFirst = false) :
    (o.see i s).Assembled (s.pRxFsm i.1) := by
  cases hState : s.state with
  | waitSample =>
    cases hFirst : i.1.rxValid && i.1.rxFirst with
    | true => exact h.first hSlave hState (by simpa using hFirst)
    | false => apply h.of_wait <;> simp [RxPath.pRxFsm, hSlave, hState, hFirst]
  | acc | tune =>
    have hNone : s.newSampleSys = false := by
      simp only [Assembled, hState] at h
      exact h.1
    cases hValid : i.1.rxValid with
    | true =>
      have hFirst : i.1.rxFirst = false := by simpa [hState, hValid] using hWhole
      first
      | exact h.second hSlave hState ⟨hValid, hFirst⟩
      | exact h.third hSlave hState ⟨hValid, hFirst⟩
    | false => exact h.of_idle hValid hNone (by simp [RxPath.pRxFsm, hSlave, hState, hValid, hNone])

theorem Assembled.step (h : o.Assembled s) (hOk : RxPath.Undisturbed i s) :
    (o.see i s).Assembled (s.pRxFsm i.1) := by
  cases hRst : i.1.rstN with
  | false => apply h.of_wait <;> simp [RxPath.pRxFsm, hRst]
  | true =>
    obtain ⟨hOff, hOn⟩ := hOk hRst
    cases hSlave : i.1.crSlave with
    | true => exact h.of_slave ⟨hRst, hSlave⟩ (hOn hSlave)
    | false =>
      obtain ⟨hNone, hStill⟩ := hOff hSlave
      rcases hStill with hState | hWord
      · apply h.of_wait <;> simp [RxPath.pRxFsm, hRst, hSlave, hState, hNone]
      · exact h.of_idle hWord hNone (by simp [RxPath.pRxFsm, RxPath.held, hRst, hSlave, hNone])

theorem assembled_reset (i : RxIn) (hRst : i.rstN = false) (s : RxPath) :
    empty.Assembled (s.pRxFsm i) := by
  simp [Assembled, RxPath.pRxFsm, hRst, entries, empty]

end RxLog

/-- From any reset on, while slave mode is switched between blocks only and every block has
three words, the entries written are those of some of the received blocks, in order, each
block written at most once. -/
theorem entries_of_blocks (s : RxPath) (i : RxIn) (hRst : i.rstN = false)
    (inputs : List (RxIn × BitVec 128))
    (hAlong : Along (fun i s => RxPath.pRxFsm i.1 s) RxPath.Undisturbed inputs (s.pRxFsm i)) :
    let log := (run (watch (fun i s => RxPath.pRxFsm i.1 s) RxLog.see) inputs
      (RxLog.empty, s.pRxFsm i)).1
    (log.written.map unpack).Sublist (log.blocks.filterMap entryOf) := by
  have hStep : ∀ o i s, RxLog.Assembled o s → RxPath.Undisturbed i s →
      RxLog.Assembled (o.see i s) (s.pRxFsm i.1) := fun _ _ _ h hOk => h.step hOk
  have hEnd := watch_invariant hStep inputs (RxLog.assembled_reset i hRst s) hAlong
  exact (List.sublist_append_left _ _).trans hEnd.covered

/-! ### Slave mode switched inside a block -/

def rxQuiet (crSlave : Bool) : RxIn × BitVec 128 := (⟨true, crSlave, 7, false, false, 0, false⟩, 0)

def rxWord (crSlave first : Bool) (data : BitVec 64) : RxIn × BitVec 128 :=
  (⟨true, crSlave, 7, true, first, data, false⟩, 0)

/-- Two blocks of four words; slave mode is off in the cycles that `off` names. -/
def twoBlocks (off : List Nat) : List (RxIn × BitVec 128) :=
  let words := [0x100000001, 1, 0x700000001, 0x700000001, 0x200000002, 2, 0x700000002, 0x700000002]
  (words.zipIdx.map fun w => rxWord (!off.contains w.2) (w.2 % 4 == 0) w.1) ++ [rxQuiet true, rxQuiet true]

def rxPowerUp : RxPath := ⟨.tune, 0, 0, 0, 0, true, 0, false⟩

def rxLogOf (inputs : List (RxIn × BitVec 128)) : RxLog :=
  (run (watch (fun i s => RxPath.pRxFsm i.1 s) RxLog.see) inputs
    (RxLog.empty, rxPowerUp.pRxFsm { (rxQuiet true).1 with rstN := false })).1

theorem entries_of_blocks_secondOnly :
    ((rxLogOf (twoBlocks [0, 1])).written.map unpack).Sublist
      ((rxLogOf (twoBlocks [0, 1])).blocks.filterMap entryOf) ∧
    (rxLogOf (twoBlocks [0, 1])).written.map unpack = [⟨2, 2, 2, 2⟩] :=
  ⟨entries_of_blocks rxPowerUp { (rxQuiet true).1 with rstN := false } rfl (twoBlocks [0, 1])
    (by decide +kernel), by decide +kernel⟩

/-- Off for four cycles after the first word of the first block, the slave writes that word's
time with the second block's phase; off for the cycle after a third word, it writes twice. -/
theorem entries_mixed_or_repeated :
    (rxLogOf (twoBlocks [1, 2, 3, 4])).written.map unpack = [⟨1, 1, 2, 2⟩] ∧
    (rxLogOf (twoBlocks [3])).written.map unpack = [⟨1, 1, 1, 1⟩, ⟨1, 1, 1, 1⟩, ⟨2, 2, 2, 2⟩] ∧
    ¬ ∀ inputs : List (RxIn × BitVec 128), ((rxLogOf inputs).written.map unpack).Sublist
      ((rxLogOf inputs).blocks.filterMap entryOf) := by
  have hMixed : (rxLogOf (twoBlocks [1, 2, 3, 4])).written.map unpack = [⟨1, 1, 2, 2⟩] := by
    decide +kernel
  have hTwice : (rxLogOf (twoBlocks [3])).written.map unpack =
    [⟨1, 1, 1, 1⟩, ⟨1, 1, 1, 1⟩, ⟨2, 2, 2, 2⟩] := by decide +kernel
  refine ⟨hMixed, hTwice, fun h => ?_⟩
  have hLength := (h (twoBlocks [3])).length_le
  rw [hTwice] at hLength
  revert hLength
  decide +kernel

end WrRfDemo.Dds

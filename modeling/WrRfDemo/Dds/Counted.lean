import WrRfDemo.Dds.Assembly

/-! # A slave that stays on writes every block

With slave mode on throughout and room in the FIFO, counting the entries turns the inclusion
of the written entries in the received blocks into an equality.
-/

namespace WrRfDemo.Dds

open Clocked

namespace RxLog

variable {o : RxLog} {i : RxIn × BitVec 128} {s : RxPath}

/-- Every block with a matching id has its entry written, or pending. -/
structure Counted (o : RxLog) (s : RxPath) : Prop where
  count : o.entries.length + (if s.newSampleSys then 1 else 0) = (due o.blocks).length
  settled : s.state = .waitSample → o.opened.length ≠ 1 ∧ o.opened.length ≠ 2

/-- The entry that the next word completes. -/
def completed (o : RxLog) (word : RxWord) (first : Bool) : List Entry :=
  if !first && o.opened.length = 2 then due [o.opened ++ [word]] else []

theorem due_receive (word : RxWord) (first : Bool) (o : RxLog) :
    due (o.receive word first).blocks = due o.blocks ++ o.completed word first := by
  obtain ⟨closed, opened, written⟩ := o
  cases first with
  | true => simp [receive, blocks, completed, due, entryOf, List.filterMap_cons]
  | false =>
    rcases opened with _ | ⟨w1, _ | ⟨w2, _ | ⟨w3, rest⟩⟩⟩ <;>
      simp [receive, blocks, completed, due, entryOf, List.filterMap_cons]

/-- The slave is on, out of reset, and the FIFO has room. -/
structure Serving (i : RxIn) : Prop where
  rstN : i.rstN = true
  crSlave : i.crSlave = true
  fifoFull : i.fifoFull = false

theorem length_entries_see (hServing : Serving i.1) :
    (o.see i s).entries.length = o.entries.length + if s.newSampleSys then 1 else 0 := by
  rw [entries_see, hServing.rstN]
  cases s.newSampleSys <;> simp

theorem blocks_see_of_idle (hWord : i.1.rxValid = false) :
    (o.see i s).blocks = o.blocks ∧ (o.see i s).opened = o.opened := by
  simp [blocks, closed_see, opened_see, hWord]

theorem blocks_see_of_word (hWord : i.1.rxValid = true) :
    (o.see i s).blocks = (o.receive ⟨i.1.rxData, i.1.crClkId⟩ i.1.rxFirst).blocks := by
  simp [blocks, closed_see, opened_see, hWord]

theorem Assembled.length_opened (h : o.Assembled s) :
    (s.state = .acc → o.opened.length = 1 ∧ s.newSampleSys = false) ∧
      (s.state = .tune → o.opened.length = 2 ∧ s.newSampleSys = false) := by
  constructor <;> intro hState <;> simp only [Assembled, hState] at h
  · obtain ⟨hNone, -, w1, hOpened, -⟩ := h
    simp [hOpened, hNone]
  · obtain ⟨hNone, -, w1, w2, hOpened, -⟩ := h
    simp [hOpened, hNone]

theorem Counted.of_idle (h : Counted o s) (hAssembled : o.Assembled s) (hServing : Serving i.1)
    (hWord : i.1.rxValid = false) : Counted (o.see i s) (s.pRxFsm i.1) := by
  obtain ⟨hBlocks, hOpened⟩ := blocks_see_of_idle (o := o) (s := s) hWord
  obtain ⟨hAcc, hTune⟩ := hAssembled.length_opened
  have hNext : (s.pRxFsm i.1).newSampleSys = false ∧ (s.pRxFsm i.1).state = s.state := by
    cases hState : s.state with
    | waitSample => simp [RxPath.pRxFsm, hServing.rstN, hServing.crSlave, hState, hWord]
    | acc => simp [RxPath.pRxFsm, hServing.rstN, hServing.crSlave, hState, hWord, hAcc hState]
    | tune => simp [RxPath.pRxFsm, hServing.rstN, hServing.crSlave, hState, hWord, hTune hState]
  constructor
  · rw [length_entries_see hServing, hBlocks, hNext.1, h.count]
    rfl
  · rw [hOpened, hNext.2]
    exact h.settled

theorem Counted.of_word (h : Counted o s) (hAssembled : o.Assembled s) (hServing : Serving i.1)
    (hOk : RxPath.Undisturbed i s) (hWord : i.1.rxValid = true) :
    Counted (o.see i s) (s.pRxFsm i.1) := by
  obtain ⟨hAcc, hTune⟩ := hAssembled.length_opened
  have hFirst := (hOk hServing.rstN).2 hServing.crSlave
  have hOpened := opened_see o i s
  rw [hWord, if_pos rfl] at hOpened
  have hStep : (s.pRxFsm i.1).newSampleSys = false → o.completed ⟨i.1.rxData, i.1.crClkId⟩ i.1.rxFirst = [] →
      (o.see i s).entries.length + (if (s.pRxFsm i.1).newSampleSys then 1 else 0) =
        (due (o.see i s).blocks).length := by
    intro hNone hNothing
    rw [length_entries_see hServing, blocks_see_of_word hWord, due_receive, hNothing, hNone, h.count]
    simp
  cases hState : s.state with
  | waitSample =>
    obtain ⟨hNotOne, hNotTwo⟩ := h.settled hState
    refine ⟨hStep ?_ (by simp [completed, hNotTwo]), ?_⟩
    · cases hMark : i.1.rxFirst <;>
        simp [RxPath.pRxFsm, hServing.rstN, hServing.crSlave, hState, hWord, hMark]
    · cases hMark : i.1.rxFirst with
      | true => simp [RxPath.pRxFsm, hServing.rstN, hServing.crSlave, hState, hWord, hMark]
      | false =>
        intro _
        rw [hOpened, hMark, receive, if_neg (by decide)]
        cases hEmpty : o.opened.isEmpty with
        | true => simp
        | false =>
          have hSome : o.opened.length ≠ 0 := by
            intro hZero
            simp [List.length_eq_zero_iff.mp hZero] at hEmpty
          rw [if_neg (by decide), List.length_append, List.length_singleton]
          omega
  | acc =>
    have hMark : i.1.rxFirst = false := by simpa [hState, hWord] using hFirst
    obtain ⟨hLength, hNone⟩ := hAcc hState
    refine ⟨hStep ?_ (by simp [completed, hLength]), ?_⟩ <;>
      simp [RxPath.pRxFsm, hServing.rstN, hServing.crSlave, hState, hWord, hNone]
  | tune =>
    have hMark : i.1.rxFirst = false := by simpa [hState, hWord] using hFirst
    obtain ⟨hLength, hNone⟩ := hTune hState
    constructor
    · obtain ⟨w1, w2, hTwo⟩ := List.length_eq_two.mp hLength
      rw [length_entries_see hServing, blocks_see_of_word hWord, due_receive, hNone]
      have hCount := h.count
      rw [hNone] at hCount
      by_cases hMatch : field 32 16 i.1.rxData = i.1.crClkId <;>
        simp [RxPath.pRxFsm, hServing.rstN, hServing.crSlave, hServing.fifoFull, hState, hWord, hMatch,
          completed, hTwo, hMark, due, entryOf, hNone] <;>
        simpa [due] using hCount
    · intro _
      have hSome : o.opened.isEmpty = false := by
        cases hEmpty : o.opened with
        | nil => simp [hEmpty] at hLength
        | cons w rest => rfl
      rw [hOpened, hMark, receive, if_neg (by decide)]
      simp [hSome, hLength]

theorem Counted.step (h : Counted o s) (hAssembled : o.Assembled s) (hServing : Serving i.1)
    (hOk : RxPath.Undisturbed i s) : Counted (o.see i s) (s.pRxFsm i.1) := by
  cases hWord : i.1.rxValid with
  | true => exact h.of_word hAssembled hServing hOk hWord
  | false => exact h.of_idle hAssembled hServing hWord

theorem Counted.entries (h : Counted o s) (hAssembled : o.Assembled s) :
    (o.entries ++ if s.newSampleSys then [s.held] else []) = due o.blocks := by
  apply hAssembled.covered.eq_of_length
  rw [List.length_append, ← h.count]
  cases s.newSampleSys <;> rfl

end RxLog

end WrRfDemo.Dds

import WrRfDemo.Streamer.EscapeInserter

/-! # Escaping under back-pressure

The inserter with insertion enabled, between a source that presents a symbol only after a request
and a sink that asks when it likes. While the second word of an escaped symbol waits for the sink,
the request to the source is up again as soon as the sink asks, and a symbol that the source then
presents is lost.
-/

namespace WrRfDemo.Streamer

open Clocked

structure Symbol where
  escape : Bool
  data : BitVec 16
deriving DecidableEq

def Symbol.words (x : Symbol) : List (BitVec 16) :=
  if x.escape then [escapeCode, x.data] else if x.data = escapeCode then [escapeCode, 0] else [x.data]

def wordsOf (symbols : List Symbol) : List (BitVec 16) := symbols.flatMap Symbol.words

theorem wordsOf_append (before after : List Symbol) : wordsOf (before ++ after) = wordsOf before ++ wordsOf after :=
  List.flatMap_append

theorem words_pos (x : Symbol) : 0 < x.words.length := by
  unfold Symbol.words
  split_ifs
  · exact Nat.zero_lt_two
  · exact Nat.zero_lt_two
  · exact Nat.zero_lt_one

namespace InserterIn

def symbols (i : InserterIn) : List Symbol := if i.dValid then [⟨i.dEscape, i.d⟩] else []

def On (i : InserterIn) : Prop := i.rstN = true ∧ i.dInsertEnable = true

def Ready (i : InserterIn) : Prop := i.On ∧ i.dValid = false ∧ i.dReq = true

end InserterIn

def symbolsOf (inputs : List InserterIn) : List Symbol := inputs.flatMap InserterIn.symbols

/-- The source presents a symbol only in a cycle after a request. -/
def Obeys (asked : Bool) : List InserterIn → Prop
  | [] => True
  | i :: rest => (i.dValid = true → asked = true) ∧ Obeys i.dReqO rest

namespace EscapeInserter

def sends (i : InserterIn) (s : EscapeInserter) : List (BitVec 16) := if s.dValidO i then [s.dO i] else []

def sent : List InserterIn → EscapeInserter → List (BitVec 16)
  | [], _ => []
  | i :: rest, s => s.sends i ++ sent rest (s.pFsm i)

/-- The sink is given a word only in a cycle after it has asked. -/
def Answers (asked : Bool) : List InserterIn → EscapeInserter → Prop
  | [], _ => True
  | i :: rest, s => (s.dValidO i = true → asked = true) ∧ Answers i.dReq rest (s.pFsm i)

/-- The second word of the last symbol, if it is still to be sent. -/
def held (s : EscapeInserter) : List (BitVec 16) := if s.state = .insertEscape then [s.dPrev] else []

/-- The symbols that are not passed over. -/
def taken : List InserterIn → EscapeInserter → List Symbol
  | [], _ => []
  | i :: rest, s => (if s.state = .idle then i.symbols else []) ++ taken rest (s.pFsm i)

/-- No symbol is presented while a second word waits. -/
def Free (i : InserterIn) (s : EscapeInserter) : Prop := i.dValid = true → s.state = .idle

instance (i : InserterIn) (s : EscapeInserter) : Decidable (s.Free i) := inferInstanceAs (Decidable (_ → _))

variable {i : InserterIn} {s : EscapeInserter} {inputs : List InserterIn}

theorem sends_append_held (hOn : i.On) :
    s.held ++ wordsOf (if s.state = .idle then i.symbols else []) = s.sends i ++ (s.pFsm i).held := by
  obtain ⟨hRst, hEnable⟩ := hOn
  cases hState : s.state with
  | idle =>
    cases hValid : i.dValid with
    | false => simp [held, sends, pFsm, dValidO, InserterIn.symbols, wordsOf, hState, hRst, hEnable, hValid]
    | true =>
      cases hEscape : i.dEscape with
      | true =>
        simp [held, sends, pFsm, dValidO, dO, InserterIn.symbols, wordsOf, Symbol.words, hState, hRst, hEnable,
          hValid, hEscape]
      | false =>
        rcases eq_or_ne i.d escapeCode with hCode | hPlain
        · simp [held, sends, pFsm, dValidO, dO, InserterIn.symbols, wordsOf, Symbol.words, hState, hRst, hEnable,
            hValid, hEscape, hCode]
        · simp [held, sends, pFsm, dValidO, dO, InserterIn.symbols, wordsOf, Symbol.words, hState, hRst, hEnable,
            hValid, hEscape, hPlain]
  | insertEscape =>
    cases hAsked : s.dReqPrev <;>
      simp [held, sends, pFsm, dValidO, dO, wordsOf, hState, hRst, hEnable, hAsked]

theorem sent_append_held (hOn : ∀ i ∈ inputs, i.On) :
    s.held ++ wordsOf (taken inputs s) = sent inputs s ++ (run pFsm inputs s).held := by
  induction inputs generalizing s with
  | nil => simp [taken, sent, wordsOf]
  | cons i rest ih =>
    rw [taken, wordsOf_append, ← List.append_assoc, sends_append_held (hOn i List.mem_cons_self), List.append_assoc,
      ih fun j hj => hOn j (List.mem_cons_of_mem i hj), sent, List.append_assoc, run_cons]

theorem taken_of_free (h : Along pFsm Free inputs s) : taken inputs s = symbolsOf inputs := by
  induction inputs generalizing s with
  | nil => rfl
  | cons i rest ih =>
    rw [taken, symbolsOf, List.flatMap_cons, ih h.2]
    cases hValid : i.dValid with
    | false => simp [InserterIn.symbols, hValid, symbolsOf]
    | true =>
      rw [if_pos (h.1 hValid)]
      rfl

theorem length_taken (inputs : List InserterIn) (s : EscapeInserter) :
    (wordsOf (taken inputs s)).length ≤ (wordsOf (symbolsOf inputs)).length ∧
      ((wordsOf (taken inputs s)).length = (wordsOf (symbolsOf inputs)).length → Along pFsm Free inputs s) := by
  induction inputs generalizing s with
  | nil => exact ⟨Nat.le_refl _, fun _ => trivial⟩
  | cons i rest ih =>
    obtain ⟨hLe, hAlong⟩ := ih (s.pFsm i)
    have hSymbols : symbolsOf (i :: rest) = i.symbols ++ symbolsOf rest := rfl
    rw [taken, hSymbols, wordsOf_append, wordsOf_append, List.length_append, List.length_append]
    cases hState : s.state with
    | idle =>
      rw [if_pos rfl]
      exact ⟨Nat.add_le_add_left hLe _, fun hSame => ⟨fun _ => hState, hAlong (Nat.add_left_cancel hSame)⟩⟩
    | insertEscape =>
      rw [if_neg (by decide)]
      cases hValid : i.dValid with
      | false =>
        have hNone : i.symbols = [] := by simp [InserterIn.symbols, hValid]
        rw [hNone]
        refine ⟨Nat.add_le_add_left hLe _, fun hSame => ⟨fun hNot => ?_, hAlong (Nat.add_left_cancel hSame)⟩⟩
        rw [hValid] at hNot
        cases hNot
      | true =>
        have hOne : wordsOf i.symbols = (⟨i.dEscape, i.d⟩ : Symbol).words := by simp [InserterIn.symbols, hValid, wordsOf]
        have hPos := words_pos ⟨i.dEscape, i.d⟩
        rw [hOne]
        simp only [wordsOf, List.flatMap_nil, List.length_nil, Nat.zero_add] at hLe ⊢
        exact ⟨by omega, fun hSame => by omega⟩

/-! ### Coming to rest -/

theorem pFsm_ready (h : i.Ready) :
    (s.state = .idle ∨ s.dReqPrev = true → (s.pFsm i).state = .idle) ∧ (s.pFsm i).dReqPrev = true := by
  obtain ⟨⟨hRst, hEnable⟩, hValid, hReq⟩ := h
  cases hState : s.state <;> cases hAsked : s.dReqPrev <;>
    simp [pFsm, hRst, hEnable, hValid, hReq, hState, hAsked]

theorem state_of_rest (inputs : List InserterIn) (hReady : ∀ i ∈ inputs, i.Ready) (hIdle : s.state = .idle) :
    (run pFsm inputs s).state = .idle := by
  induction inputs generalizing s with
  | nil => exact hIdle
  | cons i rest ih =>
    exact ih (fun j hj => hReady j (List.mem_cons_of_mem i hj)) ((pFsm_ready (hReady i List.mem_cons_self)).1 (.inl hIdle))

theorem held_of_rest (hReady : ∀ i ∈ inputs, i.Ready) (hLong : 2 ≤ inputs.length) : (run pFsm inputs s).held = [] := by
  obtain ⟨i, j, rest, rfl⟩ : ∃ i j rest, inputs = i :: j :: rest := by
    match inputs, hLong with
    | i :: j :: rest, _ => exact ⟨i, j, rest, rfl⟩
  obtain ⟨hFirst, hSecond⟩ := List.forall_mem_cons.mp hReady
  obtain ⟨hSecond, hRest⟩ := List.forall_mem_cons.mp hSecond
  have hDone : ((s.pFsm i).pFsm j).state = .idle := (pFsm_ready hSecond).1 (.inr (pFsm_ready hFirst).2)
  rw [held, run_cons, run_cons, state_of_rest rest hRest hDone, if_neg (by decide)]

theorem symbolsOf_ready (hReady : ∀ i ∈ inputs, i.Ready) : symbolsOf inputs = [] :=
  List.flatMap_eq_nil_iff.mpr fun i hi => by simp [InserterIn.symbols, (hReady i hi).2.1]

/-! ### The encoding -/

/-- The words are those of the symbols: at all times a beginning of them, and all of them once the
source and the sink have been idle and ready for two cycles; and the sink has asked for each. -/
structure Encodes (inputs : List InserterIn) (s : EscapeInserter) : Prop where
  isPrefix : ∀ before after, inputs = before ++ after → sent before s <+: wordsOf (symbolsOf before)
  settles : ∀ rest, 2 ≤ rest.length → (∀ i ∈ rest, i.Ready) → sent (inputs ++ rest) s = wordsOf (symbolsOf inputs)
  answers : Answers false inputs s

theorem answers_of_obeys {asked askedSource : Bool} (hOn : ∀ i ∈ inputs, i.On) (hSource : Obeys askedSource inputs)
    (hAsked : askedSource = true → asked = true) (hPrev : s.dReqPrev = asked) : Answers asked inputs s := by
  induction inputs generalizing s asked askedSource with
  | nil => trivial
  | cons i rest ih =>
    obtain ⟨hRst, hEnable⟩ := hOn i List.mem_cons_self
    refine ⟨fun hOut => ?_, ih (fun j hj => hOn j (List.mem_cons_of_mem i hj)) hSource.2 (fun hReq => ?_) ?_⟩
    · unfold dValidO at hOut
      split_ifs at hOut
      · exact hAsked (hSource.1 hOut)
      · rw [← hPrev, hOut]
    · exact (Bool.and_eq_true_iff.mp hReq).1
    · have hOff : ¬(!i.rstN || !i.dInsertEnable) = true := by simp [hRst, hEnable]
      unfold pFsm
      rw [if_neg hOff]
      cases s.state with
      | idle =>
        dsimp only
        split_ifs <;> rfl
      | insertEscape =>
        dsimp only
        split_ifs <;> rfl

/-- With nothing held at the start, what is sent of the symbols taken falls short by what is held. -/
theorem wordsOf_taken (hIdle : s.state = .idle) (hOn : ∀ i ∈ inputs, i.On) :
    wordsOf (taken inputs s) = sent inputs s ++ (run pFsm inputs s).held := by
  have hEmpty : s.held = [] := by simp [held, hIdle]
  rw [← sent_append_held hOn, hEmpty, List.nil_append]

def restCycle : InserterIn := ⟨true, 0, true, false, false, true⟩

theorem ready_restCycle : restCycle.Ready := ⟨⟨rfl, rfl⟩, rfl, rfl⟩

/-- The words sent are the symbols presented if and only if no symbol is presented while the second
word of the one before waits. -/
theorem encodes_iff (hIdle : s.state = .idle) (hQuiet : s.dReqPrev = false) (hOn : ∀ i ∈ inputs, i.On)
    (hSource : Obeys false inputs) : Encodes inputs s ↔ Along pFsm Free inputs s := by
  have hOnRest : ∀ rest : List InserterIn, (∀ i ∈ rest, i.Ready) → ∀ i ∈ inputs ++ rest, i.On := by
    intro rest hReady i hi
    rcases List.mem_append.mp hi with hOld | hNew
    · exact hOn i hOld
    · exact (hReady i hNew).1
  constructor
  · intro h
    let rest := [restCycle, restCycle]
    have hReady : ∀ i ∈ rest, i.Ready := by
      intro i hi
      obtain rfl : i = restCycle := by simpa [rest] using hi
      exact ready_restCycle
    have hAll := wordsOf_taken hIdle (hOnRest rest hReady)
    rw [run_append, held_of_rest hReady (Nat.le_refl 2), List.append_nil, h.settles rest (Nat.le_refl 2) hReady] at hAll
    have hSymbols : symbolsOf (inputs ++ rest) = symbolsOf inputs := by
      rw [symbolsOf, List.flatMap_append, ← symbolsOf, ← symbolsOf, symbolsOf_ready hReady, List.append_nil]
    have hFree := (length_taken (inputs ++ rest) s).2 (by rw [hAll, hSymbols])
    exact (along_append.mp hFree).1
  · intro hFree
    refine ⟨?_, ?_, answers_of_obeys hOn hSource (fun hAsked => hAsked) hQuiet⟩
    · rintro before after rfl
      have hBefore := wordsOf_taken hIdle fun i hi => hOn i (List.mem_append_left after hi)
      rw [taken_of_free (along_append.mp hFree).1] at hBefore
      exact ⟨_, hBefore.symm⟩
    · intro rest hLong hReady
      have hRest : Along pFsm Free rest (run pFsm inputs s) := by
        refine along_of_forall (fun i hi _ hValid => ?_) _
        rw [(hReady i hi).2.1] at hValid
        cases hValid
      have hAll := wordsOf_taken hIdle (hOnRest rest hReady)
      rw [taken_of_free (along_append.mpr ⟨hFree, hRest⟩), run_append, held_of_rest hReady hLong, List.append_nil,
        symbolsOf, List.flatMap_append, ← symbolsOf, ← symbolsOf, symbolsOf_ready hReady, List.append_nil] at hAll
      exact hAll.symm

/-! ### A stall behind an escaped symbol -/

def presents (escape : Bool) (d : BitVec 16) (dReq : Bool) : InserterIn := ⟨true, d, true, escape, true, dReq⟩

def pauses (dReq : Bool) : InserterIn := ⟨true, 0, true, false, false, dReq⟩

def idleInserter : EscapeInserter := ⟨.idle, 0, false⟩

theorem encodes_stalled :
    Encodes [pauses true, presents true 1 false, pauses false, pauses true, pauses true, presents false 2 true] idleInserter :=
  (encodes_iff rfl rfl (by simp [pauses, presents, InserterIn.On]) (by simp [Obeys, pauses, presents, InserterIn.dReqO, InserterIn.twoWords])).mpr
    (by decide)

/-- The sink stalls for one cycle while the escaped symbol is presented: the next symbol is lost. -/
theorem symbol_lost :
    sent ([pauses true, presents true 1 false, pauses true, presents false 2 true] ++ [restCycle, restCycle]) idleInserter =
      [escapeCode, 1] ∧
    ¬ ∀ inputs : List InserterIn, (∀ i ∈ inputs, i.On) → Obeys false inputs → Encodes inputs idleInserter := by
  have hSent : sent ([pauses true, presents true 1 false, pauses true, presents false 2 true] ++ [restCycle, restCycle])
      idleInserter = [escapeCode, 1] := by decide
  refine ⟨hSent, fun h => ?_⟩
  have hEncodes := h [pauses true, presents true 1 false, pauses true, presents false 2 true]
    (by simp [pauses, presents, InserterIn.On]) (by simp [Obeys, pauses, presents, InserterIn.dReqO, InserterIn.twoWords, escapeCode])
  have hSettles := hEncodes.settles [restCycle, restCycle] (Nat.le_refl 2) (by simp [ready_restCycle])
  rw [hSent] at hSettles
  exact absurd hSettles (by decide)

end EscapeInserter

end WrRfDemo.Streamer

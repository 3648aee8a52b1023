import WrRfDemo.Streamer.HandOver

/-! # Lost subframes

A header is behind a gap when its number is not the one after that of the header before. The state
machine goes on expecting the number it was surprised by, so it flags the header after a gap
unless that repeats the number; and nothing drives `rx_lost_o`.
-/

namespace WrRfDemo.Streamer

open Clocked

/-! ### Sequence numbers -/

/-- Where the numbers have gaps, when the first should be `expected`. -/
def gaps (expected : BitVec 15) : List (BitVec 15) → List Bool
  | [] => []
  | q :: rest => (q != expected) :: gaps (q + 1) rest

/-- What is expected after this number. -/
def expectedNext (expected q : BitVec 15) : BitVec 15 := if expected ≠ q then q else expected + 1

def lostFlags (expected : BitVec 15) : List (BitVec 15) → List Bool
  | [] => []
  | q :: rest => (q != expected) :: lostFlags (expectedNext expected q) rest

/-- After each gap comes neither the number before it again nor its successor. -/
def GapsFollowed (expected : BitVec 15) : List (BitVec 15) → Prop
  | [] => True
  | q :: rest => (q ≠ expected → ∀ next ∈ rest.head?, next ≠ q ∧ next ≠ q + 1) ∧ GapsFollowed (q + 1) rest

theorem ne_succ (q : BitVec 15) : q ≠ q + 1 := by
  intro hSame
  simp at hSame

theorem expectedNext_self (q : BitVec 15) : expectedNext q q = q + 1 := if_neg (not_not_intro rfl)

theorem expectedNext_of_ne {expected q : BitVec 15} (h : q ≠ expected) : expectedNext expected q = q := if_pos h.symm

/-- Behind a gap, where the state machine expects the same number again. -/
theorem lostFlags_after_gap (q : BitVec 15) (rest : List (BitVec 15)) :
    lostFlags q rest = gaps (q + 1) rest ↔
      (∀ next ∈ rest.head?, next ≠ q ∧ next ≠ q + 1) ∧ GapsFollowed (q + 1) rest := by
  induction rest generalizing q with
  | nil => simp [lostFlags, gaps, GapsFollowed]
  | cons next more ih =>
    simp only [lostFlags, gaps, GapsFollowed, List.cons.injEq, List.head?_cons, Option.mem_some_iff, forall_eq']
    rcases eq_or_ne next q with rfl | hNotSame
    · rw [bne_self_eq_false, bne_iff_ne.mpr (ne_succ next)]
      simp
    · rcases eq_or_ne next (q + 1) with rfl | hNotNext
      · rw [bne_self_eq_false, bne_iff_ne.mpr hNotSame]
        simp
      · rw [bne_iff_ne.mpr hNotSame, bne_iff_ne.mpr hNotNext, expectedNext_of_ne hNotSame, ih]
        exact ⟨fun h => ⟨⟨hNotSame, hNotNext⟩, fun _ => h.2.1, h.2.2⟩, fun h => ⟨rfl, h.2.1 hNotNext, h.2.2⟩⟩

theorem lostFlags_eq_gaps_iff (expected : BitVec 15) (seqNos : List (BitVec 15)) :
    lostFlags expected seqNos = gaps expected seqNos ↔ GapsFollowed expected seqNos := by
  induction seqNos generalizing expected with
  | nil => simp [lostFlags, gaps, GapsFollowed]
  | cons q rest ih =>
    simp only [lostFlags, gaps, GapsFollowed, List.cons.injEq, true_and]
    rcases eq_or_ne q expected with rfl | hGap
    · rw [expectedNext_self, ih]
      exact ⟨fun h => ⟨fun hNot => absurd rfl hNot, h⟩, And.right⟩
    · rw [expectedNext_of_ne hGap, lostFlags_after_gap]
      exact ⟨fun h => ⟨fun _ => h.1, h.2⟩, fun h => ⟨h.1 hGap, h.2⟩⟩

theorem gapsFollowed_of_none {expected : BitVec 15} {seqNos : List (BitVec 15)} (h : ∀ gap ∈ gaps expected seqNos, gap = false) :
    GapsFollowed expected seqNos := by
  induction seqNos generalizing expected with
  | nil => trivial
  | cons q rest ih =>
    obtain ⟨hFirst, hRest⟩ := List.forall_mem_cons.mp h
    refine ⟨fun hGap => ?_, ih hRest⟩
    rw [bne_eq_false_iff_eq] at hFirst
    exact absurd hFirst hGap

theorem lostFlags_concat (expected : BitVec 15) (seqNos : List (BitVec 15)) (q : BitVec 15) :
    lostFlags expected (seqNos ++ [q]) = lostFlags expected seqNos ++ [q != seqNos.foldl expectedNext expected] := by
  induction seqNos generalizing expected with
  | nil => rfl
  | cons p rest ih => rw [List.cons_append, lostFlags, lostFlags, ih, List.foldl_cons, List.cons_append]

theorem length_gaps (expected : BitVec 15) (seqNos : List (BitVec 15)) : (gaps expected seqNos).length = seqNos.length := by
  induction seqNos generalizing expected with
  | nil => rfl
  | cons q rest ih => rw [gaps, List.length_cons, ih, List.length_cons]

/-! ### The headers of a run -/

namespace RxFsm

variable {n : Nat}

/-- The port is declared with the value `'0'` and driven by nothing. -/
def rxLostO (_ : RxFsm n) : Bool := false

/-- The sequence number of the header that this cycle takes. -/
def takesHeader (i : FsmIn) (s : RxFsm n) : Option (BitVec 15) :=
  if !i.eof && i.dvalid && i.isEscape && (s.state == .subframeHeader || s.state == .payload && i.data.msb) then
    some (field 0 15 i.data)
  else none

theorem checkSeqNo_expects (data : BitVec 16) (s : RxFsm n) :
    (s.checkSeqNo data).seqNo = expectedNext s.seqNo (field 0 15 data) ∧
      (s.checkSeqNo data).fifoLost = (field 0 15 data != s.seqNo) := by
  unfold checkSeqNo
  rcases eq_or_ne (field 0 15 data) s.seqNo with hSame | hOther
  · rw [hSame, expectedNext_self, if_neg (not_not_intro rfl), bne_self_eq_false]
    exact ⟨rfl, rfl⟩
  · rw [expectedNext_of_ne hOther, if_pos hOther.symm, bne_iff_ne.mpr hOther]
    exact ⟨rfl, rfl⟩

/-- What the state machine makes of the number of a header, if `q` is one. -/
structure Compares (q : Option (BitVec 15)) (s s' : RxFsm n) : Prop where
  seqNo : s'.seqNo = q.elim s.seqNo (expectedNext s.seqNo)
  fifoLost : ∀ p ∈ q, s'.fifoLost = (p != s.seqNo)

theorem compares_none {s s' : RxFsm n} (hSame : s'.seqNo = s.seqNo) : Compares none s s' :=
  ⟨hSame, fun _ hNot => by cases hNot⟩

theorem compares_some {s s' : RxFsm n} {data : BitVec 16} (hSeq : s'.seqNo = expectedNext s.seqNo (field 0 15 data))
    (hLost : s'.fifoLost = (field 0 15 data != s.seqNo)) : Compares (some (field 0 15 data)) s s' := by
  refine ⟨hSeq, fun p hp => ?_⟩
  rw [← Option.mem_some_iff.mp hp, hLost]

theorem compares_subframeHeader (i : FsmIn) (s : RxFsm n) :
    Compares (if !i.eof && i.dvalid && i.isEscape then some (field 0 15 i.data) else none) s (s.subframeHeader i) := by
  unfold subframeHeader
  obtain ⟨_, _, _, hLatency⟩ := measureLatency_eq i { s with fifoDrop := false, fifoAccept := false, serCount := 0 }
  rw [hLatency]
  dsimp only
  cases hEof : i.eof with
  | true => exact compares_none rfl
  | false =>
    cases hHeader : i.dvalid && i.isEscape with
    | false =>
      rw [Bool.not_false, Bool.true_and, hHeader]
      exact compares_none rfl
    | true =>
      obtain ⟨hSeq, hLost⟩ := checkSeqNo_expects i.data _
      rw [Bool.not_false, Bool.true_and, hHeader]
      exact compares_some hSeq hLost

theorem compares_close (i : FsmIn) (s : RxFsm n) :
    Compares (if i.data.msb then some (field 0 15 i.data) else none) s (s.close i) := by
  obtain ⟨hSeq, hLost⟩ := checkSeqNo_expects i.data { s with serCount := 0, fifoLast := true, gotNextSubframe := true }
  unfold close
  cases hMsb : i.data.msb with
  | true => exact compares_some hSeq hLost
  | false =>
    rw [if_neg Bool.false_ne_true, if_neg Bool.false_ne_true]
    apply compares_none
    split_ifs <;> rfl

theorem pack_seqNo (i : FsmIn) (s : RxFsm n) : (s.pack i).seqNo = s.seqNo := by
  unfold pack
  split_ifs <;> rfl

theorem compares_payload (i : FsmIn) (s : RxFsm n) :
    Compares (if !i.eof && i.dvalid && i.isEscape && i.data.msb then some (field 0 15 i.data) else none) s (s.payload i) := by
  obtain ⟨hSeq, hLost⟩ := compares_close i s
  have hPack := pack_seqNo i s
  unfold payload
  cases i.eof with
  | true => exact compares_none rfl
  | false =>
    cases i.dvalid with
    | false => exact compares_none rfl
    | true =>
      cases i.isEscape with
      | false => exact compares_none hPack
      | true => exact ⟨hSeq, hLost⟩

theorem header_seqNo (cfg : RxConfig) (i : FsmIn) (s : RxFsm n) : (s.header cfg i).seqNo = s.seqNo := by
  unfold header headerWord
  split_ifs <;> rfl

/-- The number is compared with the expected one in every header, and in nothing else. -/
theorem compares_pFsm (cfg : RxConfig) {i : FsmIn} (s : RxFsm n) (hRst : i.rstN = true) :
    Compares (s.takesHeader i) s (s.pFsm cfg i) := by
  unfold takesHeader pFsm
  rw [hRst, Bool.not_true, if_neg Bool.false_ne_true]
  cases s.state with
  | idle | eof =>
    rw [show (_ && (_ || _)) = false from Bool.and_false _]
    exact compares_none rfl
  | header =>
    rw [show (_ && (_ || _)) = false from Bool.and_false _]
    exact compares_none (header_seqNo cfg i s)
  | subframeHeader => simpa using compares_subframeHeader i s
  | payload => simpa using compares_payload i s

end RxFsm

/-- The headers since the last reset: their numbers, and with each the flag and the port after it. -/
structure HeaderLog where
  seqNos : List (BitVec 15)
  lost : List Bool
  reported : List Bool
deriving DecidableEq

namespace HeaderLog

variable {n : Nat}

def empty : HeaderLog := ⟨[], [], []⟩

def see (cfg : RxConfig) (o : HeaderLog) (i : FsmIn) (s : RxFsm n) : HeaderLog :=
  if !i.rstN then empty
  else match s.takesHeader i with
  | none => o
  | some q => ⟨o.seqNos ++ [q], o.lost ++ [(s.pFsm cfg i).fifoLost], o.reported ++ [(s.pFsm cfg i).rxLostO]⟩

/-- Every gap is flagged and reported, and nothing else is. -/
structure Reports (o : HeaderLog) : Prop where
  lost : o.lost = gaps 0 o.seqNos
  reported : o.reported = gaps 0 o.seqNos

structure Follows (o : HeaderLog) (s : RxFsm n) : Prop where
  seqNo : s.seqNo = o.seqNos.foldl expectedNext 0
  lost : o.lost = lostFlags 0 o.seqNos
  reported : o.reported = o.seqNos.map fun _ => false

theorem Follows.step (cfg : RxConfig) {o : HeaderLog} {s : RxFsm n} (h : o.Follows s) (i : FsmIn) :
    (o.see cfg i s).Follows (s.pFsm cfg i) := by
  cases hRst : i.rstN with
  | false =>
    have hSee : o.see cfg i s = empty := by simp [see, hRst]
    rw [hSee]
    exact ⟨by simp [RxFsm.pFsm, hRst, empty], rfl, rfl⟩
  | true =>
    obtain ⟨hSeq, hLost⟩ := RxFsm.compares_pFsm cfg s hRst
    unfold see
    rw [hRst, Bool.not_true, if_neg Bool.false_ne_true]
    cases hTakes : s.takesHeader i with
    | none =>
      rw [hTakes] at hSeq
      exact ⟨hSeq.trans h.seqNo, h.lost, h.reported⟩
    | some q =>
      rw [hTakes] at hSeq hLost
      constructor
      · rw [hSeq, List.foldl_append, ← h.seqNo]
        rfl
      · dsimp only
        rw [lostFlags_concat, h.lost, hLost q rfl, h.seqNo]
      · dsimp only
        rw [List.map_append, h.reported]
        rfl

theorem reports_iff {o : HeaderLog} {s : RxFsm n} (h : o.Follows s) :
    o.Reports ↔ ∀ gap ∈ gaps 0 o.seqNos, gap = false := by
  constructor
  · rintro ⟨-, hReported⟩ gap hGap
    rw [← hReported, h.reported] at hGap
    obtain ⟨_, -, rfl⟩ := List.mem_map.mp hGap
    rfl
  · intro hNone
    refine ⟨h.lost.trans ((lostFlags_eq_gaps_iff 0 _).mpr (gapsFollowed_of_none hNone)), ?_⟩
    have hAll := List.eq_replicate_of_mem hNone
    rw [length_gaps] at hAll
    rw [h.reported, hAll, List.map_const']

end HeaderLog

/-- In a run, the gaps are flagged and reported if and only if there are none; the internal flag
alone is right if and only if after each gap comes neither the same number nor the next. -/
theorem losses_reported_iff {n : Nat} (cfg : RxConfig) (inputs : List FsmIn) (s : RxFsm n) (hStart : s.seqNo = 0) :
    let o := (run (watch (RxFsm.pFsm cfg) (HeaderLog.see cfg)) inputs (HeaderLog.empty, s)).1
    (o.Reports ↔ ∀ gap ∈ gaps 0 o.seqNos, gap = false) ∧ (o.lost = gaps 0 o.seqNos ↔ GapsFollowed 0 o.seqNos) := by
  have hInit : HeaderLog.empty.Follows s := ⟨hStart, rfl, rfl⟩
  have hFollows := watch_invariant (fun _ i _ h _ => h.step cfg i) inputs hInit (along_of_forall (fun _ _ _ => trivial) s)
  refine ⟨HeaderLog.reports_iff hFollows, ?_⟩
  rw [hFollows.lost]
  exact lostFlags_eq_gaps_iff 0 _

/-! ### One lost subframe -/

def headerLog (inputs : List FsmIn) : HeaderLog :=
  (run (watch (RxFsm.pFsm rxConfig) (HeaderLog.see rxConfig)) inputs (HeaderLog.empty, blankFsm)).1

theorem losses_reported_none :
    ((headerLog (openedFrame ++ [escaped 0x8001])).Reports ↔
      ∀ gap ∈ gaps 0 (headerLog (openedFrame ++ [escaped 0x8001])).seqNos, gap = false) ∧
    (headerLog (openedFrame ++ [escaped 0x8001])).seqNos = [0, 1] :=
  ⟨(losses_reported_iff rxConfig (openedFrame ++ [escaped 0x8001]) blankFsm rfl).1, by decide +kernel⟩

/-- After the gap before 5 the header 6 is flagged as well, and the port reports neither. -/
theorem loss_flagged_twice :
    headerLog (openedFrame ++ [escaped 0x8005, escaped 0x8006]) =
      ⟨[0, 5, 6], [false, true, true], [false, false, false]⟩ ∧ gaps 0 [0, 5, 6] = [false, true, false] ∧
    ¬ ∀ (inputs : List FsmIn) (s : RxFsm 4), s.seqNo = 0 →
      (run (watch (RxFsm.pFsm rxConfig) (HeaderLog.see rxConfig)) inputs (HeaderLog.empty, s)).1.Reports := by
  have hLog : headerLog (openedFrame ++ [escaped 0x8005, escaped 0x8006]) =
      ⟨[0, 5, 6], [false, true, true], [false, false, false]⟩ := by decide +kernel
  refine ⟨hLog, by decide, fun h => ?_⟩
  have hReports : (headerLog (openedFrame ++ [escaped 0x8005, escaped 0x8006])).Reports :=
    h (openedFrame ++ [escaped 0x8005, escaped 0x8006]) blankFsm rfl
  rw [hLog] at hReports
  exact absurd hReports.lost (by decide)

end WrRfDemo.Streamer

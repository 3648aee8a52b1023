import WrRfDemo.Streamer.BlockWrites
import WrRfDemo.Streamer.Reading

/-! # Which frames are accepted

The header words are compared one at a time, each word of the destination by a `nor` of two
conditions. The outcome is that of the filter that the ports describe for frames turned down by
their source or type, and for some destinations only.
-/

namespace WrRfDemo.Streamer

open Clocked

/-- The first nine words of a frame. -/
structure FrameHeader where
  dst : BitVec 48
  src : BitVec 48
  ethertype : BitVec 16
  tagHigh : BitVec 16
  tagLow : BitVec 16
deriving DecidableEq

namespace FrameHeader

def words (h : FrameHeader) : List (BitVec 16) :=
  [field 32 16 h.dst, field 16 16 h.dst, field 0 16 h.dst, field 32 16 h.src, field 16 16 h.src, field 0 16 h.src,
    h.ethertype, h.tagHigh, h.tagLow]

/-- The frame is addressed to the node, or a broadcast while these are accepted. -/
def Addressed (cfg : RxConfig) (h : FrameHeader) : Prop :=
  h.dst = cfg.macLocal ∨ cfg.acceptBroadcasts = true ∧ h.dst = BitVec.allOnes 48

def Sourced (cfg : RxConfig) (h : FrameHeader) : Prop :=
  (cfg.filterRemoteMac = true → h.src = cfg.macRemote) ∧ h.ethertype = cfg.ethertype

def Admits (cfg : RxConfig) (h : FrameHeader) : Prop := h.Addressed cfg ∧ h.Sourced cfg

/-- At which of its three words the destination agrees with the local address. -/
def agreesAt (cfg : RxConfig) (h : FrameHeader) (k : Fin 3) : Bool :=
  field (16 * k) 16 h.dst == field (16 * k) 16 cfg.macLocal

def onesAt (address : BitVec 48) (k : Fin 3) : Bool := field (16 * k) 16 address == 0xffff

/-- The destinations of which the comparisons make what the filter makes: without broadcasts, those
that agree with the local address in part; with broadcasts, those addressed to the node unless its
address has a word of ones, and the others if they share such a word with it. -/
def ComparesDst (cfg : RxConfig) (h : FrameHeader) : Prop :=
  if cfg.acceptBroadcasts then
    if h.dst = cfg.macLocal ∨ h.dst = BitVec.allOnes 48 then ∀ k, onesAt cfg.macLocal k = false
    else ∃ k, onesAt cfg.macLocal k = true ∧ onesAt h.dst k = true
  else (∃ k, h.agreesAt cfg k = true) ∧ ∃ k, h.agreesAt cfg k = false

/-- The frames that the source or the type turns down, and those with such a destination. -/
def Handled (cfg : RxConfig) (h : FrameHeader) : Prop := h.Sourced cfg → h.ComparesDst cfg

end FrameHeader

/-! ### The comparisons -/

/-- No word so far is turned down. -/
def passes (cfg : RxConfig) (words : List (BitVec 16)) : Bool :=
  words.zipIdx.all fun w => !RxFsm.rejects cfg (BitVec.ofNat 4 w.2) w.1

theorem passes_concat (cfg : RxConfig) (words : List (BitVec 16)) (w : BitVec 16) :
    passes cfg (words ++ [w]) = (passes cfg words && !RxFsm.rejects cfg (BitVec.ofNat 4 words.length) w) := by
  simp [passes, List.zipIdx_append]

theorem eq_iff_fields (v w : BitVec 48) : v = w ↔ ∀ k : Fin 3, field (16 * k) 16 v = field (16 * k) 16 w := by
  constructor
  · rintro rfl k
    rfl
  · intro h
    have hLength : ((List.finRange 3).map fun k : Fin 3 => field (16 * k) 16 w).length = 3 := by simp
    refine Packs.eq (n := 3) hLength (fun k hk => ?_) (fun k hk => ?_)
    · have hLess : k < 3 := by simpa using hk
      simpa using h ⟨k, hLess⟩
    · simp

namespace FrameHeader

variable {cfg : RxConfig} {h : FrameHeader}

def DstPasses (cfg : RxConfig) (h : FrameHeader) : Prop :=
  ∀ k : Fin 3, RxFsm.rejectsLocal cfg (field (16 * k) 16 cfg.macLocal) (field (16 * k) 16 h.dst) = false

theorem passes_words : passes cfg h.words = true ↔ h.DstPasses cfg ∧ h.Sourced cfg := by
  have hSrc : (cfg.filterRemoteMac = true → h.src = cfg.macRemote) ↔
      ∀ k : Fin 3, RxFsm.rejectsRemote cfg (field (16 * k) 16 cfg.macRemote) (field (16 * k) 16 h.src) = false := by
    rw [eq_iff_fields]
    cases hFilter : cfg.filterRemoteMac <;> simp [RxFsm.rejectsRemote, hFilter]
  rw [Sourced, hSrc, DstPasses]
  have hPasses : passes cfg h.words =
      (!RxFsm.rejectsLocal cfg (field 32 16 cfg.macLocal) (field 32 16 h.dst) &&
      (!RxFsm.rejectsLocal cfg (field 16 16 cfg.macLocal) (field 16 16 h.dst) &&
      (!RxFsm.rejectsLocal cfg (field 0 16 cfg.macLocal) (field 0 16 h.dst) &&
      (!RxFsm.rejectsRemote cfg (field 32 16 cfg.macRemote) (field 32 16 h.src) &&
      (!RxFsm.rejectsRemote cfg (field 16 16 cfg.macRemote) (field 16 16 h.src) &&
      (!RxFsm.rejectsRemote cfg (field 0 16 cfg.macRemote) (field 0 16 h.src) &&
      !(h.ethertype != cfg.ethertype))))))) := by
    simp [passes, words, RxFsm.rejects]
  rw [hPasses]
  simp only [Bool.and_eq_true, Bool.not_eq_true', bne_eq_false_iff_eq]
  constructor
  · rintro ⟨hHigh, hMiddle, hLow, hSrcHigh, hSrcMiddle, hSrcLow, hType⟩
    exact ⟨Fin.forall_fin_succ.mpr ⟨hLow, Fin.forall_fin_two.mpr ⟨hMiddle, hHigh⟩⟩,
      Fin.forall_fin_succ.mpr ⟨hSrcLow, Fin.forall_fin_two.mpr ⟨hSrcMiddle, hSrcHigh⟩⟩, hType⟩
  · rintro ⟨hDst, hSource, hType⟩
    exact ⟨hDst 2, hDst 1, hDst 0, hSource 2, hSource 1, hSource 0, hType⟩

theorem rejectsLocal_false_iff (k : Fin 3) :
    RxFsm.rejectsLocal cfg (field (16 * k) 16 cfg.macLocal) (field (16 * k) 16 h.dst) = false ↔
      (h.agreesAt cfg k = true → cfg.acceptBroadcasts = true ∧ onesAt h.dst k = false) := by
  simp only [RxFsm.rejectsLocal, agreesAt, onesAt]
  cases cfg.acceptBroadcasts <;> cases hAgrees : field (16 * k) 16 h.dst == field (16 * k) 16 cfg.macLocal <;>
    simp_all

theorem eq_iff_agreesAt : h.dst = cfg.macLocal ↔ ∀ k, h.agreesAt cfg k = true := by
  simp only [eq_iff_fields, agreesAt, beq_iff_eq]

theorem eq_allOnes_iff (address : BitVec 48) : address = BitVec.allOnes 48 ↔ ∀ k, onesAt address k = true := by
  have hOnes : ∀ k : Fin 3, field (16 * k) 16 (BitVec.allOnes 48) = 0xffff := by decide
  simp only [eq_iff_fields, hOnes, onesAt, beq_iff_eq]

/-- With broadcasts, the destination is turned down where it shares a word of ones with the address. -/
theorem dstPasses_of_broadcasts (hBroadcasts : cfg.acceptBroadcasts = true) :
    h.DstPasses cfg ↔ ¬∃ k, onesAt cfg.macLocal k = true ∧ onesAt h.dst k = true := by
  rw [DstPasses, not_exists]
  refine forall_congr' fun k => ?_
  rw [rejectsLocal_false_iff, hBroadcasts]
  simp only [agreesAt, onesAt, beq_iff_eq, beq_eq_false_iff_ne, true_and]
  constructor
  · rintro hNot ⟨hMac, hDst⟩
    exact hNot (hDst.trans hMac.symm) hDst
  · intro hNot hAgrees hDst
    exact hNot ⟨hAgrees ▸ hDst, hDst⟩

theorem comparesDst_iff : (h.DstPasses cfg ↔ h.Addressed cfg) ↔ h.ComparesDst cfg := by
  cases hBroadcasts : cfg.acceptBroadcasts with
  | false =>
    have hAddressed : h.Addressed cfg ↔ ∀ k, h.agreesAt cfg k = true := by
      simp [Addressed, hBroadcasts, eq_iff_agreesAt]
    have hPasses : h.DstPasses cfg ↔ ∀ k, h.agreesAt cfg k = false := by
      simp [DstPasses, rejectsLocal_false_iff, hBroadcasts]
    rw [hAddressed, hPasses, ComparesDst, hBroadcasts, if_neg Bool.false_ne_true]
    constructor
    · intro hSame
      have hSome : ¬∀ k, h.agreesAt cfg k = false := fun hNone => by
        have := hSame.mp hNone 0
        rw [hNone 0] at this
        cases this
      have hNotAll : ¬∀ k, h.agreesAt cfg k = true := fun hAll => by
        have := hSame.mpr hAll 0
        rw [hAll 0] at this
        cases this
      exact ⟨by simpa using hSome, by simpa using hNotAll⟩
    · rintro ⟨⟨k, hAgrees⟩, j, hDiffers⟩
      refine ⟨fun hNone => ?_, fun hAll => ?_⟩
      · rw [hNone k] at hAgrees
        cases hAgrees
      · rw [hAll j] at hDiffers
        cases hDiffers
  | true =>
    rw [dstPasses_of_broadcasts hBroadcasts, ComparesDst, if_pos hBroadcasts, Addressed, hBroadcasts]
    simp only [true_and]
    rcases em (h.dst = cfg.macLocal ∨ h.dst = BitVec.allOnes 48) with hTo | hForeign
    · have hShared : (∃ k, onesAt cfg.macLocal k = true ∧ onesAt h.dst k = true) ↔ ∃ k, onesAt cfg.macLocal k = true := by
        refine exists_congr fun k => ?_
        rcases hTo with hOwn | hAll
        · rw [hOwn, and_self]
        · rw [(eq_allOnes_iff h.dst).mp hAll k, and_iff_left rfl]
      rw [if_pos hTo, hShared, iff_true_right hTo]
      simp
    · rw [if_neg hForeign]
      exact ⟨fun hSame => not_not.mp fun hNone => hForeign (hSame.mp hNone),
        fun hShared => ⟨fun hNone => absurd hShared hNone, fun hTo => absurd hTo hForeign⟩⟩

end FrameHeader

/-! ### The header on its way in -/

variable {a n : Nat} {cfg : RxConfig}

/-- The state machine after these header words: at the next one, through, or back in its idle state. -/
structure Filtering (cfg : RxConfig) (words : List (BitVec 16)) (f : RxFsm n) : Prop where
  fifoDvalid : f.fifoDvalid = false
  state : f.state = if passes cfg words then (if words.length < 9 then .header else .subframeHeader) else .idle
  count : f.state = .header → f.count.toNat = words.length

structure FsmIn.Inside (i : FsmIn) : Prop where
  rstN : i.rstN = true
  sof : i.sof = false
  eof : i.eof = false

theorem headerWord_state (cfg : RxConfig) {f : RxFsm n} {i : FsmIn} {k : Nat} (hState : f.state = .header)
    (hCount : f.count = BitVec.ofNat 4 k) (hk : k < 9) :
    (f.headerWord cfg i).fifoDvalid = f.fifoDvalid ∧ (f.headerWord cfg i).state =
      if RxFsm.rejects cfg (BitVec.ofNat 4 k) i.data then .idle else if k + 1 < 9 then .header else .subframeHeader := by
  unfold RxFsm.headerWord
  rw [hCount]
  rcases Nat.lt_or_ge k 7 with hAddress | hTag
  · have hNot : BitVec.ofNat 4 k ≠ 7 ∧ BitVec.ofNat 4 k ≠ 8 := by
      constructor <;> intro hSame <;> have := congrArg BitVec.toNat hSame <;> simp at this <;> omega
    rw [if_neg hNot.1, if_neg hNot.2, if_pos (by omega : k + 1 < 9)]
    cases RxFsm.rejects cfg (BitVec.ofNat 4 k) i.data with
    | false => exact ⟨rfl, hState⟩
    | true => exact ⟨rfl, rfl⟩
  · obtain rfl | rfl : k = 7 ∨ k = 8 := by omega
    · exact ⟨rfl, hState⟩
    · exact ⟨rfl, rfl⟩

theorem Filtering.step {words : List (BitVec 16)} {f : RxFsm n} {i : FsmIn} (h : Filtering cfg words f) (hInside : i.Inside)
    (hMore : (words ++ i.half).length ≤ 9) : Filtering cfg (words ++ i.half) (f.pFsm cfg i) := by
  obtain ⟨hRst, hSof, hEof⟩ := hInside
  have hState := h.state
  cases hPasses : passes cfg words with
  | false =>
    rw [hPasses, if_neg Bool.false_ne_true] at hState
    have hStill : passes cfg (words ++ i.half) = false := by
      unfold FsmIn.half
      cases i.dvalid with
      | false => rwa [if_neg Bool.false_ne_true, List.append_nil]
      | true => rw [if_pos rfl, passes_concat, hPasses, Bool.false_and]
    have hNext : f.pFsm cfg i = f.idle i := by simp [RxFsm.pFsm, hRst, hState]
    have hIdle : (f.idle i).state = .idle := by simp [RxFsm.idle, hSof]
    rw [hNext]
    exact ⟨rfl, by rw [hIdle, hStill, if_neg Bool.false_ne_true], fun hNot => by rw [hIdle] at hNot; cases hNot⟩
  | true =>
    rw [hPasses, if_pos rfl] at hState
    rcases Nat.lt_or_ge words.length 9 with hShort | hAll
    · rw [if_pos hShort] at hState
      have hNext : f.pFsm cfg i = f.header cfg i := by simp [RxFsm.pFsm, hRst, hState]
      rw [hNext]
      cases hWord : i.dvalid with
      | false =>
        rw [header_gap cfg i f hEof hWord, FsmIn.half, hWord, if_neg Bool.false_ne_true, List.append_nil]
        exact h
      | true =>
        have hCount : f.count = BitVec.ofNat 4 words.length := by rw [← h.count hState, BitVec.ofNat_toNat, BitVec.setWidth_eq]
        obtain ⟨hSilent, hStateNext⟩ := headerWord_state cfg (i := i) hState hCount hShort
        have hHeader : f.header cfg i = { f.headerWord cfg i with count := f.count + 1 } := by
          simp [RxFsm.header, hEof, hWord]
        rw [hHeader, FsmIn.half, hWord, if_pos rfl]
        constructor
        case fifoDvalid => exact hSilent.trans h.fifoDvalid
        case state =>
          dsimp only
          rw [hStateNext, passes_concat, hPasses, Bool.true_and, List.length_append, List.length_singleton]
          cases RxFsm.rejects cfg (BitVec.ofNat 4 words.length) i.data <;> rfl
        case count =>
          intro _
          rw [BitVec.toNat_add, h.count hState, List.length_append, List.length_singleton]
          exact Nat.mod_eq_of_lt (by simp; omega)
    · rw [if_neg (Nat.not_lt.mpr hAll)] at hState
      have hWord : i.dvalid = false := by
        cases hWord : i.dvalid with
        | false => rfl
        | true =>
          rw [FsmIn.half, hWord, if_pos rfl, List.length_append, List.length_singleton] at hMore
          omega
      have hNext : f.pFsm cfg i = f.subframeHeader i := by simp [RxFsm.pFsm, hRst, hState]
      obtain ⟨-, -, hSilent, -⟩ := strobes_subframeHeader i f hState
      have hStay := (subframeHeader_state i f).1
      rw [hEof, hWord, if_neg Bool.false_ne_true, Bool.false_and, if_neg Bool.false_ne_true, hState] at hStay
      rw [hNext, FsmIn.half, hWord, if_neg Bool.false_ne_true, List.append_nil]
      exact ⟨hSilent.trans h.fifoDvalid, by rw [hStay, hPasses, if_pos rfl, if_neg (Nat.not_lt.mpr hAll)],
        fun hNot => by rw [hStay] at hNot; cases hNot⟩

theorem Filtering.along {words : List (BitVec 16)} (inputs : List RxCoreIn) (hInside : ∀ i ∈ inputs, i.fsm.Inside)
    {s : RxCore a n} (h : Filtering cfg words s.fsm)
    (hMore : (words ++ inputs.flatMap fun i => i.fsm.half).length ≤ 9) (o : List (FifoWord n)) :
    let p := run (watch (RxCore.clock cfg) (written cfg)) inputs (o, s)
    p.1 = o ∧ Filtering cfg (words ++ inputs.flatMap fun i => i.fsm.half) p.2.fsm := by
  induction inputs generalizing words s o with
  | nil => simpa using h
  | cons i rest ih =>
    rw [List.flatMap_cons, ← List.append_assoc] at hMore ⊢
    have hNext : Filtering cfg (words ++ i.fsm.half) (s.clock cfg i).fsm :=
      h.step (hInside i List.mem_cons_self) (by rw [List.length_append] at hMore; omega)
    have hSilent : written cfg o i s = o := by simp [written, RxFsm.dinList, hNext.fifoDvalid]
    obtain ⟨hWritten, hEnd⟩ := ih (fun j hj => hInside j (List.mem_cons_of_mem i hj)) hNext hMore (written cfg o i s)
    exact ⟨hWritten.trans hSilent, hEnd⟩

theorem written_idle (cfg : RxConfig) (inputs : List RxCoreIn) (hRest : ∀ i ∈ inputs, i.fsm.rstN = true ∧ i.fsm.sof = false)
    {s : RxCore a n} (hIdle : s.fsm.state = .idle) (o : List (FifoWord n)) :
    (run (watch (RxCore.clock cfg) (written cfg)) inputs (o, s)).1 = o := by
  induction inputs generalizing s o with
  | nil => rfl
  | cons i rest ih =>
    obtain ⟨hRst, hSof⟩ := hRest i List.mem_cons_self
    have hNext : (s.clock cfg i).fsm = s.fsm.idle i.fsm := by
      change s.fsm.pFsm cfg i.fsm = _
      simp [RxFsm.pFsm, hRst, hIdle]
    have hStay : (s.clock cfg i).fsm.state = .idle := by rw [hNext]; simp [RxFsm.idle, hSof]
    have hSilent : written cfg o i s = o := by simp [written, RxFsm.dinList, hNext, RxFsm.idle]
    exact (ih (fun j hj => hRest j (List.mem_cons_of_mem i hj)) hStay (written cfg o i s)).trans hSilent

/-! ### A frame -/

/-- A frame with this header: its start, the cycles of the header words, and what follows up to the
start of the next frame. -/
structure Arrives (h : FrameHeader) (start : RxCoreIn) (cycles rest : List RxCoreIn) : Prop where
  start : start.fsm.rstN = true ∧ start.fsm.sof = true
  inside : ∀ i ∈ cycles, i.fsm.Inside
  words : cycles.flatMap (fun i => i.fsm.half) = h.words
  rest : ∀ i ∈ rest, i.fsm.rstN = true ∧ i.fsm.sof = false

/-- The frame goes on to its subframes if the filter admits it, and is ignored otherwise. -/
structure Filters (cfg : RxConfig) (h : FrameHeader) (start : RxCoreIn) (cycles rest : List RxCoreIn) (s : RxCore a n) :
    Prop where
  reaches : (run (RxCore.clock cfg) (start :: cycles) s).fsm.state = .subframeHeader ↔ h.Admits cfg
  ignored : ¬h.Admits cfg → (run (watch (RxCore.clock cfg) (written cfg)) (start :: cycles ++ rest) ([], s)).1 = []

variable {h : FrameHeader} {start : RxCoreIn} {cycles rest : List RxCoreIn} {s : RxCore a n}

theorem frame_passes (cfg : RxConfig) (hArrives : Arrives h start cycles rest) (hIdle : s.fsm.state = .idle) :
    ((run (RxCore.clock cfg) (start :: cycles) s).fsm.state = .subframeHeader ↔ passes cfg h.words = true) ∧
      (passes cfg h.words = false →
        (run (watch (RxCore.clock cfg) (written cfg)) (start :: cycles ++ rest) ([], s)).1 = []) := by
  obtain ⟨hRst, hSof⟩ := hArrives.start
  have hFsm : (s.clock cfg start).fsm = s.fsm.idle start.fsm := by
    change s.fsm.pFsm cfg start.fsm = _
    simp [RxFsm.pFsm, hRst, hIdle]
  have hStart : Filtering cfg [] (s.clock cfg start).fsm := by
    rw [hFsm]
    exact ⟨rfl, by simp [RxFsm.idle, hSof, passes], fun _ => rfl⟩
  have hSilent : written cfg [] start s = [] := by simp [written, RxFsm.dinList, hStart.fifoDvalid]
  have hLength : ([] ++ cycles.flatMap fun i : RxCoreIn => i.fsm.half).length ≤ 9 := by
    rw [hArrives.words, List.nil_append]
    exact Nat.le_refl 9
  obtain ⟨hNone, hEnd⟩ := hStart.along cycles hArrives.inside hLength []
  rw [hArrives.words, List.nil_append] at hEnd
  have hState := hEnd.state
  have hWords : ¬h.words.length < 9 := Nat.lt_irrefl 9
  rw [if_neg hWords] at hState
  have hRun : run (RxCore.clock cfg) (start :: cycles) s =
      (run (watch (RxCore.clock cfg) (written cfg)) cycles ([], s.clock cfg start)).2 := by
    rw [run_watch_snd, run_cons]
  constructor
  · rw [hRun, hState]
    cases passes cfg h.words <;> simp
  · intro hTurned
    rw [hTurned, if_neg Bool.false_ne_true] at hState
    rw [List.cons_append, run_cons, run_append]
    have hRest := written_idle cfg rest hArrives.rest hState
      (run (watch (RxCore.clock cfg) (written cfg)) cycles ([], s.clock cfg start)).1
    rw [watch, hSilent]
    exact hRest.trans hNone

/-- A frame is filtered as configured if and only if the comparisons come out as the filter on it. -/
theorem filters_iff (hArrives : Arrives h start cycles rest) (hIdle : s.fsm.state = .idle) :
    Filters cfg h start cycles rest s ↔ h.Handled cfg := by
  obtain ⟨hReaches, hIgnored⟩ := frame_passes cfg hArrives hIdle
  have hSame : Filters cfg h start cycles rest s ↔ (passes cfg h.words = true ↔ h.Admits cfg) := by
    constructor
    · intro hFilters
      rw [← hReaches, hFilters.reaches]
    · intro hAgree
      refine ⟨hReaches.trans hAgree, fun hNot => hIgnored ?_⟩
      cases hPasses : passes cfg h.words with
      | false => rfl
      | true => exact absurd (hAgree.mp hPasses) hNot
  rw [hSame, FrameHeader.passes_words, FrameHeader.Handled, FrameHeader.Admits, ← FrameHeader.comparesDst_iff]
  exact and_congr_left_iff

/-! ### A frame to the node itself -/

def unicastConfig : RxConfig := ⟨0x010203040506, 0, 0xdbff, false, false⟩

def frameTo (dst : BitVec 48) : FrameHeader := ⟨dst, 0, 0xdbff, 0, 0⟩

def headerCycles (h : FrameHeader) : List RxCoreIn := unread (mark false false :: h.words.map plain)

def startCycle : RxCoreIn := ⟨mark true false, false⟩

theorem headerCycles_arrives (h : FrameHeader) : Arrives h startCycle (headerCycles h) [⟨mark false true, false⟩] := by
  refine ⟨⟨rfl, rfl⟩, fun i hi => ?_, rfl, fun i hi => ?_⟩
  · simp only [headerCycles, unread, List.map_cons, List.map_map, List.mem_cons, List.mem_map] at hi
    rcases hi with rfl | ⟨w, -, rfl⟩ <;> exact ⟨rfl, rfl, rfl⟩
  · rw [List.mem_singleton.mp hi]
    exact ⟨rfl, rfl⟩

theorem filters_broadcast :
    Filters rxConfig (frameTo (BitVec.allOnes 48)) startCycle (headerCycles (frameTo (BitVec.allOnes 48)))
      [⟨mark false true, false⟩] blankCore :=
  (filters_iff (headerCycles_arrives _) rfl).mpr fun _ => by
    have hBroadcasts : rxConfig.acceptBroadcasts = true := rfl
    rw [FrameHeader.ComparesDst, if_pos hBroadcasts, if_pos (.inr rfl)]
    decide

/-- With broadcasts turned off, a frame to the node's own address is turned down. -/
theorem own_frame_turned_down :
    (run (RxCore.clock unicastConfig) (startCycle :: headerCycles (frameTo 0x010203040506)) blankCore).fsm.state = .idle ∧
    (frameTo 0x010203040506).Admits unicastConfig ∧
    ¬ ∀ (cfg : RxConfig) (h : FrameHeader) (start : RxCoreIn) (cycles rest : List RxCoreIn) (s : RxCore 3 4),
      Arrives h start cycles rest → s.fsm.state = .idle → Filters cfg h start cycles rest s := by
  have hIdle : (run (RxCore.clock unicastConfig) (startCycle :: headerCycles (frameTo 0x010203040506))
      blankCore).fsm.state = .idle := by decide +kernel
  have hAdmits : (frameTo 0x010203040506).Admits unicastConfig   :=
    ⟨.inl rfl, Bool.false_ne_true.elim, rfl⟩
  refine ⟨hIdle, hAdmits, fun hAll => ?_⟩
  have hReaches := (hAll unicastConfig (frameTo 0x010203040506) startCycle (headerCycles (frameTo 0x010203040506))
    [⟨mark false true, false⟩] blankCore (headerCycles_arrives _) rfl).reaches.mpr hAdmits
  rw [hIdle] at hReaches
  cases hReaches

end WrRfDemo.Streamer

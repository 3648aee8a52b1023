import WrRfDemo.Streamer.Subframes

/-! # Only whole, checked subframes are handed over

Between the closing word and the move of the commit boundary lie two cycles. As long as no
drop falls on the cycle of a delayed accept, the buffer commits the completed words of the
accepted subframes and nothing else.
-/

namespace WrRfDemo.Streamer

open Clocked

variable {a n : Nat}

def RxFsm.dinList (f : RxFsm n) : List (FifoWord n) := if f.fifoDvalid then [f.fifoDin] else []

/-- The strobes against the verdicts: `D` is committed in the buffer or delivered, `P` is not
yet committed, and `d0` is the delayed accept. -/
structure Strobes (o : SubframeLog n) (f : RxFsm n) (d0 : Bool) (D P : List (FifoWord n)) : Prop where
  exclusive : f.fifoAccept = true → f.fifoDrop = false
  committed : o.committed = D ++ if f.fifoAccept then P ++ f.dinList else if d0 then P else []
  quiet : f.fifoAccept = false → d0 = false → f.fifoDrop = false → P ++ f.dinList = issuedWords n o.opened
  accepting : f.fifoAccept = true → o.opened = [] ∧ (d0 = true → f.fifoDvalid = false)
  committing : f.fifoAccept = false → d0 = true → f.fifoDrop = false →
    issuedWords n o.opened = [] ∧ f.fifoDvalid = false
  dropping : f.fifoDrop = true → issuedWords n o.opened = []

/-- Once the buffer has seen the strobes: either all verdicts are executed, or an accept is
about to be delayed. -/
inductive Executed (o : SubframeLog n) (f : RxFsm n) (D P : List (FifoWord n)) : Prop
  | settled (hAccept : f.fifoAccept = false) (hWords : o.committed = D)
      (hPending : P = issuedWords n o.opened) (hDrop : f.fifoDrop = true → issuedWords n o.opened = [])
  | moving (hAccept : f.fifoAccept = true) (hDrop : f.fifoDrop = false) (hWords : o.committed = D ++ P)
      (hOpened : o.opened = [])

variable {o o' : SubframeLog n} {f f' : RxFsm n} {d0 : Bool} {D P : List (FifoWord n)}

theorem issuedWords_nil (hn : 0 < n) : issuedWords n [] = [] := by
  simp [issuedWords, issuedCount, waits, show ¬n = 0 by omega]

theorem completedWords_nil (n : Nat) : completedWords n [] = [] := by
  simp [completedWords]

theorem Strobes.executed (h : Strobes o f d0 D P) (hCollide : f.fifoDrop = true → d0 = true → P = []) :
    Executed o f (D ++ if d0 then P else [])
      (if f.fifoDrop then [] else (if d0 then [] else P) ++ f.dinList) := by
  have hWords := h.committed
  cases hAccept : f.fifoAccept with
  | true =>
    have hDrop := h.exclusive hAccept
    obtain ⟨hOpened, hOnce⟩ := h.accepting hAccept
    rw [hAccept, if_pos rfl] at hWords
    refine .moving hAccept hDrop ?_ hOpened
    rw [hWords, hDrop]
    cases d0 <;> simp
  | false =>
    rw [hAccept, if_neg (by decide)] at hWords
    refine .settled hAccept hWords ?_ h.dropping
    cases hDrop : f.fifoDrop with
    | true => simp [h.dropping hDrop]
    | false =>
      cases d0 with
      | true =>
        obtain ⟨hNone, hValid⟩ := h.committing hAccept rfl hDrop
        simp [hNone, RxFsm.dinList, hValid]
      | false => simpa using h.quiet hAccept rfl hDrop

/-! ### What the state machine does next -/

theorem Executed.clears (h : Executed o f D P) (hn : 0 < n) (hAccept : f'.fifoAccept = false)
    (hDrop : f'.fifoDrop = false) (hValid : f'.fifoDvalid = false) (hCommitted : o'.committed = o.committed)
    (hOpened : o.opened = [] ∧ o'.opened = []) : Strobes o' f' f.fifoAccept D P := by
  have hNil := issuedWords_nil hn
  cases h with
  | settled hBefore hWords hPending _ =>
    constructor <;> simp_all [RxFsm.dinList]
  | moving hBefore _ hWords _ =>
    constructor <;> simp_all

theorem Executed.aborts (h : Executed o f D P) (hn : 0 < n) (hAccept : f'.fifoAccept = false)
    (hDrop : f'.fifoDrop = true) (hCommitted : o'.committed = o.committed) (hOpened : o'.opened = []) :
    Strobes o' f' f.fifoAccept D P := by
  have hNil := issuedWords_nil hn
  cases h with
  | settled hBefore hWords hPending _ => constructor <;> simp_all
  | moving hBefore _ hWords _ => constructor <;> simp_all

theorem Executed.closes (h : Executed o f D P) (hn : 0 < n) {crcMatch : Bool}
    (hAccept : f'.fifoAccept = crcMatch) (hDrop : f'.fifoDrop = !crcMatch)
    (hDin : f'.dinList = if waits n o.opened.length then
      [⟨wordAt n o.opened (o.opened.length / n - 1), o.opened.length / n - 1 == 0, true⟩] else [])
    (hCommitted : o'.committed = o.committed ++ if crcMatch then completedWords n o.opened else [])
    (hOpened : o'.opened = []) : Strobes o' f' f.fifoAccept D P := by
  have hNil := issuedWords_nil hn
  have hAll := completedWords_eq hn o.opened
  rw [← hDin] at hAll
  cases h with
  | settled hBefore hWords hPending _ =>
    cases crcMatch <;> constructor <;> simp_all
  | moving hBefore _ hWords hEmpty =>
    have hNone : f'.dinList = [] := by
      rw [hDin, hEmpty]
      simp [waits, show ¬n = 0 by omega]
    have hValid : f'.fifoDvalid = false := by
      cases hRaised : f'.fifoDvalid with
      | false => rfl
      | true => simp [RxFsm.dinList, hRaised] at hNone
    have hCompleted := completedWords_nil n
    cases crcMatch <;> constructor <;> simp_all

theorem Executed.packs (h : Executed o f D P) (hn : 2 ≤ n) (hAccept : f'.fifoAccept = false)
    (hDrop : f'.fifoDrop = false) {half : BitVec 16}
    (hDin : f'.dinList = if writesNext n o.opened.length then
      [⟨wordAt n o.opened (o.opened.length / n - 1), o.opened.length / n - 1 == 0, false⟩] else [])
    (hCommitted : o'.committed = o.committed) (hOpened : o'.opened = o.opened ++ [half]) :
    Strobes o' f' f.fifoAccept D P := by
  have hNil := issuedWords_nil (show 0 < n by omega)
  have hIssued := issuedWords_concat hn o.opened half
  rw [← hDin] at hIssued
  cases h with
  | settled hBefore hWords hPending _ => constructor <;> simp_all
  | moving hBefore _ hWords hEmpty =>
    have hNone : f'.dinList = [] := by
      rw [hDin, hEmpty]
      simp [writesNext, waits, show ¬n = 0 by omega]
    have hValid : f'.fifoDvalid = false := by
      cases hRaised : f'.fifoDvalid with
      | false => rfl
      | true => simp [RxFsm.dinList, hRaised] at hNone
    constructor <;> simp_all

theorem Executed.holds (h : Executed o f D P) (hAccept : f'.fifoAccept = f.fifoAccept)
    (hDrop : f'.fifoDrop = f.fifoDrop) (hValid : f'.fifoDvalid = false)
    (hCommitted : o'.committed = o.committed) (hOpened : o'.opened = o.opened) :
    Strobes o' f' f.fifoAccept D P := by
  cases h with
  | settled hBefore hWords hPending hSilent => constructor <;> simp_all [RxFsm.dinList]
  | moving hBefore _ hWords hEmpty => constructor <;> simp_all [RxFsm.dinList]

end WrRfDemo.Streamer

import Mathlib.Logic.Relation
import Mathlib.Tactic.SplitIfs
import WrRfDemo.Clocked.Driver

/-! # Programs on a bus

A program reads and writes words at addresses. It runs on a bus, where an access takes its time; it is specified on a
device, where an access is one step, and where the surroundings may move before and after it.
-/

namespace WrRfDemo.Clocked

variable {ι κ w μ σ τ α β : Type}

inductive Program (ι w α : Type)
  | done (x : α)
  | read (adr : ι) (next : w → Program ι w α)
  | write (adr : ι) (data : w) (next : Program ι w α)

/-- The accesses at each address, any of which may not return. -/
structure Bus (ι w σ : Type) where
  read : ι → σ → Option (w × σ)
  write : ι → w → σ → Option σ

namespace Program

def bind : Program ι w α → (α → Program ι w β) → Program ι w β
  | done x, f => f x
  | read adr next, f => read adr fun v => (next v).bind f
  | write adr data next, f => write adr data (next.bind f)

instance : Monad (Program ι w) where
  pure := done
  bind := bind

def load (adr : ι) : Program ι w w := .read adr .done

def store (adr : ι) (data : w) : Program ι w Unit := .write adr data (.done ())

def run (bus : Bus ι w σ) : Program ι w α → σ → Option (α × σ)
  | done x, s => some (x, s)
  | read adr next, s => (bus.read adr s).bind fun r => (next r.1).run bus r.2
  | write adr data next, s => (bus.write adr data s).bind fun s => next.run bus s

/-- A loop that reads until the word is as it should be, for as many reads at most. -/
def pollUntil (ok : w → Bool) (adr : ι) : Nat → Program ι w Bool
  | 0 => done false
  | limit + 1 => read adr fun v => if ok v then done true else pollUntil ok adr limit

/-- The program at other addresses. -/
def moved (f : ι → κ) : Program ι w α → Program κ w α
  | done x => .done x
  | read adr next => .read (f adr) fun v => (next v).moved f
  | write adr data next => .write (f adr) data (next.moved f)

theorem run_bind (bus : Bus ι w σ) (p : Program ι w α) (f : α → Program ι w β) (s : σ) :
    (p >>= f).run bus s = (p.run bus s).bind fun r => (f r.1).run bus r.2 := by
  induction p generalizing s with
  | done x => rfl
  | read adr next ih =>
    change ((bus.read adr s).bind fun r => (next r.1 >>= f).run bus r.2) = _
    simp only [ih, run, Option.bind_assoc]
  | write adr data next ih =>
    change ((bus.write adr data s).bind fun s => (next >>= f).run bus s) = _
    simp only [ih, run, Option.bind_assoc]

theorem run_after {bus : Bus ι w σ} {p : Program ι w α} {x : α} {s s' : σ} (h : p.run bus s = some (x, s'))
    (f : α → Program ι w β) : (p >>= f).run bus s = (f x).run bus s' := by
  rw [run_bind, h, Option.bind_some]

end Program

def Bus.beside (first : Bus ι w σ) (second : Bus κ w τ) : Bus (ι ⊕ κ) w (σ × τ) where
  read
    | .inl adr, s => (first.read adr s.1).map fun r => (r.1, (r.2, s.2))
    | .inr adr, s => (second.read adr s.2).map fun r => (r.1, (s.1, r.2))
  write
    | .inl adr, data, s => (first.write adr data s.1).map fun r => (r, s.2)
    | .inr adr, data, s => (second.write adr data s.2).map fun r => (s.1, r)

namespace Program

variable {first : Bus ι w σ} {second : Bus κ w τ} {x : α}

theorem run_first {p : Program ι w α} {s s' : σ} (h : p.run first s = some (x, s')) (t : τ) :
    (p.moved .inl).run (first.beside second) (s, t) = some (x, (s', t)) := by
  induction p generalizing s with
  | done y =>
    obtain ⟨rfl, rfl⟩ : y = x ∧ s = s' := by simpa [run] using h
    rfl
  | read adr next ih =>
    obtain ⟨⟨v, s₁⟩, hRead, hNext⟩ := Option.bind_eq_some_iff.mp h
    simp only [moved, run, Bus.beside, hRead, Option.map_some, Option.bind_some]
    exact ih v hNext
  | write adr data next ih =>
    obtain ⟨s₁, hWrite, hNext⟩ := Option.bind_eq_some_iff.mp h
    simp only [moved, run, Bus.beside, hWrite, Option.map_some, Option.bind_some]
    exact ih hNext

theorem run_second {p : Program κ w α} {t t' : τ} (h : p.run second t = some (x, t')) (s : σ) :
    (p.moved .inr).run (first.beside second) (s, t) = some (x, (s, t')) := by
  induction p generalizing t with
  | done y =>
    obtain ⟨rfl, rfl⟩ : y = x ∧ t = t' := by simpa [run] using h
    rfl
  | read adr next ih =>
    obtain ⟨⟨v, t₁⟩, hRead, hNext⟩ := Option.bind_eq_some_iff.mp h
    simp only [moved, run, Bus.beside, hRead, Option.map_some, Option.bind_some]
    exact ih v hNext
  | write adr data next ih =>
    obtain ⟨t₁, hWrite, hNext⟩ := Option.bind_eq_some_iff.mp h
    simp only [moved, run, Bus.beside, hWrite, Option.map_some, Option.bind_some]
    exact ih hNext

end Program

/-- A driver of one word, as a program that stays at its address. -/
def Driver.at (adr : ι) : Driver w α → Program ι w α
  | done x => .done x
  | read next => .read adr fun v => (next v).at adr
  | write data next => .write adr data (next.at adr)

/-! ### Devices -/

/-- What an access does to a device in one step, and how its surroundings may move it. -/
structure Device (ι w μ : Type) where
  Reads : ι → μ → w → μ → Prop
  Writes : ι → w → μ → μ → Prop
  Moves : μ → μ → Prop

inductive Does (dev : Device ι w μ) : Program ι w α → μ → α → μ → Prop
  | done {x : α} {m : μ} : Does dev (.done x) m x m
  | move {p : Program ι w α} {m m₁ m' : μ} {x : α} : dev.Moves m m₁ → Does dev p m₁ x m' → Does dev p m x m'
  | read {adr : ι} {next : w → Program ι w α} {m m₁ m' : μ} {v : w} {x : α} :
    dev.Reads adr m v m₁ → Does dev (next v) m₁ x m' → Does dev (.read adr next) m x m'
  | write {adr : ι} {data : w} {next : Program ι w α} {m m₁ m' : μ} {x : α} :
    dev.Writes adr data m m₁ → Does dev next m₁ x m' → Does dev (.write adr data next) m x m'

variable {dev : Device ι w μ}

theorem does_moves {p : Program ι w α} {m m₁ m' : μ} {x : α} (hMoves : Relation.ReflTransGen dev.Moves m m₁)
    (h : Does dev p m₁ x m') : Does dev p m x m' := by
  induction hMoves using Relation.ReflTransGen.head_induction_on with
  | refl => exact h
  | head hFirst _ ih => exact .move hFirst ih

theorem does_done {x y : α} {m m' : μ} (h : Does dev (.done x : Program ι w α) m y m') :
    y = x ∧ Relation.ReflTransGen dev.Moves m m' := by
  generalize hProgram : Program.done x = p at h
  induction h with
  | done =>
    cases hProgram
    exact ⟨rfl, .refl⟩
  | move hMoves _ ih =>
    obtain ⟨hResult, hLater⟩ := ih hProgram
    exact ⟨hResult, .head hMoves hLater⟩
  | read => cases hProgram
  | write => cases hProgram

theorem does_read {adr : ι} {next : w → Program ι w α} {m m' : μ} {x : α} (h : Does dev (.read adr next) m x m') :
    ∃ m₁ v m₂, Relation.ReflTransGen dev.Moves m m₁ ∧ dev.Reads adr m₁ v m₂ ∧ Does dev (next v) m₂ x m' := by
  generalize hProgram : Program.read adr next = p at h
  induction h with
  | done => cases hProgram
  | move hMoves _ ih =>
    obtain ⟨m₁, v, m₂, hLater, hReads, hNext⟩ := ih hProgram
    exact ⟨m₁, v, m₂, .head hMoves hLater, hReads, hNext⟩
  | read hReads hNext =>
    cases hProgram
    exact ⟨_, _, _, .refl, hReads, hNext⟩
  | write => cases hProgram

theorem does_write {adr : ι} {data : w} {next : Program ι w α} {m m' : μ} {x : α}
    (h : Does dev (.write adr data next) m x m') :
    ∃ m₁ m₂, Relation.ReflTransGen dev.Moves m m₁ ∧ dev.Writes adr data m₁ m₂ ∧ Does dev next m₂ x m' := by
  generalize hProgram : Program.write adr data next = p at h
  induction h with
  | done => cases hProgram
  | move hMoves _ ih =>
    obtain ⟨m₁, m₂, hLater, hWrites, hNext⟩ := ih hProgram
    exact ⟨m₁, m₂, .head hMoves hLater, hWrites, hNext⟩
  | read => cases hProgram
  | write hWrites hNext =>
    cases hProgram
    exact ⟨_, _, .refl, hWrites, hNext⟩

theorem does_bind {p : Program ι w α} {f : α → Program ι w β} {m m' : μ} {y : β} (h : Does dev (p >>= f) m y m') :
    ∃ x m₁, Does dev p m x m₁ ∧ Does dev (f x) m₁ y m' := by
  induction p generalizing m with
  | done x => exact ⟨x, m, .done, h⟩
  | read adr next ih =>
    obtain ⟨m₁, v, m₂, hMoves, hReads, hNext⟩ := does_read h
    obtain ⟨x, m₃, hFirst, hSecond⟩ := ih v hNext
    exact ⟨x, m₃, does_moves hMoves (.read hReads hFirst), hSecond⟩
  | write adr data next ih =>
    obtain ⟨m₁, m₂, hMoves, hWrites, hNext⟩ := does_write h
    obtain ⟨x, m₃, hFirst, hSecond⟩ := ih hNext
    exact ⟨x, m₃, does_moves hMoves (.write hWrites hFirst), hSecond⟩

/-! ### Pre- and postconditions -/

/-- The surroundings cannot make it false. -/
def Stable (dev : Device ι w μ) (P : μ → Prop) : Prop := ∀ m m', P m → dev.Moves m m' → P m'

/-- Whatever it reads, and however the surroundings move: from the one condition, the program comes to the other. -/
def Meets (dev : Device ι w μ) (P : μ → Prop) (p : Program ι w α) (Q : α → μ → Prop) : Prop :=
  ∀ m x m', P m → Does dev p m x m' → Q x m'

variable {P P' : μ → Prop} {Q R : α → μ → Prop}

theorem Meets.mono {p : Program ι w α} (h : Meets dev P p Q) (hPre : ∀ m, P' m → P m) (hPost : ∀ x m, Q x m → R x m) :
    Meets dev P' p R :=
  fun m x m' hP hDoes => hPost x m' (h m x m' (hPre m hP) hDoes)

theorem meets_pure {c : Prop} {p : Program ι w α} (h : c → Meets dev P p Q) : Meets dev (fun m => c ∧ P m) p Q := by
  rintro m x m' ⟨hc, hP⟩ hDoes
  exact h hc m x m' hP hDoes

theorem meets_exists {κ : Type} {I : κ → μ → Prop} {p : Program ι w α} (h : ∀ k, Meets dev (I k) p Q) :
    Meets dev (fun m => ∃ k, I k m) p Q := by
  rintro m x m' ⟨k, hI⟩ hDoes
  exact h k m x m' hI hDoes

theorem Stable.moves (h : Stable dev P) {m m' : μ} (hP : P m) (hMoves : Relation.ReflTransGen dev.Moves m m') : P m' := by
  induction hMoves with
  | refl => exact hP
  | tail _ hLast ih => exact h _ _ ih hLast

theorem Stable.and (h : Stable dev P) (h' : Stable dev P') : Stable dev fun m => P m ∧ P' m := by
  rintro m m' ⟨hP, hP'⟩ hMoves
  exact ⟨h m m' hP hMoves, h' m m' hP' hMoves⟩

theorem Stable.imp (h : Stable dev P) (c : Prop) : Stable dev fun m => c → P m := fun m m' hP hMoves hc => h m m' (hP hc) hMoves

theorem stable_forall {κ : Sort*} {I : κ → μ → Prop} (h : ∀ k, Stable dev (I k)) : Stable dev fun m => ∀ k, I k m :=
  fun m m' hI hMoves k => h k m m' (hI k) hMoves

theorem stable_const (dev : Device ι w μ) (c : Prop) : Stable dev fun _ => c := fun _ _ hc _ => hc

theorem meets_done (hStable : Stable dev P) {x : α} (h : ∀ m, P m → Q x m) : Meets dev P (.done x) Q := by
  intro m y m' hP hDoes
  obtain ⟨rfl, hMoves⟩ := does_done hDoes
  exact h m' (hStable.moves hP hMoves)

theorem meets_read (hStable : Stable dev P) {adr : ι} {next : w → Program ι w α} {I : w → μ → Prop}
    (hRead : ∀ m v m', P m → dev.Reads adr m v m' → I v m') (hNext : ∀ v, Meets dev (I v) (next v) Q) :
    Meets dev P (.read adr next) Q := by
  intro m x m' hP hDoes
  obtain ⟨m₁, v, m₂, hMoves, hReads, hRest⟩ := does_read hDoes
  exact hNext v m₂ x m' (hRead m₁ v m₂ (hStable.moves hP hMoves) hReads) hRest

theorem meets_write (hStable : Stable dev P) {adr : ι} {data : w} {next : Program ι w α} {I : μ → Prop}
    (hWrite : ∀ m m', P m → dev.Writes adr data m m' → I m') (hNext : Meets dev I next Q) :
    Meets dev P (.write adr data next) Q := by
  intro m x m' hP hDoes
  obtain ⟨m₁, m₂, hMoves, hWrites, hRest⟩ := does_write hDoes
  exact hNext m₂ x m' (hWrite m₁ m₂ (hStable.moves hP hMoves) hWrites) hRest

theorem Meets.bind {p : Program ι w α} {f : α → Program ι w β} {Q : β → μ → Prop} (h : Meets dev P p R)
    (hNext : ∀ x, Meets dev (R x) (f x) Q) : Meets dev P (p >>= f) Q := by
  intro m y m' hP hDoes
  obtain ⟨x, m₁, hFirst, hSecond⟩ := does_bind hDoes
  exact hNext x m₁ y m' (h m x m₁ hP hFirst) hSecond

theorem meets_load (hStable : Stable dev P) {adr : ι} {Q : w → μ → Prop} (hAfter : ∀ v, Stable dev (Q v))
    (hRead : ∀ m v m', P m → dev.Reads adr m v m' → Q v m') : Meets dev P (.load adr) Q :=
  meets_read hStable hRead fun v => meets_done (hAfter v) fun _ h => h

theorem meets_store (hStable : Stable dev P) {adr : ι} {data : w} {Q : μ → Prop} (hAfter : Stable dev Q)
    (hWrite : ∀ m m', P m → dev.Writes adr data m m' → Q m') : Meets dev P (.store adr data) fun _ => Q :=
  meets_write hStable hWrite (meets_done hAfter fun _ h => h)

theorem meets_pollUntil {ok : w → Bool} {adr : ι} {I : μ → Prop} (hStable : Stable dev P) (hAfter : Stable dev I)
    (hRead : ∀ m v m', P m → dev.Reads adr m v m' → P m' ∧ (ok v = true → I m')) (limit : Nat) :
    Meets dev P (.pollUntil ok adr limit) fun ready m => P m ∧ (ready = true → I m) := by
  induction limit with
  | zero => exact meets_done hStable fun m hP => ⟨hP, fun hReady => absurd hReady Bool.false_ne_true⟩
  | succ limit ih =>
    refine meets_read hStable hRead fun v => ?_
    split_ifs with hOk
    · exact meets_done (hStable.and (hAfter.imp _)) fun m h => ⟨h.1, fun _ => h.2 hOk⟩
    · exact ih.mono (fun _ h => h.1) fun _ _ h => h

theorem meets_pollUntil_once {ok : w → Bool} {adr : ι} (hStable : Stable dev P)
    (hRead : ∀ m v m', P m → dev.Reads adr m v m' → P m' ∧ ok v = true) (limit : Nat) :
    Meets dev P (.pollUntil ok adr (limit + 1)) fun ready m => P m ∧ ready = true := by
  refine meets_read hStable hRead fun v => ?_
  split_ifs with hOk
  · exact meets_done (hStable.and (stable_const dev _)) fun m h => ⟨h.1, rfl⟩
  · rintro m x m' ⟨-, hOk'⟩
    exact absurd hOk' hOk

/-- Nothing that happens to the device makes it false. -/
structure Lasting (dev : Device ι w μ) (F : μ → Prop) : Prop where
  read : ∀ adr m v m', F m → dev.Reads adr m v m' → F m'
  write : ∀ adr data m m', F m → dev.Writes adr data m m' → F m'
  move : Stable dev F

theorem Lasting.does {F : μ → Prop} (h : Lasting dev F) {p : Program ι w α} {m m' : μ} {x : α} (hF : F m)
    (hDoes : Does dev p m x m') : F m' := by
  induction hDoes with
  | done => exact hF
  | move hMoves _ ih => exact ih (h.move _ _ hF hMoves)
  | read hReads _ ih => exact ih (h.read _ _ _ _ hF hReads)
  | write hWrites _ ih => exact ih (h.write _ _ _ _ hF hWrites)

theorem Meets.frame {p : Program ι w α} (h : Meets dev P p Q) {F : μ → Prop} (hLasting : Lasting dev F) :
    Meets dev (fun m => P m ∧ F m) p fun x m => Q x m ∧ F m := by
  rintro m x m' ⟨hP, hF⟩ hDoes
  exact ⟨h m x m' hP hDoes, hLasting.does hF hDoes⟩

/-- What no access at the address changes, no driver at the address does. -/
theorem meets_at (hStable : Stable dev P) {adr : ι} (hRead : ∀ m v m', P m → dev.Reads adr m v m' → P m')
    (hWrite : ∀ data m m', P m → dev.Writes adr data m m' → P m') (d : Driver w α) :
    Meets dev P (d.at adr) fun _ => P := by
  induction d with
  | done x => exact meets_done hStable fun _ h => h
  | read next ih => exact meets_read hStable hRead ih
  | write data next ih => exact meets_write hStable (hWrite data) ih

/-! ### Buses -/

/-- A bus whose accesses return, and are each a step of the device at some time between their begin and their end. -/
structure Implements (bus : Bus ι w σ) (dev : Device ι w μ) (Inv : σ → Prop) (abs : σ → μ) : Prop where
  read : ∀ adr s, Inv s → ∃ v s' m₁ m₂, bus.read adr s = some (v, s') ∧ Inv s' ∧
    dev.Moves (abs s) m₁ ∧ dev.Reads adr m₁ v m₂ ∧ dev.Moves m₂ (abs s')
  write : ∀ adr data s, Inv s → ∃ s' m₁ m₂, bus.write adr data s = some s' ∧ Inv s' ∧
    dev.Moves (abs s) m₁ ∧ dev.Writes adr data m₁ m₂ ∧ dev.Moves m₂ (abs s')

variable {bus : Bus ι w σ} {Inv : σ → Prop} {abs : σ → μ}

/-- Every program returns on the bus, and does there what it may do on the device. -/
theorem Implements.run (h : Implements bus dev Inv abs) (p : Program ι w α) {s : σ} (hInv : Inv s) :
    ∃ x s', p.run bus s = some (x, s') ∧ Inv s' ∧ Does dev p (abs s) x (abs s') := by
  induction p generalizing s with
  | done x => exact ⟨x, s, rfl, hInv, .done⟩
  | read adr next ih =>
    obtain ⟨v, s₁, m₁, m₂, hRead, hLater, hBefore, hReads, hAfter⟩ := h.read adr s hInv
    obtain ⟨x, s', hRun, hEnd, hDoes⟩ := ih v hLater
    refine ⟨x, s', ?_, hEnd, .move hBefore (.read hReads (.move hAfter hDoes))⟩
    rw [Program.run, hRead]
    exact hRun
  | write adr data next ih =>
    obtain ⟨s₁, m₁, m₂, hWrite, hLater, hBefore, hWrites, hAfter⟩ := h.write adr data s hInv
    obtain ⟨x, s', hRun, hEnd, hDoes⟩ := ih hLater
    refine ⟨x, s', ?_, hEnd, .move hBefore (.write hWrites (.move hAfter hDoes))⟩
    rw [Program.run, hWrite]
    exact hRun

theorem Implements.meets (h : Implements bus dev Inv abs) {p : Program ι w α} (hMeets : Meets dev P p Q) {s : σ}
    (hInv : Inv s) (hPre : P (abs s)) : ∃ x s', p.run bus s = some (x, s') ∧ Inv s' ∧ Q x (abs s') := by
  obtain ⟨x, s', hRun, hEnd, hDoes⟩ := h.run p hInv
  exact ⟨x, s', hRun, hEnd, hMeets _ _ _ hPre hDoes⟩

/-- Every access returns. -/
structure Bus.Total (bus : Bus ι w σ) : Prop where
  read : ∀ adr s, ∃ r, bus.read adr s = some r
  write : ∀ adr data s, ∃ s', bus.write adr data s = some s'

/-- A bus as a device that nothing else moves. -/
def Bus.device (bus : Bus ι w σ) : Device ι w σ where
  Reads adr s v s' := bus.read adr s = some (v, s')
  Writes adr data s s' := bus.write adr data s = some s'
  Moves s s' := s' = s

theorem Bus.Total.implements (h : bus.Total) : Implements bus bus.device (fun _ => True) id := by
  constructor
  · rintro adr s -
    obtain ⟨⟨v, s'⟩, hRead⟩ := h.read adr s
    exact ⟨v, s', s, s', hRead, trivial, rfl, hRead, rfl⟩
  · rintro adr data s -
    obtain ⟨s', hWrite⟩ := h.write adr data s
    exact ⟨s', s, s', hWrite, trivial, rfl, hWrite, rfl⟩

end WrRfDemo.Clocked

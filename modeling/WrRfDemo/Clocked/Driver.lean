/-! # Drivers of a port

A driver reads and writes one word and goes on with what it has read. What it does is told apart from the port
that it is run on, so that one port can stand for another.
-/

namespace WrRfDemo.Clocked

universe u v

/-- A program that reads and writes one word. -/
inductive Driver (w : Type u) (α : Type v)
  | done (a : α)
  | read (next : w → Driver w α)
  | write (data : w) (next : Driver w α)

/-- The two accesses to a word, either of which may not return. -/
structure Port (w : Type u) (σ : Type v) where
  read : σ → Option (w × σ)
  write : w → σ → Option σ

namespace Driver

variable {w : Type u} {α β σ : Type v}

def bind : Driver w α → (α → Driver w β) → Driver w β
  | done a, f => f a
  | read next, f => read fun g => (next g).bind f
  | write data next, f => write data (next.bind f)

instance : Monad (Driver w) where
  pure := done
  bind := bind

def run (port : Port w σ) : Driver w α → σ → Option (α × σ)
  | done a, s => some (a, s)
  | read next, s => (port.read s).bind fun r => (next r.1).run port r.2
  | write data next, s => (port.write data s).bind fun s => next.run port s

theorem run_bind (port : Port w σ) (d : Driver w α) (f : α → Driver w β) (s : σ) :
    (d >>= f).run port s = (d.run port s).bind fun r => (f r.1).run port r.2 := by
  change (d.bind f).run port s = _
  induction d generalizing s with
  | done a => rfl
  | read next ih =>
    rw [bind, run, run, Option.bind_assoc]
    exact congrArg _ (funext fun r => ih r.1 r.2)
  | write data next ih =>
    rw [bind, run, run, Option.bind_assoc]
    exact congrArg _ (funext fun s => ih s)

theorem run_then {port : Port w σ} {d : Driver w α} {f : α → Driver w β} {s s' : σ} {a : α}
    (h : d.run port s = some (a, s')) : (d >>= f).run port s = (f a).run port s' := by
  rw [run_bind, h]
  rfl

end Driver

end WrRfDemo.Clocked

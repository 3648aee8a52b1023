import WrRfDemo.Clocked.Delay
import WrRfDemo.Synth.Stage

/-! # The synthesizer channel

Four phases a clock, each with a stage of its own. The accumulator and the stages move with `dreq_i`, the
registers behind the tables with every clock.
-/

namespace WrRfDemo.Synth

open Clocked

structure Quad (α : Type) where
  c0 : α
  c1 : α
  c2 : α
  c3 : α
deriving DecidableEq

namespace Quad

variable {α : Type}

def get (q : Quad α) (k : Fin 4) : α :=
  match k with
  | 0 => q.c0
  | 1 => q.c1
  | 2 => q.c2
  | 3 => q.c3

def ofFn (f : Fin 4 → α) : Quad α := ⟨f 0, f 1, f 2, f 3⟩

@[simp] theorem get_ofFn (f : Fin 4 → α) : ∀ k, (ofFn f).get k = f k
  | 0 => rfl
  | 1 => rfl
  | 2 => rfl
  | 3 => rfl

theorem ext_get {p q : Quad α} (h : ∀ k, p.get k = q.get k) : p = q := by
  obtain ⟨p0, p1, p2, p3⟩ := p
  obtain ⟨q0, q1, q2, q3⟩ := q
  rw [Quad.mk.injEq]
  exact ⟨h 0, h 1, h 2, h 3⟩

end Quad

structure QuadIn where
  rstN : Bool
  accLoad : Bool
  tuneLoad : Bool
  dreq : Bool
  accI : BitVec 43
  tuneI : BitVec 43
deriving DecidableEq

structure QuadChannel where
  tune : BitVec 43
  acc : BitVec 43
  accD0 : BitVec 43
  accF : Quad (BitVec 43)
  accO : BitVec 43
  stages : Quad Stage
  lutData : Quad (BitVec 36)
deriving DecidableEq

/-- The accumulator goes on in this clock. -/
def QuadIn.advances (i : QuadIn) : Bool := i.rstN && !i.accLoad && i.dreq

namespace QuadChannel

/-- `g_dither_init_value` of the instances. -/
def seed (k : Fin 4) : BitVec 32 := BitVec.ofNat 32 (k.val * 1234567)

def phases (base tune : BitVec 43) : Quad (BitVec 43) :=
  ⟨base, base + tune >>> 2, base + tune >>> 1, base + tune >>> 2 + tune >>> 1⟩

def clock (i : QuadIn) (s : QuadChannel) : QuadChannel where
  tune := if !i.rstN then 0 else if i.tuneLoad then i.tuneI else s.tune
  acc := if !i.rstN then 0 else if i.accLoad then i.accI else if i.dreq then s.acc + s.tune else s.acc
  accD0 := if i.advances then s.acc else s.accD0
  accO := if i.advances then s.acc else s.accO
  accF := if i.advances then phases s.accD0 s.tune else s.accF
  stages := .ofFn fun k => (s.stages.get k).clock (seed k) i.rstN i.dreq (s.accF.get k)
    (s.lutData.get k)
  lutData := .ofFn fun k => lut (s.stages.get k).lutAddrO

/-- `y0_o` to `y3_o`. -/
def y (s : QuadChannel) : Quad (BitVec 14) := .ofFn fun k => (s.stages.get k).yO

end QuadChannel

end WrRfDemo.Synth

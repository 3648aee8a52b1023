import Mathlib.Logic.Basic

/-! # Arrays with checked indices

An index outside its array ends the computation with the name of the array, the index and the size.
-/

namespace WrRfDemo.Memory

structure Outside (ν : Type*) where
  array : ν
  index : Int
  size : Nat
deriving DecidableEq

variable {ν α : Type*} {m n : Nat}

def load (name : ν) (a : Vector α n) (k : Int) : Except (Outside ν) α :=
  if h : 0 ≤ k ∧ k.toNat < n then .ok a[k.toNat] else .error ⟨name, k, n⟩

def save (name : ν) (a : Vector α n) (k : Int) (v : α) : Except (Outside ν) (Vector α n) :=
  if h : 0 ≤ k ∧ k.toNat < n then .ok (a.set k.toNat v) else .error ⟨name, k, n⟩

def copy (name : ν) (a : Vector α m) (n : Nat) : Except (Outside ν) (Vector α n) :=
  if h : n ≤ m then .ok (Vector.ofFn fun k => a[k.val]) else .error ⟨name, m, m⟩

theorem load_ofNat (name : ν) (a : Vector α n) {k : Nat} (hk : k < n) : load name a k = .ok a[k] := by
  rw [load, dif_pos ⟨Int.natCast_nonneg k, hk⟩]
  rfl

theorem save_ofNat (name : ν) (a : Vector α n) {k : Nat} (v : α) (hk : k < n) : save name a k v = .ok (a.set k v) := by
  rw [save, dif_pos ⟨Int.natCast_nonneg k, hk⟩]
  rfl

theorem save_outside (name : ν) (a : Vector α n) (k : Nat) (v : α) (hk : n ≤ k) : save name a k v = .error ⟨name, k, n⟩ :=
  dif_neg fun h => Nat.not_lt.mpr hk h.2

theorem copy_of_le (name : ν) (a : Vector α m) (hn : n ≤ m) : copy name a n = .ok (Vector.ofFn fun k => a[k.val]) :=
  dif_pos hn

end WrRfDemo.Memory

import WrRfDemo.Clocked.Run

/-! # Streams through a pipeline

The states of a run, cycle by cycle, and a valid bit that is handed from stage to stage.
-/

namespace WrRfDemo.Clocked

variable {ι σ : Type*} {step : ι → σ → σ} {inputs : List ι} {s : σ}

/-- The state after the first `n` inputs. -/
def stateAt (step : ι → σ → σ) (inputs : List ι) (s : σ) (n : Nat) : σ := run step (inputs.take n) s

theorem stateAt_succ {n : Nat} {i : ι} (h : inputs[n]? = some i) :
    stateAt step inputs s (n + 1) = step i (stateAt step inputs s n) := by
  rw [stateAt, List.take_add_one, h, run_append]
  rfl

theorem exists_stateAt_succ {n : Nat} (hn : n < inputs.length) :
    ∃ i ∈ inputs, stateAt step inputs s (n + 1) = step i (stateAt step inputs s n) := by
  have hInput := List.getElem?_eq_getElem hn
  exact ⟨_, List.mem_of_getElem? hInput, stateAt_succ hInput⟩

theorem stateAt_invariant (Inv : Nat → σ → Prop) (hFirst : Inv 0 s)
    (hNext : ∀ n i s, i ∈ inputs → Inv n s → Inv (n + 1) (step i s)) {n : Nat} (hn : n ≤ inputs.length) :
    Inv n (stateAt step inputs s n) := by
  induction n with
  | zero => exact hFirst
  | succ n ih =>
    obtain ⟨i, hi, hStep⟩ := exists_stateAt_succ hn
    rw [hStep]
    exact hNext n i _ hi (ih (Nat.le_of_succ_le hn))

/-- A bit that is handed on from stage to stage shows, at stage `j`, what went in `j + 1` cycles ago. -/
theorem bit_stateAt {bit : Nat → σ → Bool} {goesIn : ι → Bool} {depth : Nat} (hEmpty : ∀ j ≤ depth, bit j s = false)
    (hFirst : ∀ i ∈ inputs, ∀ s, bit 0 (step i s) = goesIn i)
    (hNext : ∀ i ∈ inputs, ∀ j < depth, ∀ s, bit (j + 1) (step i s) = bit j s) {j : Nat} (hj : j ≤ depth) {n : Nat}
    (hn : n ≤ inputs.length) :
    bit j (stateAt step inputs s n) = true ↔
      ∃ k, n = k + j + 1 ∧ ∃ i, inputs[k]? = some i ∧ goesIn i = true := by
  induction n generalizing j with
  | zero =>
    rw [show stateAt step inputs s 0 = s from rfl, hEmpty j hj]
    constructor
    · intro hFalse
      cases hFalse
    · rintro ⟨k, hk, -⟩
      omega
  | succ n ih =>
    have hInput := List.getElem?_eq_getElem hn
    have hMem := List.mem_of_getElem? hInput
    rw [stateAt_succ hInput]
    cases j with
    | zero =>
      rw [hFirst _ hMem]
      constructor
      · exact fun hIn => ⟨n, rfl, _, hInput, hIn⟩
      · rintro ⟨k, hk, i, hSome, hIn⟩
        obtain rfl : n = k := by omega
        rw [hInput, Option.some.injEq] at hSome
        rw [hSome]
        exact hIn
    | succ j =>
      rw [hNext _ hMem j hj, ih (Nat.le_of_succ_le hj) (Nat.le_of_succ_le hn)]
      constructor
      · rintro ⟨k, hk, hIn⟩
        exact ⟨k, by omega, hIn⟩
      · rintro ⟨k, hk, hIn⟩
        exact ⟨k, by omega, hIn⟩

end WrRfDemo.Clocked

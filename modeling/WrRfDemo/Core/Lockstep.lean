import WrRfDemo.Core.Agreement
import WrRfDemo.Synth.Lockstep

/-! # Two cores in step

Cores that are tuned alike stay as far apart as they are. If they have come to one phase, they put out the same samples, within
one step of the converter, whatever their dither registers hold.
-/

namespace WrRfDemo.Core

open Clocked Cic Synth

variable {bias : BitVec 43} {gain : BitVec 16} {n₀ n : Nat} {distance : BitVec 43} {s : DdsCore × DdsCore}

theorem synth_clock (i : CoreIn) (s : DdsCore) : (s.clock i).synth = s.synth.clock (s.quadIn i) := by
  rw [DdsCore.clock]
  split_ifs <;> rfl

theorem advances_quadIn {i : CoreIn} (hRuns : Runs bias gain i) (hUnloaded : i.synthAccLoad = false) (s : DdsCore) :
    (s.quadIn i).advances = true := by
  simp [QuadIn.advances, DdsCore.quadIn, hRuns.rstNRef, hUnloaded]

def channels (s : DdsCore × DdsCore) : QuadChannel × QuadChannel := (s.1.synth, s.2.synth)

def channelsIn (i : CoreIn × CoreIn) (s : DdsCore × DdsCore) : QuadIn × QuadIn := (s.1.quadIn i.1, s.2.quadIn i.2)

theorem channels_both (i : CoreIn × CoreIn) (s : DdsCore × DdsCore) :
    channels (both i s) = beside QuadChannel.clock QuadChannel.clock (channelsIn i s) (channels s) := by
  rw [channels, both, synth_clock, synth_clock]
  rfl

/-- Neither accumulator is loaded. -/
structure Unloaded (i : CoreIn × CoreIn) : Prop where
  first : i.1.synthAccLoad = false
  second : i.2.synthAccLoad = false

/-- Two cores that have settled after `n₀` cycles, `n` cycles later. -/
structure Coasting (n₀ : Nat) (distance : BitVec 43) (n : Nat) (s : DdsCore × DdsCore) : Prop where
  merging : Merging (n₀ + n) s
  apart : QuadChannel.Apart distance n (channels s)

theorem Coasting.step (hLong : 15365 ≤ n₀) {i : CoreIn × CoreIn} (h : Coasting n₀ distance n s)
    (hSame : SameWord bias gain i s) (hFree : Unloaded i) : Coasting n₀ distance (n + 1) (both i s) := by
  have hTune : QuadChannel.SameTune (channelsIn i s) (channels s) :=
    ⟨advances_quadIn hSame.runsA hFree.first s.1, advances_quadIn hSame.runsB hFree.second s.2, h.merging.synth (by omega)⟩
  refine ⟨h.merging.step hSame, ?_⟩
  rw [channels_both]
  exact h.apart.step hTune

/-- Two cores out of any two pasts that take the same words: fifteen words later the distance of their accumulators is fixed,
as long as neither is loaded; and if it is zero, all their samples agree within one step from ten cycles on. -/
theorem cores_locked {beforeA beforeB : List CoreIn} {a b : DdsCore} {settling inputs : List (CoreIn × CoreIn)}
    (hResetA : a.cic = .reset) (hResetB : b.cic = .reset) (hLong : 15365 ≤ settling.length)
    (hPhase : (run DdsCore.clock beforeA a).cic.curCount = (run DdsCore.clock beforeB b).cic.curCount)
    (hSame : Along both (SameWord bias gain) (settling ++ inputs) (run DdsCore.clock beforeA a, run DdsCore.clock beforeB b))
    (hFree : ∀ i ∈ inputs, Unloaded i) :
    let settled := run both settling (run DdsCore.clock beforeA a, run DdsCore.clock beforeB b)
    let last := run both inputs settled
    last.1.synth.acc - last.2.synth.acc = settled.1.synth.acc - settled.2.synth.acc ∧
      (settled.1.synth.acc = settled.2.synth.acc → 10 ≤ inputs.length →
        ∀ k, Near 1 (last.1.synth.y.get k).toNat (last.2.synth.y.get k).toNat) := by
  intro settled last
  obtain ⟨hSettling, hInputs⟩ := along_append.mp hSame
  have hSettled : Merging settling.length settled := merging_run hResetA hResetB hPhase hSettling
  have hAlong : Along both (fun i s => SameWord bias gain i s ∧ Unloaded i) inputs settled :=
    hInputs.and (along_of_forall (fun i hi _ => hFree i hi) settled)
  have hStart : Coasting settling.length _ 0 settled := ⟨hSettled, QuadChannel.apart_zero (channels settled)⟩
  have hLast := run_counted (fun _ _ _ h hOk => Coasting.step hLong h hOk.1 hOk.2) inputs hStart hAlong
  refine ⟨hLast.apart.kept, fun hSame hMany => hLast.apart.near ?_ (by omega)⟩
  rw [channels, hSame]
  exact BitVec.sub_self _

/-- Two slaves with different pasts, whose accumulators were loaded with one value in the end. -/
theorem cores_locked_loaded :
    let given (word : BitVec 18) : CoreIn := ⟨true, false, 0, ⟨0, 0⟩, false, true, 0, 1000, 2, word, false, 0, false⟩
    let load : CoreIn := { given 0 with synthAccIn := 7, synthAccLoad := true }
    let settling := List.replicate 15365 (given 0, given 0) ++ [(load, load)]
    let last := run both (List.replicate 10 (given 0, given 0))
      (run both settling (run DdsCore.clock [given 5] .cleared, run DdsCore.clock [given 9] .cleared))
    ∀ k, Near 1 (last.1.synth.y.get k).toNat (last.2.synth.y.get k).toNat := by
  intro given load settling last
  have hCentre : field 0 11 (0 : BitVec 32) ++ (1000 : BitVec 32) = (1000 : BitVec 43) := by decide
  have hWord : ∀ s, DdsCore.cicInput (given 0) s = 0 ∧ DdsCore.cicInput load s = 0 := fun s => ⟨rfl, rfl⟩
  have hRuns : Runs 1000 2 (given 0) := ⟨rfl, hCentre, rfl⟩
  have hLoad : Runs 1000 2 load := ⟨rfl, hCentre, rfl⟩
  have hGiven : ∀ s, SameWord 1000 2 (given 0, given 0) s := fun s =>
    ⟨hRuns, hRuns, rfl, rfl, fun _ => (hWord s.1).1.trans (hWord s.2).1.symm⟩
  have hAlong : Along both (SameWord 1000 2) (settling ++ List.replicate 10 (given 0, given 0))
      (run DdsCore.clock [given 5] .cleared, run DdsCore.clock [given 9] .cleared) := by
    refine along_of_forall (fun j hj s => ?_) _
    simp only [settling, List.mem_append, List.mem_replicate, List.mem_singleton] at hj
    obtain (⟨-, rfl⟩ | rfl) | ⟨-, rfl⟩ := hj
    · exact hGiven s
    · exact ⟨hLoad, hLoad, rfl, rfl, fun _ => (hWord s.1).2.trans (hWord s.2).2.symm⟩
    · exact hGiven s
  have hLong : 15365 ≤ settling.length := by
    rw [List.length_append, List.length_replicate]
    omega
  have hCount : ∀ word, (run DdsCore.clock [given word] .cleared).cic.curCount = 1 := fun word => by
    rw [run_cons, run_nil, cic_clock]
    rfl
  have hReset : DdsCore.cleared.cic = .reset := rfl
  have hFree : ∀ i ∈ List.replicate 10 (given 0, given 0), Unloaded i := by
    rintro i hi
    obtain rfl := List.eq_of_mem_replicate hi
    exact ⟨rfl, rfl⟩
  have hLoaded : ∀ s : DdsCore, (s.clock load).synth.acc = 7 := fun s => by
    rw [synth_clock]
    rfl
  have hAcc : ∀ s : DdsCore × DdsCore, (run both settling s).1.synth.acc = (run both settling s).2.synth.acc := fun s => by
    rw [run_append]
    exact (hLoaded _).trans (hLoaded _).symm
  have hLocked := cores_locked hReset hReset hLong ((hCount 5).trans (hCount 9).symm) hAlong hFree
  with_reducible exact hLocked.2 (hAcc _) (by decide)

end WrRfDemo.Core

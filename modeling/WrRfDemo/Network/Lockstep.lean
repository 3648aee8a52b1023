import WrRfDemo.Network.Rounds

/-! # The slave in step with the master

What holds at any two moments of a run of the whole network, while it stays in time.
-/

namespace WrRfDemo.Network

open Clocked Timing WrRfDemo.Core Cic Dds Synth

variable {clkId delay : BitVec 16} {bias : BitVec 43} {gain : BitVec 16} {first : Nat} {M : Master} {S : Slave} {o : SystemLog}
  {s : System}

/-- Two moments of a run, `m` ticks of the slave apart, from the one on at which the slave stands where the master stood after
`n` ticks. -/
theorem Joined.locked {o' : SystemLog} {s' : System} (hMid : Joined clkId delay bias gain first M S o s)
    (hLast : Joined clkId delay bias gain first M S o' s') (hGrown : o.slaveIn <+: o'.slaveIn)
    (hLinked : Linked delay bias gain M o'.masterIn 0 S o'.slaveIn) {n m : Nat} (hSettled : 15365 ≤ n)
    (hn : n + m ≤ o'.masterIn.length) (hShift : s.slave.session.now = M.now + n + delay.toNat + 5)
    (hLater : s'.slave.session.now = s.slave.session.now + m) :
    let master (n : Nat) : Master := run Master.step (o'.masterIn.take n) M
    s'.slave.core.synth.tune = (master (n + m)).core.synth.tune ∧
      QuadChannel.Apart (s.slave.core.synth.acc - (master n).core.synth.acc) m (channelsOf (s'.slave, master (n + m))) := by
  intro master
  obtain ⟨moreIn, hMore⟩ := hGrown
  have hAfter : run (Slave.step delay) moreIn s.slave = s'.slave := by
    rw [← hMid.slave_eq, ← run_append, hMore, hLast.slave_eq]
  have hMidTicks := now_slave delay o.slaveIn S
  have hTicks := now_slave delay moreIn s.slave
  rw [hMid.slave_eq, hShift] at hMidTicks
  rw [hAfter, hLater] at hTicks
  obtain rfl : m = moreIn.length := by omega
  rw [← hMore] at hLinked
  have hApart := hLinked.apart hMidTicks.symm (by omega) hn
  have hTune := hLinked.tunes (n := n + moreIn.length) (by rw [List.length_append]; omega) (by omega) hn
  dsimp only at hApart
  rw [hMid.slave_eq, hAfter] at hApart
  rw [run_append, hMid.slave_eq, hAfter] at hTune
  exact ⟨hTune, hApart⟩

/-- With the clocks in any order: what comes to the slave are the first of the master's samples, each of them as the master's
interpolator took it. Once fifteen samples have been applied, the slave is tuned as the master was, their phases keep their
distance, and if there is none, their outputs agree within one step. -/
theorem system_follows {events more : List SystemEvent} (hRest : s.AtRest delay)
    (hInTime : Along (watch (System.step clkId delay) (System.see clkId)) (System.InTime bias gain (dueOf s.master delay 0))
      (events ++ more) (.empty, s))
    (hFits : (run (System.step clkId delay) (events ++ more) s).now + 1 + delay.toNat ≤ 2 ^ 32 * refClkRate) :
    let mid := run (watch (System.step clkId delay) (System.see clkId)) events (.empty, s)
    let last := run (watch (System.step clkId delay) (System.see clkId)) more mid
    let master (n : Nat) : Master := run Master.step (last.1.masterIn.take n) s.master
    last.2.core = (master last.1.masterIn.length).core ∧
      last.1.drive.arrived last.2.slave.session <+: last.1.master.captured.map Sample.entry ∧
      (∀ n sample, last.1.master.captured[n]? = some sample → SampleAt s.now last.1.master.fed n sample) ∧
      ∀ n m, 15365 ≤ n → n + m ≤ last.1.masterIn.length → mid.2.slave.session.now = s.now + n + delay.toNat + 5 →
        last.2.slave.session.now = mid.2.slave.session.now + m →
        last.2.slave.core.synth.tune = (master (n + m)).core.synth.tune ∧
          last.2.slave.core.synth.acc - (master (n + m)).core.synth.acc =
            mid.2.slave.core.synth.acc - (master n).core.synth.acc ∧
          (mid.2.slave.core.synth.acc = (master n).core.synth.acc → 10 ≤ m →
            ∀ q, Near 1 (last.2.slave.core.synth.y.get q).toNat ((master (n + m)).core.synth.y.get q).toNat) := by
  intro mid last master
  have hStart := hRest.joined clkId bias gain
  have hMid : Joined clkId delay bias gain (dueOf s.master delay 0) s.master s.slave mid.1 mid.2 :=
    watched_invariant (fun _ _ _ h hOk => h.step hOk) events hStart (along_append.mp hInTime).1
  have hLast : Joined clkId delay bias gain (dueOf s.master delay 0) s.master s.slave last.1 last.2 :=
    watched_invariant (fun _ _ _ h hOk => h.step hOk) more hMid (along_append.mp hInTime).2
  have hTime : dueOf s.master delay 0 + last.1.masterIn.length ≤ 2 ^ 32 * refClkRate := by
    have hNow := hLast.twin.now
    rw [now_master] at hNow
    rw [← run_watch_snd (System.step clkId delay) (System.see clkId) (events ++ more) (.empty, s), run_append] at hFits
    change last.2.now + 1 + delay.toNat ≤ _ at hFits
    rw [dueOf]
    omega
  have hLinked := hLast.linked hRest.master hRest.started hTime
  refine ⟨?_, (List.prefix_append _ _).trans hLast.inOrder, ?_, ?_⟩
  · change _ = (run Master.step (last.1.masterIn.take last.1.masterIn.length) s.master).core
    rw [List.take_length]
    exact hLast.twin.core.symm
  · rintro n sample hAt
    rw [← hLast.master]
    apply hLinked.sampleAt
    rw [samplesOf, hLast.master]
    exact hAt
  · rintro n m hSettled hn hShift hLater
    obtain ⟨hTune, hApart⟩ := hMid.locked hLast (slaveIn_isPrefix clkId delay more mid) hLinked hSettled hn hShift hLater
    refine ⟨hTune, hApart.kept, fun hSame hMany => hApart.near ?_ hMany⟩
    change mid.2.slave.core.synth.acc - (master n).core.synth.acc = 0
    rw [hSame]
    exact BitVec.sub_self _

def restingSystem : System := ⟨restingMaster.core, restingMaster.adc, 1000, linkIdle, [], suppliedSlave []⟩

theorem atRest_restingSystem : restingSystem.AtRest 100 :=
  ⟨atRest_restingMaster, ⟨⟨rfl, rfl, rfl, rfl, rfl⟩, rfl, rfl, rfl, rfl⟩, rfl, rfl, started_suppliedSlave []⟩

/-- Sixteen samples, one in a round. -/
theorem system_follows_rounds :
    let last := run (watch (System.step 7 100) (System.see 7))
      (rounds leading enslaved.core 16 ++ List.replicate 10 (.slaveRef 1 false enslaved.core)) (.empty, restingSystem)
    (last.1.drive.arrived last.2.slave.session).length = 16 ∧
      last.1.drive.arrived last.2.slave.session <+: last.1.master.captured.map Sample.entry ∧
      last.2.slave.core.synth.tune = (run Master.step (last.1.masterIn.take 16339) restingMaster).core.synth.tune := by
  intro last
  have hMaster : restingSystem.master = restingMaster := rfl
  have hDue : dueOf restingSystem.master 100 0 = 1101 := rfl
  have hNow : restingSystem.slave.session.now = 1050 := rfl
  have hRate : refClkRate = 125000000 := rfl
  have hEnslaved : Enslaved 1000 2 enslaved.core := ⟨⟨rfl, by decide, rfl⟩, rfl, rfl⟩
  have hRest := atRest_restingSystem
  obtain ⟨hEvents, hMid, hDrained⟩ := rounds_inTime 7 hRest leads_leading hEnslaved (by rw [hNow, hDue]; decide) 16
    (by rw [hNow, hRate]; decide)
  obtain ⟨hMore, hLast, -⟩ := hMid.slaveRefs hRest.master hDrained hEnslaved (m := 10) (by decide) (by rw [hNow, hDue]; decide)
    (by rw [hNow, hDue]; decide) (by rw [hNow, hRate]; decide) (by decide)
  have hTicks := hLast.joined.twin.now
  rw [now_master, hLast.masterTicks] at hTicks
  have hFits : (run (System.step 7 100) (rounds leading enslaved.core 16 ++ List.replicate 10 (.slaveRef 1 false enslaved.core))
      restingSystem).now + 1 + (100 : BitVec 16).toNat ≤ 2 ^ 32 * refClkRate := by
    rw [← run_watch_snd (System.step 7 100) (System.see 7) _ (.empty, restingSystem), run_append, ← hTicks, hRate]
    decide
  obtain ⟨-, hArrived, -, hLocked⟩ := system_follows hRest (along_append.mpr ⟨hEvents, hMore⟩) hFits
  have hShift := hMid.now_slave
  have hLater := hLast.now_slave
  rw [← Nat.add_assoc, ← hShift] at hLater
  have hTune := (hLocked 16329 10 (by decide) (by rw [hLast.masterTicks]; decide) (hShift.trans (by rw [hNow]; rfl)) hLater).1
  simp only [Nat.reduceAdd, hMaster] at hTune
  rw [show last = _ from run_append _ _ _ _]
  exact ⟨hLast.arrived, hArrived, hTune⟩

end WrRfDemo.Network

import WrRfDemo.Core.Lockstep
import WrRfDemo.Network.Master
import WrRfDemo.Network.Slave

/-! # The slave follows the master

A slave that is sent the samples of a master, in order and in time, is tuned like the master was, a fixed number of ticks before: the
delay, and five ticks more.
-/

namespace WrRfDemo.Network

open Clocked Timing WrRfDemo.Core Cic Dds Adc Synth

/-- The samples that the master takes in this run. -/
def samplesOf (inputs : List MasterIn) (M : Master) : List Sample :=
  (run (watch Master.step seeMaster) inputs (.empty, M)).1.captured

/-- The samples come in the master's order from number `k` on, and none that has not come is due within six ticks. -/
structure Relayed (samples : List Sample) (k first : Nat) (i : SessionIn) (o : DriveLog) (s : Session) : Prop where
  inOrder : o.arrived s ++ i.arrivals.map unpack <+: (samples.drop k).map Sample.entry
  ahead : s.now + 6 < first + 1024 * (o.arrived s).length
  running : s.now / refClkRate < 2 ^ 32

structure Follows (bias : BitVec 43) (gain : BitVec 16) (samples : List Sample) (k first : Nat) (i : SlaveIn)
    (p : DriveLog × Slave) : Prop where
  enslaved : Enslaved bias gain i.core
  relayed : Relayed samples k first i.session p.1 p.2.session

/-- A slave in the first cycle of slave mode, with no time ahead in its pipeline, and the first sample not due yet. -/
structure Started (delay : BitVec 16) (first : Nat) (S : Slave) : Prop where
  off : ∃ (path : DrivePath) (j : DriveIn), DrivePath.on j = false ∧ S.session.path = path.clock j
  cicState : S.cicState = .wait
  onTime : S.session.OnTime
  behind : S.session.Behind delay
  early : S.session.now + 6 ≤ first

def dueOf (M : Master) (delay : BitVec 16) (k : Nat) : Nat := M.now + 1 + 1024 * k + delay.toNat

/-- A master from rest on, and a slave that gets its samples from number `k` on. -/
structure Linked (delay : BitVec 16) (bias : BitVec 43) (gain : BitVec 16) (M : Master) (masterIn : List MasterIn) (k : Nat)
    (S : Slave) (slaveIn : List SlaveIn) : Prop where
  rests : M.AtRest
  leads : ∀ i ∈ masterIn, Leads bias gain i
  fits : dueOf M delay 0 + masterIn.length ≤ 2 ^ 32 * refClkRate
  started : Started delay (dueOf M delay k) S
  follows : Along (watch (Slave.step delay) seeSlave) (Follows bias gain (samplesOf masterIn M) k (dueOf M delay k)) slaveIn
    (.empty, S)

variable {delay : BitVec 16} {bias : BitVec 43} {gain : BitVec 16} {M : Master} {masterIn : List MasterIn} {k n : Nat}
  {S : Slave} {slaveIn : List SlaveIn}

/-! ### The samples -/

theorem SampleAt.due {start : Nat} {fed : List (BitVec 18)} {sample : Sample} (h : SampleAt start fed n sample)
    (hFits : (start + 1 + 1024 * n) / refClkRate < 2 ^ 32) :
    sample.entry.cycles.toNat < 2 ^ 27 ∧ sample.entry.due delay = start + 1 + 1024 * n + delay.toNat := by
  have hTai : sample.entry.tai = (tickStamp 32 (start + 1 + 1024 * n)).tai := by
    rw [Sample.entry, h.tai]
    exact Session.tai_low _
  have hCycles : sample.entry.cycles.toNat = (start + 1 + 1024 * n) % refClkRate := by
    rw [Sample.entry, h.cycles]
    exact @toNat_cycles_tickStamp 40 _
  have hRate : refClkRate = 125000000 := rfl
  have hSecond : (start + 1 + 1024 * n) % refClkRate < refClkRate := Nat.mod_lt _ (by decide)
  refine ⟨by omega, ?_⟩
  rw [Entry.due, hTai, toNat_tai_tickStamp hFits, hCycles]
  have hSplit := Nat.div_add_mod (start + 1 + 1024 * n) refClkRate
  rw [Nat.mul_comm] at hSplit
  omega

theorem sampling_run (hRest : M.AtRest) (hLeads : ∀ i ∈ masterIn, Leads bias gain i) :
    Sampling bias gain M.now (run (watch Master.step seeMaster) masterIn (.empty, M)).1
      (run (watch Master.step seeMaster) masterIn (.empty, M)).2 :=
  watch_invariant (fun _ _ _ h hOk => h.step hOk) masterIn (sampling_reset hRest) (along_of_forall (fun i hi _ => hLeads i hi) M)

theorem now_master (inputs : List MasterIn) (M : Master) : (run Master.step inputs M).now = M.now + inputs.length :=
  run_ticks Master.now (fun _ _ => rfl) inputs M

theorem now_slave (delay : BitVec 16) (inputs : List SlaveIn) (S : Slave) :
    (run (Slave.step delay) inputs S).session.now = S.session.now + inputs.length :=
  run_ticks (fun s : Slave => s.session.now) (fun _ _ => rfl) inputs S

theorem fed_isPrefix {inputs : List MasterIn} (hLeads : ∀ i ∈ inputs, Leads bias gain i) (p : MasterLog × Master) :
    p.1.fed <+: (run (watch Master.step seeMaster) inputs p).1.fed := by
  have hStep : ∀ i (q : MasterLog × Master), p.1.fed <+: q.1.fed → Leads bias gain i →
      p.1.fed <+: (watch Master.step seeMaster i q).1.fed := by
    rintro i q hBefore hOk
    rw [watch_fst, fed_seeMaster hOk]
    exact hBefore.trans (List.prefix_append _ _)
  exact run_invariant hStep inputs List.prefix_rfl (along_of_forall (fun i hi _ => hLeads i hi) p)

theorem length_fed (hRest : M.AtRest) (hLeads : ∀ i ∈ masterIn, Leads bias gain i) :
    (run (watch Master.step seeMaster) masterIn (.empty, M)).1.fed.length = masterIn.length := by
  have hNow := (sampling_run hRest hLeads).now
  rw [run_watch_snd, now_master] at hNow
  exact (Nat.add_left_cancel hNow).symm

theorem length_samplesOf (hRest : M.AtRest) (hLeads : ∀ i ∈ masterIn, Leads bias gain i) :
    (samplesOf masterIn M).length = (masterIn.length + 1022) / 1024 := by
  have hCount := (sampling_run hRest hLeads).count
  rwa [length_fed hRest hLeads] at hCount

theorem sample_of_isPrefix {samples : List Sample} {arrived : List Entry}
    (hPrefix : arrived <+: (samples.drop k).map Sample.entry) {e : Entry} (hAt : arrived[n]? = some e) :
    ∃ sample, samples[k + n]? = some sample ∧ sample.entry = e := by
  obtain ⟨rest, hRest⟩ := hPrefix
  have hMap : ((samples.drop k).map Sample.entry)[n]? = some e := by
    rw [← hRest, List.getElem?_append_left (List.getElem?_eq_some_iff.mp hAt).1, hAt]
  rw [List.getElem?_map, List.getElem?_drop, Option.map_eq_some_iff] at hMap
  exact hMap

namespace Linked

theorem sampleAt (h : Linked delay bias gain M masterIn k S slaveIn) {sample : Sample}
    (hAt : (samplesOf masterIn M)[n]? = some sample) :
    SampleAt M.now (run (watch Master.step seeMaster) masterIn (.empty, M)).1.fed n sample :=
  (sampling_run h.rests h.leads).samples n sample hAt

theorem due (h : Linked delay bias gain M masterIn k S slaveIn) {sample : Sample}
    (hAt : (samplesOf masterIn M)[n]? = some sample) :
    sample.entry.cycles.toNat < 2 ^ 27 ∧ sample.entry.due delay = dueOf M delay n ∧
      sample.entry.due delay / refClkRate < 2 ^ 32 := by
  have hSample := h.sampleAt hAt
  have hPlace := (List.getElem?_eq_some_iff.mp hSample.tune).1
  have hFits := h.fits
  rw [length_fed h.rests h.leads] at hPlace
  rw [dueOf] at hFits
  have hTick : (M.now + 1 + 1024 * n) / refClkRate < 2 ^ 32 := Nat.div_lt_of_lt_mul (by rw [Nat.mul_comm]; omega)
  obtain ⟨hCycles, hDue⟩ : sample.entry.cycles.toNat < 2 ^ 27 ∧
      sample.entry.due delay = M.now + 1 + 1024 * n + delay.toNat := hSample.due hTick
  refine ⟨hCycles, hDue, Nat.div_lt_of_lt_mul ?_⟩
  rw [hDue, Nat.mul_comm]
  omega

theorem supplied (h : Linked delay bias gain M masterIn k S slaveIn) {i : SlaveIn} {p : DriveLog × Slave}
    (hFollows : Follows bias gain (samplesOf masterIn M) k (dueOf M delay k) i p) :
    p.1.Supplied delay (dueOf M delay k) p.2.session := by
  have hPrefix := (List.prefix_append _ _).trans hFollows.relayed.inOrder
  refine ⟨hFollows.relayed.running, ?_, ?_, hFollows.relayed.ahead⟩
  · rintro n e hAt
    obtain ⟨sample, hSample, rfl⟩ := sample_of_isPrefix hPrefix hAt
    rw [(h.due hSample).2.1, dueOf, dueOf]
    omega
  · rintro e he
    obtain ⟨n, hAt⟩ := List.mem_iff_getElem?.mp he
    obtain ⟨sample, hSample, rfl⟩ := sample_of_isPrefix hPrefix hAt
    exact ⟨(h.due hSample).1, (h.due hSample).2.2⟩

end Linked

theorem Started.tracking {first : Nat} (h : Started delay first S) : Tracking delay bias gain first .empty S := by
  obtain ⟨path, j, hOff, hPath⟩ := h.off
  obtain ⟨⟨_, now⟩, cicState, core⟩ := S
  obtain rfl : _ = path.clock j := hPath
  constructor
  · exact DriveLog.scheduled_off hOff h.onTime h.behind h.early
  · exact iff_of_true h.cicState rfl
  · exact fun hSome => absurd rfl hSome
  · change (path.clock j).accLoadO = false
    simp [DrivePath.clock, DrivePath.pDriveFsm, hOff]

namespace Linked

theorem tracking (h : Linked delay bias gain M masterIn k S slaveIn) :
    Tracking delay bias gain (dueOf M delay k) (run (watch (Slave.step delay) seeSlave) slaveIn (.empty, S)).1
      (run (watch (Slave.step delay) seeSlave) slaveIn (.empty, S)).2 :=
  watched_invariant (fun _ _ _ hTracking hOk => hTracking.step (h.supplied hOk) hOk.enslaved) slaveIn h.started.tracking h.follows

theorem arrived (h : Linked delay bias gain M masterIn k S slaveIn) (hSome : slaveIn ≠ []) :
    let last := run (watch (Slave.step delay) seeSlave) slaveIn (.empty, S)
    last.1.arrived last.2.session <+: ((samplesOf masterIn M).drop k).map Sample.entry := by
  intro last
  obtain ⟨before, i, hSplit⟩ := (List.eq_nil_or_concat slaveIn).resolve_left hSome
  have hFollows := h.follows
  rw [List.concat_eq_append] at hSplit
  rw [hSplit, along_append] at hFollows
  have hOrder := hFollows.2.1.relayed.inOrder
  rw [← DriveLog.arrived_step delay] at hOrder
  have hLast : last = watch (Slave.step delay) seeSlave i (run (watch (Slave.step delay) seeSlave) before (.empty, S)) := by
    rw [← run_nil (watch (Slave.step delay) seeSlave) (watch _ _ i _), ← run_cons, ← run_append, ← hSplit]
  rw [hLast]
  exact hOrder

/-! ### The histories -/

/-- The words that the slave's interpolator was fed, as late as they come. -/
theorem fed_slave (h : Linked delay bias gain M masterIn k S slaveIn) (hSome : slaveIn ≠ [])
    (hShift : S.session.now + slaveIn.length = M.now + n + delay.toNat + 5) (hn : 1024 * k ≤ n) :
    ∃ fed, Made bias gain fed (run (Slave.step delay) slaveIn S).core ∧ 1024 * k + fed.length = n ∧
      ∀ m, 1024 * m < fed.length →
        (run (watch Master.step seeMaster) masterIn (.empty, M)).1.fed[1024 * (k + m)]? = some (fed.getD (1024 * m) 0) := by
  have hTracking := h.tracking
  have hArrived := h.arrived hSome
  rw [run_watch_snd] at hTracking
  simp only [run_watch_snd] at hArrived
  have hNow := now_slave delay slaveIn S
  have hVerdicts : (run (watch (Slave.step delay) seeSlave) slaveIn (.empty, S)).1.verdicts ≠ [] := by
    intro hNone
    have hNotLate := hTracking.scheduled.notLate
    rw [hNone, List.length_nil, triggerLatency, hNow, dueOf] at hNotLate
    omega
  obtain ⟨fed, hFed⟩ := hTracking.fed hVerdicts
  have hSince := hFed.since
  rw [hNow, dueOf] at hSince
  refine ⟨fed, hFed.made, by omega, fun m hm => ?_⟩
  obtain ⟨e, hAt, hTune⟩ := Option.map_eq_some_iff.mp (hFed.words m hm)
  obtain ⟨sample, hSample, rfl⟩ := sample_of_isPrefix hArrived hAt
  rw [(h.sampleAt hSample).tune, ← hTune]
  rfl

/-- The words that the master's interpolator was fed in its first cycles. -/
theorem fed_master (h : Linked delay bias gain M masterIn k S slaveIn) (hn : n ≤ masterIn.length) :
    ∃ fed, Made bias gain fed (run Master.step (masterIn.take n) M).core ∧ fed.length = n ∧
      fed <+: (run (watch Master.step seeMaster) masterIn (.empty, M)).1.fed := by
  have hFirst : ∀ i ∈ masterIn.take n, Leads bias gain i := fun i hi => h.leads i (List.mem_of_mem_take hi)
  have hMade := (sampling_run h.rests hFirst).made
  have hLength := length_fed h.rests hFirst
  rw [run_watch_snd] at hMade
  refine ⟨_, hMade, ?_, ?_⟩
  · rw [hLength, List.length_take, Nat.min_eq_left hn]
  · have hLater : ∀ i ∈ masterIn.drop n, Leads bias gain i := fun i hi => h.leads i (List.mem_of_mem_drop hi)
    have hPrefix := fed_isPrefix hLater (run (watch Master.step seeMaster) (masterIn.take n) (.empty, M))
    rwa [← run_append, List.take_append_drop] at hPrefix

/-- The words of the slave's history follow the master's. -/
theorem tunes (h : Linked delay bias gain M masterIn k S slaveIn)
    (hShift : S.session.now + slaveIn.length = M.now + n + delay.toNat + 5) (hSettled : 1024 * k + 15365 ≤ n)
    (hn : n ≤ masterIn.length) :
    (run (Slave.step delay) slaveIn S).core.synth.tune = (run Master.step (masterIn.take n) M).core.synth.tune := by
  have hEarly := h.started.early
  rw [dueOf] at hEarly
  have hSome : slaveIn ≠ [] := by
    rintro rfl
    rw [List.length_nil] at hShift
    omega
  obtain ⟨fedS, hSlave, hLengthS, hWords⟩ := h.fed_slave hSome hShift (by omega)
  obtain ⟨fedM, hMaster, hLengthM, hPrefix⟩ := h.fed_master hn
  obtain ⟨before, last, rfl, hBefore⟩ : ∃ before last, fedM = before ++ last ∧ before.length = 1024 * k :=
    ⟨fedM.take (1024 * k), fedM.drop (1024 * k), (List.take_append_drop _ _).symm, by rw [List.length_take]; omega⟩
  rw [List.length_append] at hLengthM
  have hAlike : Alike before [] last fedS := by
    refine ⟨by rw [hBefore, Nat.mul_mod_right]; rfl, by omega, fun j hj hTaken => ?_⟩
    obtain ⟨m, rfl⟩ : ∃ m, j = 1024 * m := ⟨j / 1024, by omega⟩
    have hSame := hWords m (by omega)
    have hPlace : 1024 * (k + m) < (before ++ last).length := by
      rw [List.length_append]
      omega
    obtain ⟨later, hLater⟩ := hPrefix
    rw [← hLater, List.getElem?_append_left hPlace, List.getElem?_append_right (by omega), hBefore, Nat.mul_add,
      Nat.add_sub_cancel_left] at hSame
    rw [List.getD_eq_getElem?_getD, hSame]
    rfl
  rw [hSlave.synth (by omega), hMaster.synth (by rw [List.length_append]; omega), List.length_append,
    show before.length + last.length - 4 = before.length + (fedS.length - 4) by omega, List.take_length_add_append, wordOf, wordOf,
    (hAlike.take (fedS.length - 4)).interpolated (by rw [List.length_take]; omega)]
  rfl

theorem before {more : List SlaveIn} (h : Linked delay bias gain M masterIn k S (slaveIn ++ more)) :
    Linked delay bias gain M masterIn k S slaveIn :=
  ⟨h.rests, h.leads, h.fits, h.started, (along_append.mp h.follows).1⟩

end Linked

/-- The channels of a slave and of a master. -/
def channelsOf (p : Slave × Master) : QuadChannel × QuadChannel := (p.1.core.synth, p.2.core.synth)

def channelsOfIn (delay : BitVec 16) (i : SlaveIn × MasterIn) (p : Slave × Master) : QuadIn × QuadIn :=
  (p.1.core.quadIn (p.1.coreIn delay i.1), p.2.core.quadIn (p.2.coreIn i.2))

theorem channelsOf_beside (i : SlaveIn × MasterIn) (p : Slave × Master) :
    channelsOf (beside (Slave.step delay) Master.step i p) =
      beside QuadChannel.clock QuadChannel.clock (channelsOfIn delay i p) (channelsOf p) := by
  change ((p.1.core.clock (p.1.coreIn delay i.1)).synth, (p.2.core.clock (p.2.coreIn i.2)).synth) = _
  rw [synth_clock, synth_clock]
  rfl

theorem Linked.sameTune {i : SlaveIn} {j : MasterIn} {more : List SlaveIn} {rest : List MasterIn}
    (h : Linked delay bias gain M masterIn k S (slaveIn ++ i :: more))
    (hShift : S.session.now + slaveIn.length = M.now + n + delay.toNat + 5) (hSettled : 1024 * k + 15365 ≤ n)
    (hn : n < masterIn.length) (hNext : masterIn = masterIn.take n ++ j :: rest) :
    QuadChannel.SameTune
      (channelsOfIn delay (i, j) (run (Slave.step delay) slaveIn S, run Master.step (masterIn.take n) M))
      (channelsOf (run (Slave.step delay) slaveIn S, run Master.step (masterIn.take n) M)) := by
  have hTracking := h.before.tracking
  have hFollows := (along_append.mp h.follows).2.1
  have hLeads : Leads bias gain j := h.leads j (by rw [hNext]; simp)
  refine ⟨?_, ?_, h.before.tunes hShift hSettled (by omega)⟩
  · rw [run_watch_snd] at hTracking
    exact advances_quadIn (hFollows.enslaved.runs_coreIn delay _) hTracking.unloaded _
  · exact advances_quadIn (hLeads.runs_coreIn _) hLeads.unloaded _

theorem Linked.sameTune_along {more : List SlaveIn} (h : Linked delay bias gain M masterIn k S (slaveIn ++ more))
    (hShift : S.session.now + slaveIn.length = M.now + n + delay.toNat + 5) (hSettled : 1024 * k + 15365 ≤ n)
    (hn : n + more.length ≤ masterIn.length) :
    Along (beside (Slave.step delay) Master.step)
      (fun i p => QuadChannel.SameTune (channelsOfIn delay i p) (channelsOf p)) (more.zip ((masterIn.drop n).take more.length))
      (run (Slave.step delay) slaveIn S, run Master.step (masterIn.take n) M) := by
  apply along_beside_zip
  rintro before i after before' j after' hMore hSplit hLength
  have hLater : masterIn = (masterIn.take n ++ before') ++ j :: (after' ++ (masterIn.drop n).drop more.length) := by
    calc
      masterIn = masterIn.take n ++ ((masterIn.drop n).take more.length ++ (masterIn.drop n).drop more.length) := by
        rw [List.take_append_drop, List.take_append_drop]
      _ = _ := by
        rw [hSplit]
        simp
  have hTake : masterIn.take (n + before.length) = masterIn.take n ++ before' := by
    conv_lhs => rw [hLater]
    apply List.take_left'
    rw [List.length_append, List.length_take, hLength]
    omega
  have hBefore : before.length < more.length := by
    rw [hMore, List.length_append, List.length_cons]
    omega
  have hLinked : Linked delay bias gain M masterIn k S ((slaveIn ++ before) ++ i :: after) := by
    rw [List.append_assoc, ← hMore]
    exact h
  have hSame := hLinked.sameTune (n := n + before.length) (j := j) (by rw [List.length_append]; omega) (by omega) (by omega)
    (by rw [hTake]; exact hLater)
  rw [← run_append, ← run_append, ← hTake]
  exact hSame

theorem Linked.apart {more : List SlaveIn} (h : Linked delay bias gain M masterIn k S (slaveIn ++ more))
    (hShift : S.session.now + slaveIn.length = M.now + n + delay.toNat + 5) (hSettled : 1024 * k + 15365 ≤ n)
    (hn : n + more.length ≤ masterIn.length) :
    let slave := run (Slave.step delay) slaveIn S
    let master := run Master.step (masterIn.take n) M
    QuadChannel.Apart (slave.core.synth.acc - master.core.synth.acc) more.length
      (channelsOf (run (Slave.step delay) more slave, run Master.step (masterIn.take (n + more.length)) M)) := by
  intro slave master
  have hLength : more.length = ((masterIn.drop n).take more.length).length := by
    rw [List.length_take, List.length_drop]
    omega
  have hMaster : run Master.step (masterIn.take (n + more.length)) M =
      run Master.step ((masterIn.drop n).take more.length) master := by
    rw [← run_append, ← List.take_add]
  have hLast := run_counted
    (fun m i p (hApart : QuadChannel.Apart _ m (channelsOf p)) hSame => (channelsOf_beside i p) ▸ hApart.step hSame)
    _ (QuadChannel.apart_zero (channelsOf (slave, master))) (h.sameTune_along hShift hSettled hn)
  rw [run_beside_zip _ _ hLength, List.length_zip, ← hLength, Nat.min_self, Nat.zero_add, ← hMaster] at hLast
  exact hLast

/-- A slave that is sent the samples of a master in order and in time, once fifteen of them have been applied, is tuned at every
tick as the master was the delay and five ticks before. The distance of their phases is fixed, and where it is zero, their
samples agree within one step of the converter. -/
theorem slave_follows {more : List SlaveIn} (h : Linked delay bias gain M masterIn k S (slaveIn ++ more))
    (hShift : S.session.now + slaveIn.length = M.now + n + delay.toNat + 5) (hSettled : 1024 * k + 15365 ≤ n)
    (hn : n + more.length ≤ masterIn.length) :
    let slave := run (Slave.step delay) slaveIn S
    let master := run Master.step (masterIn.take n) M
    let slaveThen := run (Slave.step delay) more slave
    let masterThen := run Master.step (masterIn.take (n + more.length)) M
    slaveThen.core.synth.tune = masterThen.core.synth.tune ∧
      slaveThen.core.synth.acc - masterThen.core.synth.acc = slave.core.synth.acc - master.core.synth.acc ∧
      (slave.core.synth.acc = master.core.synth.acc → 10 ≤ more.length →
        ∀ q, Near 1 (slaveThen.core.synth.y.get q).toNat (masterThen.core.synth.y.get q).toNat) := by
  intro slave master slaveThen masterThen
  have hLast := h.apart hShift hSettled hn
  refine ⟨?_, hLast.kept, fun hSame hMany => hLast.near ?_ hMany⟩
  · have hTunes := h.tunes (n := n + more.length) (by rw [List.length_append]; omega) (by omega) hn
    rwa [run_append] at hTunes
  · change slave.core.synth.acc - master.core.synth.acc = 0
    rw [hSame]
    exact BitVec.sub_self _

/-! ### A master and a slave -/

def leading : MasterIn := ⟨⟨true, false, 0, ⟨33, 3276⟩, true, false, 0, 1000, 2, 0, false, 0, false⟩, true⟩

def restingMaster : Master where
  core := DdsCore.cleared
  adc := Ad7980.powerUp
  tx := ⟨false, false, 0, 0, 0, 0, .waitSample, 0, false, false, 0⟩
  now := 1000

theorem atRest_restingMaster : restingMaster.AtRest :=
  ⟨rfl, rfl, ⟨rfl, rfl, rfl, ⟨rfl, rfl, .inl rfl⟩⟩, ⟨fun _ => rfl, fun _ => rfl, fun _ => rfl, fun _ => rfl⟩⟩

theorem leads_leading : Leads 1000 2 leading := ⟨⟨rfl, by decide, rfl⟩, rfl, rfl, rfl⟩

def packed (sample : Sample) : BitVec 128 :=
  RxPath.fifoIn 0 ⟨.waitSample, sample.entry.tai, sample.entry.cycles, sample.entry.acc, sample.entry.tune, false, 0, false⟩

/-- A slave whose samples have come before slave mode is on. -/
def suppliedSlave (samples : List Sample) : Slave :=
  ⟨⟨drivePowerUp.clock { driveOff with arrivals := samples.map packed, tmCycles := 1049 }, 1050⟩, .wait, .cleared⟩

theorem started_suppliedSlave (samples : List Sample) : Started 100 1101 (suppliedSlave samples) := by
  have hOnTime : (⟨drivePowerUp.clock { driveOff with tmCycles := 1049 }, 1050⟩ : Session).OnTime := ⟨by decide, by decide⟩
  have hBehind : (⟨drivePowerUp.clock { driveOff with tmCycles := 1049 }, 1050⟩ : Session).Behind 100 := by decide
  constructor
  · exact ⟨_, _, rfl, rfl⟩
  · rfl
  · exact ⟨hOnTime.started, hOnTime.tmD0⟩
  · exact hBehind
  · exact (by decide : 1050 + 6 ≤ 1101)

def enslaved : SlaveIn := ⟨⟨[], false⟩, ⟨true, false, 0, ⟨0, 0⟩, false, true, 0, 1000, 2, 0, false, 0, false⟩⟩

theorem follows_suppliedSlave {N : Nat} {samples : List Sample} (hMany : N < 1024 * samples.length) (hFits : N < 1000000) :
    Along (watch (Slave.step 100) seeSlave) (Follows 1000 2 samples 0 1101) (List.replicate N enslaved)
      (.empty, suppliedSlave samples) := by
  have hCentre : field 0 11 enslaved.core.freqHi ++ enslaved.core.freqLo = (1000 : BitVec 43) := by decide
  have hUnpack : (samples.map packed).map unpack = samples.map Sample.entry := by
    rw [List.map_map]
    exact List.map_congr_left fun sample _ => unpack_fifoIn 0 _
  apply along_of_places
  rintro before i after hSplit
  have hAll : ∀ j ∈ before ++ i :: after, j = enslaved := fun j hj => List.eq_of_mem_replicate (hSplit ▸ hj)
  obtain rfl : i = enslaved := hAll i (by simp)
  have hLength : before.length < N := by
    have hCount := congrArg List.length hSplit
    rw [List.length_replicate, List.length_append, List.length_cons] at hCount
    omega
  have hStep : ∀ j p, DriveLog.arrived p.1 p.2.session = samples.map Sample.entry → j = enslaved →
      DriveLog.arrived (watch (Slave.step 100) seeSlave j p).1 (watch (Slave.step 100) seeSlave j p).2.session =
        samples.map Sample.entry := by
    rintro j p hSame rfl
    rw [← hSame]
    exact (DriveLog.arrived_step 100 p.1 _ p.2.session).trans (List.append_nil _)
  have hArrived := run_invariant hStep before
    (s := (.empty, suppliedSlave samples)) (by exact hUnpack) (along_of_forall (fun j hj _ => hAll j (by simp [hj])) _)
  have hNow : (run (watch (Slave.step 100) seeSlave) before (.empty, suppliedSlave samples)).2.session.now =
      1050 + before.length := by
    rw [run_watch_snd]
    exact now_slave 100 before (suppliedSlave samples)
  have hRate : refClkRate = 125000000 := rfl
  refine ⟨⟨⟨rfl, hCentre, rfl⟩, rfl, rfl⟩, ⟨?_, ?_, ?_⟩⟩
  · rw [hArrived]
    exact ⟨[], List.append_assoc .. ▸ List.append_nil _⟩
  · rw [hArrived, hNow, List.length_map]
    omega
  · rw [hNow, hRate]
    omega

theorem slave_follows_leading :
    let samples := samplesOf (List.replicate 15375 leading) restingMaster
    let more := List.replicate 10 enslaved
    let slave := run (Slave.step 100) more (run (Slave.step 100) (List.replicate 15420 enslaved) (suppliedSlave samples))
    let master := run Master.step ((List.replicate 15375 leading).take (15365 + more.length)) restingMaster
    slave.core.synth.tune = master.core.synth.tune := by
  intro samples more slave master
  have hLeads : ∀ i ∈ List.replicate 15375 leading, Leads 1000 2 i := fun i hi => List.eq_of_mem_replicate hi ▸ leads_leading
  have hMany : samples.length = 16 := by
    rw [length_samplesOf atRest_restingMaster hLeads, List.length_replicate]
  have hSplit : List.replicate 15420 enslaved ++ more = List.replicate 15430 enslaved := List.replicate_append_replicate
  have hDue : dueOf restingMaster 100 0 = 1101 := rfl
  have hLinked : Linked 100 1000 2 restingMaster (List.replicate 15375 leading) 0 (suppliedSlave samples)
      (List.replicate 15420 enslaved ++ more) := by
    constructor
    · exact atRest_restingMaster
    · exact hLeads
    · rw [List.length_replicate]
      decide
    · rw [hDue]
      exact started_suppliedSlave samples
    · rw [hSplit, hDue]
      exact follows_suppliedSlave (by rw [hMany]; decide) (by decide)
  have hShift : (suppliedSlave samples).session.now + (List.replicate 15420 enslaved).length =
      restingMaster.now + 15365 + (100#16).toNat + 5 := by
    rw [List.length_replicate, show (suppliedSlave samples).session.now = 1050 from rfl, show restingMaster.now = 1000 from rfl]
    decide
  have hn : 15365 + more.length ≤ (List.replicate 15375 leading).length := by
    rw [List.length_replicate, List.length_replicate]
  with_reducible exact (slave_follows hLinked hShift (by decide) hn).1

end WrRfDemo.Network

import WrRfDemo.Network.System

/-! # Rounds

A schedule that stays in time for as long as it goes on. In each round the master takes a sample, it is brought to the slave, and the
reference clocks of both sides tick 1024 times.
-/

namespace WrRfDemo.Network

open Clocked Timing WrRfDemo.Core Cic Dds

def bringOver : List SystemEvent := List.replicate 6 (.masterSys true true) ++ List.replicate 7 (.slaveSys true Link.idleWord 0)

def rounds (i : MasterIn) (j : CoreIn) : Nat → List SystemEvent
  | 0 => []
  | n + 1 => rounds i j n ++ (List.replicate 1024 (.masterRef i) ++ bringOver ++ List.replicate 1024 (.slaveRef 1 false j))

/-- The system after so many ticks of the two reference clocks, with so many samples at the slave. -/
structure Standing (clkId delay : BitVec 16) (bias : BitVec 43) (gain : BitVec 16) (M : Master) (S : Slave)
    (masterTicks slaveTicks arrived : Nat) (p : SystemLog × System) : Prop where
  joined : Joined clkId delay bias gain (dueOf M delay 0) M S p.1 p.2
  masterTicks : p.1.masterIn.length = masterTicks
  slaveTicks : p.1.slaveIn.length = slaveTicks
  arrived : (p.1.drive.arrived p.2.slave.session).length = arrived

/-- In time, these events bring the system to `Good`. -/
abbrev Brings (clkId delay : BitVec 16) (bias : BitVec 43) (gain : BitVec 16) (M : Master) (events : List SystemEvent)
    (p : SystemLog × System) (Good : SystemLog × System → Prop) : Prop :=
  Passes (watch (System.step clkId delay) (System.see clkId)) (System.InTime bias gain (dueOf M delay 0)) events p Good

/-- While the master's clock ticks. A sample is taken in the second cycle. -/
structure Taking (k : Nat) (s : Link) : Prop where
  state : s.node.path.state = .waitSample
  newSample : s.node.path.newSample = true → k = 2
  pulses : k ≤ 2 → s.node.pulses = 0
  channel : s.channel = []

variable {clkId delay : BitVec 16} {bias : BitVec 43} {gain : BitVec 16} {M : Master} {S : Slave} {i : MasterIn} {j : CoreIn}
  {a b c n : Nat} {p : SystemLog × System}

theorem drained_of_afterReset {s : Link} (h : s.AfterReset) : s.Drained :=
  ⟨h.node.newSample, h.node.pulses, h.node.state, h.node.txValid, h.channel, h.newSampleSys⟩

namespace Standing

theorem sampling (h : Standing clkId delay bias gain M S a b c p) (hRest : M.AtRest) :
    Sampling bias gain M.now p.1.master (run Master.step p.1.masterIn M) := by
  have hSampling := sampling_run hRest h.joined.leads
  rwa [h.joined.master, run_watch_snd] at hSampling

theorem length_fed (h : Standing clkId delay bias gain M S a b c p) (hRest : M.AtRest) : p.1.master.fed.length = a := by
  rw [← h.masterTicks, ← Network.length_fed hRest h.joined.leads, h.joined.master]

theorem tuneValid_iff (h : Standing clkId delay bias gain M S a b c p) (hRest : M.AtRest) :
    p.2.link.node.path.tuneValid = true ↔ a % 1024 = 1 := by
  rw [← h.joined.twin.tuneValid, (h.sampling hRest).tuneValid, h.length_fed hRest]

/-- Where nothing is on its way to the receive path, what has not arrived is between the slave's clocks. -/
theorem crossing (h : Standing clkId delay bias gain M S a b c p) (hRest : M.AtRest) (hDrained : p.2.link.Drained) :
    c + p.2.crossing.length = (a + 1022) / 1024 := by
  have hAll := h.joined.link.entries_of_drained hDrained
  rw [← h.joined.delivered, expected, if_pos rfl, h.joined.captured] at hAll
  have hLength := congrArg List.length hAll
  rwa [List.length_append, List.length_map, List.length_map, h.arrived, (h.sampling hRest).count, h.length_fed hRest] at hLength

theorem now_slave (h : Standing clkId delay bias gain M S a b c p) : p.2.slave.session.now = S.session.now + b := by
  rw [← h.joined.slave_eq, Network.now_slave, h.slaveTicks]

/-! ### The steps -/

theorem masterRef (h : Standing clkId delay bias gain M S a b c p) (hLeads : Leads bias gain i)
    (hSpaced : Link.Spaced (.ref (p.2.master.tagsIn i)) p.2.link) :
    Standing clkId delay bias gain M S (a + 1) b c (watch (System.step clkId delay) (System.see clkId) (.masterRef i) p) := by
  refine ⟨h.joined.masterRef hLeads hSpaced, ?_, h.slaveTicks, h.arrived⟩
  rw [← h.masterTicks]
  exact List.length_append

theorem masterSys (h : Standing clkId delay bias gain M S a b c p) (deliver txDreq : Bool) :
    Standing clkId delay bias gain M S a b c
      (watch (System.step clkId delay) (System.see clkId) (.masterSys deliver txDreq) p) :=
  ⟨h.joined.masterSys, h.masterTicks, h.slaveTicks, h.arrived⟩

theorem slaveSys (h : Standing clkId delay bias gain M S a b c p) (take : Bool) (idle : StreamWord) (undriven : BitVec 128) :
    Standing clkId delay bias gain M S a b c
      (watch (System.step clkId delay) (System.see clkId) (.slaveSys take idle undriven) p) :=
  ⟨h.joined.slaveSys, h.masterTicks, h.slaveTicks, h.arrived⟩

theorem slaveRef (h : Standing clkId delay bias gain M S a b c p) (ready : Nat) (newSampleRdy : Bool) (hEnslaved : Enslaved bias gain j)
    (hAhead : S.session.now + b + 6 < dueOf M delay 0 + 1024 * c) (hRunning : (S.session.now + b) / refClkRate < 2 ^ 32) :
    System.InTime bias gain (dueOf M delay 0) (.slaveRef ready newSampleRdy j) p ∧
      Standing clkId delay bias gain M S a (b + 1) (c + min ready p.2.crossing.length)
        (watch (System.step clkId delay) (System.see clkId) (.slaveRef ready newSampleRdy j) p) := by
  rw [← h.now_slave] at hAhead hRunning
  rw [← h.arrived] at hAhead
  refine ⟨⟨hEnslaved, hAhead, hRunning⟩, h.joined.slaveRef hEnslaved hAhead hRunning, h.masterTicks, ?_, ?_⟩
  · rw [← h.slaveTicks]
    exact List.length_append
  · change ((p.1.drive.see (p.2.slaveIn ready newSampleRdy j).session p.2.slave.session).arrived
      (p.2.slave.session.step delay (p.2.slaveIn ready newSampleRdy j).session)).length = _
    rw [DriveLog.arrived_step, List.length_append, List.length_map, ← h.arrived]
    exact congrArg _ List.length_take

/-! ### The phases of a round -/

theorem masterRefs (h : Standing clkId delay bias gain M S (1024 * n) b c p) (hRest : M.AtRest) (hDrained : p.2.link.Drained)
    (hLeads : Leads bias gain i) :
    Brings clkId delay bias gain M (List.replicate 1024 (.masterRef i)) p fun t =>
      Standing clkId delay bias gain M S (1024 * n + 1024) b c t ∧ Taking 1024 t.2.link := by
  apply passes_replicate fun k p => Standing clkId delay bias gain M S (1024 * n + k) b c p ∧ Taking k p.2.link
  · rintro k hk p ⟨hStanding, hTaking⟩
    have hValid := hStanding.tuneValid_iff hRest
    have hTakes : p.2.link.node.path.captures (p.2.master.tagsIn i) = true → k = 1 := by
      intro hCaptures
      have hTune : p.2.link.node.path.tuneValid = true := by
        rw [TxPath.captures, Bool.and_eq_true, Bool.and_eq_true] at hCaptures
        exact hCaptures.1.2
      rw [hValid] at hTune
      omega
    have hSpaced : Link.Spaced (.ref (p.2.master.tagsIn i)) p.2.link := by
      intro hCaptures
      obtain rfl := hTakes hCaptures
      refine ⟨hTaking.state, ?_, hTaking.pulses (by decide)⟩
      rw [← Bool.not_eq_true]
      exact fun hNew => absurd (hTaking.newSample hNew) (by decide)
    refine ⟨⟨hLeads, hSpaced⟩, hStanding.masterRef hLeads hSpaced, ?_, ?_, ?_, hTaking.channel⟩
    · exact (TxPath.pTakeTags_state _ _).trans hTaking.state
    · intro hNew
      have hCaptures : p.2.link.node.path.captures (p.2.master.tagsIn i) = true :=
        (TxPath.newSample_pTakeTags _ _).symm.trans hNew
      rw [hTakes hCaptures]
    · intro hEarly
      have hQuiet : p.2.link.node.path.newSample = false := by
        rw [← Bool.not_eq_true]
        intro hNew
        have hTwo := hTaking.newSample hNew
        omega
      change (if p.2.link.node.path.newSample then _ else p.2.link.node.pulses) = 0
      rw [hQuiet]
      exact hTaking.pulses (by omega)
  · refine ⟨h, hDrained.state, fun hNew => ?_, fun _ => hDrained.pulses, hDrained.channel⟩
    rw [hDrained.newSample] at hNew
    cases hNew

/-- Between the reference clocks the link goes through the same run without the rest of the system. -/
theorem relays (h : Standing clkId delay bias gain M S a b c p) (e : SystemEvent) (e' : LinkEvent)
    (hOk : ∀ q, System.InTime bias gain (dueOf M delay 0) e q)
    (hStep : ∀ q, Standing clkId delay bias gain M S a b c q →
      Standing clkId delay bias gain M S a b c (watch (System.step clkId delay) (System.see clkId) e q))
    (hLink : ∀ s : System, (s.step clkId delay e).link = Link.step clkId clkId e' s.link) (m : Nat) :
    Brings clkId delay bias gain M (List.replicate m e) p fun t =>
      Standing clkId delay bias gain M S a b c t ∧ t.2.link = run (Link.step clkId clkId) (List.replicate m e') p.2.link := by
  apply passes_replicate fun k t =>
    Standing clkId delay bias gain M S a b c t ∧ t.2.link = run (Link.step clkId clkId) (List.replicate k e') p.2.link
  · rintro k - t ⟨hStanding, hSame⟩
    refine ⟨hOk t, hStep t hStanding, ?_⟩
    rw [List.replicate_succ', run_append, ← hSame]
    exact hLink t.2
  · exact ⟨h, rfl⟩

theorem bringOver (h : Standing clkId delay bias gain M S a b c p) (hLone : Link.Lone p.2.link.node) (hChannel : p.2.link.channel = []) :
    Brings clkId delay bias gain M bringOver p fun t => Standing clkId delay bias gain M S a b c t ∧ t.2.link.Drained := by
  have hSends := h.relays (.masterSys true true) (.master true true) (fun _ => trivial) (fun _ hAt => hAt.masterSys true true) (fun _ => rfl) 6
  apply hSends.append
  rintro t ⟨hSent, hPushed⟩
  have hReads := hSent.relays (.slaveSys true Link.idleWord 0) (.slave true Link.idleWord 0) (fun _ => trivial)
    (fun _ hAt => hAt.slaveSys true Link.idleWord 0) (fun _ => rfl) 7
  apply hReads.mono
  rintro t ⟨hRead, hTaken⟩
  have hDrained : (run (Link.step clkId clkId) (Link.delivery 7) p.2.link).Drained :=
    h.joined.link.drained_delivery hLone (by rw [hChannel]; decide)
  rw [Link.delivery, run_append, ← hPushed, ← hTaken] at hDrained
  exact ⟨hRead, hDrained⟩

/-- The slave's clock ticks, and takes the sample that is there, if there is one. -/
theorem slaveRefs (h : Standing clkId delay bias gain M S a b c p) (hRest : M.AtRest) (hDrained : p.2.link.Drained)
    (hEnslaved : Enslaved bias gain j) {m : Nat} (hMost : (a + 1022) / 1024 ≤ c + 1)
    (hFirst : S.session.now + b + 6 < dueOf M delay 0 + 1024 * c)
    (hLater : S.session.now + b + m + 6 ≤ dueOf M delay 0 + 1024 * ((a + 1022) / 1024))
    (hRunning : S.session.now + b + m ≤ 2 ^ 32 * refClkRate) (hSome : 0 < m) :
    Brings clkId delay bias gain M (List.replicate m (.slaveRef 1 false j)) p fun t =>
      Standing clkId delay bias gain M S a (b + m) ((a + 1022) / 1024) t ∧ t.2.link.Drained := by
  let arrived (k : Nat) : Nat := if k = 0 then c else (a + 1022) / 1024
  have hTicks : Brings clkId delay bias gain M (List.replicate m (.slaveRef 1 false j)) p fun t =>
      Standing clkId delay bias gain M S a (b + m) (arrived m) t ∧ t.2.link.Drained := by
    apply passes_replicate fun k t => Standing clkId delay bias gain M S a (b + k) (arrived k) t ∧ t.2.link.Drained
    · rintro k hk t ⟨hStanding, hDrained⟩
      have hCrossing := hStanding.crossing hRest hDrained
      have hTaken : arrived k + min 1 t.2.crossing.length = arrived (k + 1) := by
        simp only [arrived, Nat.succ_ne_zero, if_false] at hCrossing ⊢
        split_ifs at hCrossing ⊢ <;> omega
      have hAhead : S.session.now + (b + k) + 6 < dueOf M delay 0 + 1024 * arrived k := by
        simp only [arrived]
        split_ifs <;> omega
      obtain ⟨hInTime, hNext⟩ := hStanding.slaveRef 1 false hEnslaved hAhead (Nat.div_lt_of_lt_mul (by rw [Nat.mul_comm]; omega))
      rw [hTaken] at hNext
      exact ⟨hInTime, hNext, hDrained⟩
    · exact ⟨h, hDrained⟩
  have hArrived : arrived m = (a + 1022) / 1024 := if_neg (Nat.ne_of_gt hSome)
  rwa [hArrived] at hTicks

end Standing

theorem Standing.round (h : Standing clkId delay bias gain M S (1024 * n) (1024 * n) n p) (hRest : M.AtRest)
    (hDrained : p.2.link.Drained) (hLeads : Leads bias gain i) (hEnslaved : Enslaved bias gain j)
    (hEarly : S.session.now + 6 < dueOf M delay 0) (hRunning : S.session.now + 1024 * (n + 1) ≤ 2 ^ 32 * refClkRate) :
    Brings clkId delay bias gain M
      (List.replicate 1024 (.masterRef i) ++ Network.bringOver ++ List.replicate 1024 (.slaveRef 1 false j)) p fun t =>
        Standing clkId delay bias gain M S (1024 * (n + 1)) (1024 * (n + 1)) (n + 1) t ∧ t.2.link.Drained := by
  rw [Nat.mul_add_one, ← Nat.add_assoc] at hRunning
  rw [Nat.mul_add_one]
  have hCount : (1024 * n + 1024 + 1022) / 1024 = n + 1 := by omega
  have hMost : (1024 * n + 1024 + 1022) / 1024 ≤ n + 1 := Nat.le_of_eq hCount
  have hFirst : S.session.now + 1024 * n + 6 < dueOf M delay 0 + 1024 * n := by omega
  have hLater : S.session.now + 1024 * n + 1024 + 6 ≤ dueOf M delay 0 + 1024 * ((1024 * n + 1024 + 1022) / 1024) := by omega
  have hBrings : Brings clkId delay bias gain M (List.replicate 1024 (.masterRef i) ++ Network.bringOver) p fun t =>
      Standing clkId delay bias gain M S (1024 * n + 1024) (1024 * n) n t ∧ t.2.link.Drained := by
    apply (h.masterRefs hRest hDrained hLeads).append
    rintro t ⟨hTaken, hSample⟩
    have hLone : Link.Lone t.2.link.node := by
      refine ⟨?_, hTaken.joined.link.inOrder.single.1, fun hBusy => absurd hSample.state hBusy⟩
      rw [← Bool.not_eq_true]
      exact fun hNew => absurd (hSample.newSample hNew) (by decide)
    exact hTaken.bringOver hLone hSample.channel
  apply hBrings.append
  rintro t ⟨hBrought, hOver⟩
  have hTicks := hBrought.slaveRefs hRest hOver hEnslaved hMost hFirst hLater hRunning (by decide)
  rwa [hCount] at hTicks

/-- A system at rest can go on in rounds, for as long as there is a time. -/
theorem rounds_inTime {s : System} (clkId : BitVec 16) (hRest : s.AtRest delay) (hLeads : Leads bias gain i) (hEnslaved : Enslaved bias gain j)
    (hEarly : s.slave.session.now + 6 < dueOf s.master delay 0) (n : Nat)
    (hRunning : s.slave.session.now + 1024 * n ≤ 2 ^ 32 * refClkRate) :
    Brings clkId delay bias gain s.master (rounds i j n) (.empty, s) fun t =>
      Standing clkId delay bias gain s.master s.slave (1024 * n) (1024 * n) n t ∧ t.2.link.Drained := by
  induction n with
  | zero =>
    refine ⟨trivial, ⟨hRest.joined clkId bias gain, rfl, rfl, ?_⟩, drained_of_afterReset hRest.link⟩
    change ([] ++ s.slave.session.path.fifo.map unpack).length = 0
    rw [hRest.fifo]
    rfl
  | succ n ih =>
    apply (ih (by omega)).append
    rintro t ⟨hStanding, hDrained⟩
    exact hStanding.round hRest.master hDrained hLeads hEnslaved hEarly hRunning

end WrRfDemo.Network

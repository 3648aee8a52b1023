import WrRfDemo.Dds.Delivery
import WrRfDemo.Network.Following

/-! # The whole network

A master, a slave and the network between them, with the clocks of both in any order. What the slave is given are the
master's samples, in order.
-/

namespace WrRfDemo.Network

open Clocked Timing WrRfDemo.Core Cic Dds Adc Synth

/-- One clock edge. At an edge of the slave's reference clock, `ready` more words show at the read side of its FIFO. -/
inductive SystemEvent
  | masterRef (i : MasterIn)
  | masterSys (deliver txDreq : Bool)
  | slaveSys (take : Bool) (idle : StreamWord) (undriven : BitVec 128)
  | slaveRef (ready : Nat) (newSampleRdy : Bool) (i : CoreIn)

/-- `crossing` holds the words of `U_Sync_FIFO` that its read side does not show yet. -/
structure System where
  core : DdsCore
  adc : Ad7980 16
  now : Nat
  link : Link
  crossing : List (BitVec 128)
  slave : Slave

/-- What came to the two sides, and what was seen of them. -/
structure SystemLog where
  masterIn : List MasterIn
  master : MasterLog
  link : LinkLog
  slaveIn : List SlaveIn
  drive : DriveLog

def SystemLog.empty : SystemLog := ⟨[], .empty, ⟨.empty, .empty⟩, [], .empty⟩

namespace System

variable (clkId delay : BitVec 16)

def master (s : System) : Master := ⟨s.core, s.adc, s.link.node.path, s.now⟩

def slaveIn (ready : Nat) (newSampleRdy : Bool) (i : CoreIn) (s : System) : SlaveIn :=
  ⟨⟨s.crossing.take ready, newSampleRdy⟩, i⟩

def step : SystemEvent → System → System
  | .masterRef i, s =>
    { s with
      core := s.core.clock (s.master.coreIn i)
      adc := s.adc.clock (s.master.adcIn i)
      now := s.now + 1
      link := Link.step clkId clkId (.ref (s.master.tagsIn i)) s.link }
  | .masterSys deliver txDreq, s => { s with link := Link.step clkId clkId (.master deliver txDreq) s.link }
  | .slaveSys take idle undriven, s =>
    { s with
      link := Link.step clkId clkId (.slave take idle undriven) s.link
      crossing := s.crossing ++ (s.link.rx.fifoWrite (s.link.rxIn clkId take idle) undriven).toList }
  | .slaveRef ready newSampleRdy i, s =>
    { s with crossing := s.crossing.drop ready, slave := s.slave.step delay (s.slaveIn ready newSampleRdy i) }

def see (o : SystemLog) : SystemEvent → System → SystemLog
  | .masterRef i, s =>
    { o with
      masterIn := o.masterIn ++ [i]
      master := seeMaster o.master i s.master
      link := Link.see clkId clkId o.link (.ref (s.master.tagsIn i)) s.link }
  | .masterSys deliver txDreq, s => { o with link := Link.see clkId clkId o.link (.master deliver txDreq) s.link }
  | .slaveSys take idle undriven, s => { o with link := Link.see clkId clkId o.link (.slave take idle undriven) s.link }
  | .slaveRef ready newSampleRdy i, s =>
    { o with
      slaveIn := o.slaveIn ++ [s.slaveIn ready newSampleRdy i]
      drive := seeSlave o.drive (s.slaveIn ready newSampleRdy i) s.slave }

/-- No sample is taken before the one before is on its way, and the slave has each sample six ticks before it is due. -/
def InTime (bias : BitVec 43) (gain : BitVec 16) (first : Nat) : SystemEvent → SystemLog × System → Prop
  | .masterRef i, p => Leads bias gain i ∧ Link.Spaced (.ref (p.2.master.tagsIn i)) p.2.link
  | .slaveRef _ _ i, p =>
    Enslaved bias gain i ∧ p.2.slave.session.now + 6 < first + 1024 * (p.1.drive.arrived p.2.slave.session).length ∧
      p.2.slave.session.now / refClkRate < 2 ^ 32
  | _, _ => True

end System

/-! ### A side of the system, and the same side alone -/

/-- A master that is alone has what the reference clock sees of the master in the system. -/
structure Twin (m : Master) (s : System) : Prop where
  core : m.core = s.core
  adc : m.adc = s.adc
  now : m.now = s.now
  tuneValid : m.tx.tuneValid = s.link.node.path.tuneValid

variable {clkId delay : BitVec 16} {bias : BitVec 43} {gain : BitVec 16} {first : Nat} {i : MasterIn} {m : Master} {s : System}

theorem Twin.coreIn (h : Twin m s) (i : MasterIn) : m.coreIn i = s.master.coreIn i := by
  rw [Master.coreIn, h.adc]
  rfl

theorem Twin.adcIn (h : Twin m s) (i : MasterIn) : m.adcIn i = s.master.adcIn i := by
  rw [Master.adcIn, h.coreIn, h.core]
  rfl

theorem Twin.tagsIn (h : Twin m s) (i : MasterIn) : m.tagsIn i = s.master.tagsIn i := by
  rw [Master.tagsIn, h.coreIn, h.core, h.now]
  rfl

theorem Twin.seeMaster (h : Twin m s) (o : MasterLog) (i : MasterIn) : seeMaster o i m = seeMaster o i s.master := by
  have hCaptures : m.tx.captures (m.tagsIn i) = s.master.tx.captures (s.master.tagsIn i) := by
    rw [h.tagsIn, TxPath.captures, TxPath.captures, h.tuneValid]
    rfl
  rw [Network.seeMaster, hCaptures, h.tagsIn, h.coreIn, h.core]
  rfl

theorem tuneValid_pTakeTags (i : TxRefIn) (t : TxPath) : (t.pTakeTags i).tuneValid = (i.rstN && i.cicCe) := by
  rw [TxPath.pTakeTags]
  by_cases hRst : i.rstN = true
  · rw [if_neg (by simp [hRst])]
    split_ifs <;> simp [hRst]
  · rw [if_pos (by simpa using hRst)]
    simp [hRst]

theorem tuneValid_pTxFsm (i : TxSysIn) (t : TxPath) : (t.pTxFsm i).tuneValid = t.tuneValid := by
  rw [TxPath.pTxFsm]
  by_cases hOff : (!i.rstN || !i.crMaster) = true
  · rw [if_pos hOff]
  · rw [if_neg hOff]
    cases t.state with
    | waitSample => rfl
    | txTimestamp | txAcc | txTune | txPad =>
      dsimp only
      split_ifs <;> rfl

theorem Twin.masterRef (h : Twin m s) : Twin (m.step i) (s.step clkId delay (.masterRef i)) := by
  constructor
  · change m.core.clock (m.coreIn i) = s.core.clock (s.master.coreIn i)
    rw [h.core, h.coreIn]
  · change m.adc.clock (m.adcIn i) = s.adc.clock (s.master.adcIn i)
    rw [h.adc, h.adcIn]
  · exact congrArg (· + 1) h.now
  · change (m.tx.pTakeTags (m.tagsIn i)).tuneValid = (s.link.node.path.pTakeTags (s.master.tagsIn i)).tuneValid
    rw [tuneValid_pTakeTags, tuneValid_pTakeTags, h.tagsIn]

theorem Twin.masterSys {deliver txDreq : Bool} (h : Twin m s) : Twin m (s.step clkId delay (.masterSys deliver txDreq)) :=
  ⟨h.core, h.adc, h.now, h.tuneValid.trans (tuneValid_pTxFsm _ _).symm⟩

/-! ### The invariant -/

variable {M : Master} {S : Slave} {o : SystemLog}

/-- The sides of a system that has come from these two, and what is between them. -/
structure Joined (clkId delay : BitVec 16) (bias : BitVec 43) (gain : BitVec 16) (first : Nat) (M : Master) (S : Slave)
    (o : SystemLog) (s : System) : Prop where
  twin : Twin (run Master.step o.masterIn M) s
  master : (run (watch Master.step seeMaster) o.masterIn (.empty, M)).1 = o.master
  leads : ∀ i ∈ o.masterIn, Leads bias gain i
  link : LinkInv clkId clkId o.link s.link
  captured : o.link.tx.captured = o.master.captured
  delivered : o.drive.arrived s.slave.session ++ s.crossing.map unpack = o.link.rx.entries
  slave : run (watch (Slave.step delay) seeSlave) o.slaveIn (.empty, S) = (o.drive, s.slave)
  follows : Along (watch (Slave.step delay) seeSlave) (Follows bias gain o.master.captured 0 first) o.slaveIn (.empty, S)

/-- What has come to the slave, and what is on the way behind it, are the master's samples in order. -/
theorem Joined.inOrder (h : Joined clkId delay bias gain first M S o s) :
    o.drive.arrived s.slave.session ++ s.crossing.map unpack <+: o.master.captured.map Sample.entry := by
  have hEntries := h.link.entries_isPrefix
  rwa [← h.delivered, expected, if_pos rfl, h.captured] at hEntries

theorem Follows.more {samples later : List Sample} {k : Nat} {j : SlaveIn} {p : DriveLog × Slave} (hLater : samples <+: later)
    (h : Follows bias gain samples k first j p) : Follows bias gain later k first j p := by
  obtain ⟨rest, rfl⟩ := hLater
  refine ⟨h.enslaved, h.relayed.inOrder.trans ?_, h.relayed.ahead, h.relayed.running⟩
  exact ((List.prefix_append samples rest).drop k).map Sample.entry

theorem Joined.masterRef (h : Joined clkId delay bias gain first M S o s) (hLeads : Leads bias gain i)
    (hSpaced : Link.Spaced (.ref (s.master.tagsIn i)) s.link) :
    Joined clkId delay bias gain first M S (System.see clkId o (.masterRef i) s) (s.step clkId delay (.masterRef i)) := by
  have hAlone : run (watch Master.step seeMaster) o.masterIn (.empty, M) = (o.master, run Master.step o.masterIn M) :=
    Prod.ext h.master (run_watch_snd _ _ _ _)
  have hSee : (System.see clkId o (.masterRef i) s).master = seeMaster o.master i s.master := rfl
  have hIn : (System.see clkId o (.masterRef i) s).masterIn = o.masterIn ++ [i] := rfl
  constructor
  · rw [hIn, run_append]
    exact h.twin.masterRef
  · rw [hIn, run_append, hAlone, hSee, ← h.twin.seeMaster]
    rfl
  · rw [hIn]
    exact List.forall_mem_append.mpr ⟨h.leads, List.forall_mem_singleton.mpr hLeads⟩
  · exact h.link.step hSpaced
  · exact congrArg (· ++ _) h.captured
  · exact h.delivered
  · exact h.slave
  · exact h.follows.mono fun _ _ hFollows => hFollows.more (List.prefix_append _ _)

theorem Joined.masterSys {deliver txDreq : Bool} (h : Joined clkId delay bias gain first M S o s) :
    Joined clkId delay bias gain first M S (System.see clkId o (.masterSys deliver txDreq) s)
      (s.step clkId delay (.masterSys deliver txDreq)) := by
  have hLink := h.link.step (show Link.Spaced (.master deliver txDreq) s.link from trivial)
  have hSame : (Link.see clkId clkId o.link (.master deliver txDreq) s.link).tx.captured = o.link.tx.captured := by
    change (o.link.tx.see (.sys true true clkId deliver txDreq) s.link.node).captured = _
    exact TxLog.captured_sys
  exact ⟨h.twin.masterSys, h.master, h.leads, hLink, hSame.trans h.captured, h.delivered, h.slave, h.follows⟩

theorem Joined.slaveSys {take : Bool} {idle : StreamWord} {undriven : BitVec 128} (h : Joined clkId delay bias gain first M S o s) :
    Joined clkId delay bias gain first M S (System.see clkId o (.slaveSys take idle undriven) s)
      (s.step clkId delay (.slaveSys take idle undriven)) := by
  have hLink := h.link.step (show Link.Spaced (.slave take idle undriven) s.link from trivial)
  refine ⟨⟨h.twin.core, h.twin.adc, h.twin.now, h.twin.tuneValid⟩, h.master, h.leads, hLink, h.captured, ?_, h.slave, h.follows⟩
  have hWritten : (System.see clkId o (.slaveSys take idle undriven) s).link.rx.entries =
      o.link.rx.entries ++ ((s.link.rx.fifoWrite (s.link.rxIn clkId take idle) undriven).toList).map unpack := by
    change (o.link.rx.see (s.link.rxIn clkId take idle, undriven) s.link.rx).entries = _
    rw [RxLog.entries_see, RxPath.fifoWrite]
    split_ifs
    · rw [Option.toList_some, List.map_singleton, unpack_fifoIn]
    · rfl
  rw [hWritten, ← h.delivered, List.append_assoc, ← List.map_append]
  rfl

theorem Joined.slaveRef {ready : Nat} {newSampleRdy : Bool} {i : CoreIn} (h : Joined clkId delay bias gain first M S o s)
    (hEnslaved : Enslaved bias gain i)
    (hAhead : s.slave.session.now + 6 < first + 1024 * (o.drive.arrived s.slave.session).length)
    (hRunning : s.slave.session.now / refClkRate < 2 ^ 32) :
    Joined clkId delay bias gain first M S (System.see clkId o (.slaveRef ready newSampleRdy i) s)
      (s.step clkId delay (.slaveRef ready newSampleRdy i)) := by
  have hIn : (System.see clkId o (.slaveRef ready newSampleRdy i) s).slaveIn = o.slaveIn ++ [s.slaveIn ready newSampleRdy i] := rfl
  have hSplit : (s.crossing.take ready).map unpack ++ (s.crossing.drop ready).map unpack = s.crossing.map unpack := by
    rw [← List.map_append, List.take_append_drop]
  refine ⟨⟨h.twin.core, h.twin.adc, h.twin.now, h.twin.tuneValid⟩, h.master, h.leads, h.link, h.captured, ?_, ?_, ?_⟩
  · change (o.drive.see (s.slaveIn ready newSampleRdy i).session s.slave.session).arrived
      (s.slave.session.step delay (s.slaveIn ready newSampleRdy i).session) ++ (s.crossing.drop ready).map unpack = _
    rw [DriveLog.arrived_step, List.append_assoc]
    exact (congrArg (_ ++ ·) hSplit).trans h.delivered
  · rw [hIn, run_append, h.slave]
    rfl
  · rw [hIn, along_append, h.slave]
    refine ⟨h.follows, ⟨hEnslaved, ?_, hAhead, hRunning⟩, trivial⟩
    refine List.IsPrefix.trans ?_ h.inOrder
    rw [← hSplit, ← List.append_assoc]
    exact List.prefix_append _ _

theorem Joined.step {event : SystemEvent} (h : Joined clkId delay bias gain first M S o s)
    (hInTime : System.InTime bias gain first event (o, s)) :
    Joined clkId delay bias gain first M S (System.see clkId o event s) (s.step clkId delay event) := by
  cases event with
  | masterRef i => exact h.masterRef hInTime.1 hInTime.2
  | masterSys deliver txDreq => exact h.masterSys
  | slaveSys take idle undriven => exact h.slaveSys
  | slaveRef ready newSampleRdy i => exact h.slaveRef hInTime.1 hInTime.2.1 hInTime.2.2

/-! ### Runs -/

/-- The network at rest, before the first sample. -/
structure System.AtRest (delay : BitVec 16) (s : System) : Prop where
  master : s.master.AtRest
  link : s.link.AfterReset
  crossing : s.crossing = []
  fifo : s.slave.session.path.fifo = []
  started : Started delay (dueOf s.master delay 0) s.slave

theorem System.AtRest.joined (h : s.AtRest delay) (clkId : BitVec 16) (bias : BitVec 43) (gain : BitVec 16) :
    Joined clkId delay bias gain (dueOf s.master delay 0) s.master s.slave .empty s := by
  refine ⟨⟨rfl, rfl, rfl, rfl⟩, rfl, fun i hi => absurd hi List.not_mem_nil, .of_afterReset clkId clkId h.link, rfl, ?_, rfl, trivial⟩
  rw [DriveLog.arrived, h.fifo, h.crossing]
  rfl

theorem Joined.linked (h : Joined clkId delay bias gain (dueOf M delay 0) M S o s) (hRest : M.AtRest)
    (hStarted : Started delay (dueOf M delay 0) S)
    (hFits : dueOf M delay 0 + o.masterIn.length ≤ 2 ^ 32 * refClkRate) :
    Linked delay bias gain M o.masterIn 0 S o.slaveIn := by
  refine ⟨hRest, h.leads, hFits, hStarted, ?_⟩
  rw [samplesOf, h.master]
  exact h.follows

theorem slaveIn_isPrefix (clkId delay : BitVec 16) (events : List SystemEvent) (p : SystemLog × System) :
    p.1.slaveIn <+: (run (watch (System.step clkId delay) (System.see clkId)) events p).1.slaveIn := by
  have hStep : ∀ event (q : SystemLog × System), p.1.slaveIn <+: q.1.slaveIn →
      p.1.slaveIn <+: (watch (System.step clkId delay) (System.see clkId) event q).1.slaveIn := by
    rintro event q hBefore
    cases event with
    | masterRef i | masterSys deliver txDreq | slaveSys take idle undriven => exact hBefore
    | slaveRef ready newSampleRdy i => exact hBefore.trans (List.prefix_append _ _)
  exact run_keeps (fun q : SystemLog × System => p.1.slaveIn <+: q.1.slaveIn) hStep events List.prefix_rfl

theorem Joined.slave_eq (h : Joined clkId delay bias gain first M S o s) : run (Slave.step delay) o.slaveIn S = s.slave := by
  rw [← run_watch_snd (Slave.step delay) seeSlave o.slaveIn (.empty, S), h.slave]

end WrRfDemo.Network

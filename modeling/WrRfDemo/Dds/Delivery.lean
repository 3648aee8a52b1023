import WrRfDemo.Dds.Agreement

/-! # Everything captured arrives

Once the streamers accept and deliver without pause, a bounded number of cycles brings
every word under way to the slave.
-/

namespace WrRfDemo.Dds

open Clocked

namespace Link

variable {txId rxId : BitVec 16}

def refIdle : TxRefIn := ⟨true, false, false, 0, 0, 0, 0⟩

def idleWord : StreamWord := ⟨0, false, false⟩

/-- No stalls: first the master sends what it has, then the slave reads. -/
def delivery (k : Nat) : List LinkEvent := List.replicate 6 (.master true true) ++ List.replicate k (.slave true idleWord 0)

/-- No more captures, and no more stalls. -/
def flush (k : Nat) : List LinkEvent :=
  .ref refIdle :: (List.replicate 6 (.master true true) ++ List.replicate k (.slave true idleWord 0))

def owing (s : TxNode) : Nat :=
  match s.path.state with
  | .waitSample => if s.pulses ≠ 0 then 6 else if s.path.txValid then 1 else 0
  | .txTimestamp => 5
  | .txAcc => 4
  | .txTune => 3
  | .txPad => 2

/-- At most one sample, and its pulse already on its way or gone. -/
structure Lone (s : TxNode) : Prop where
  newSample : s.path.newSample = false
  pulses : s.pulses ≤ 1
  busy : s.path.state ≠ .waitSample → s.pulses = 0

theorem lone_master (txId rxId : BitVec 16) {s : Link} (h : Lone s.node) :
    Lone (step txId rxId (.master true true) s).node ∧
      owing (step txId rxId (.master true true) s).node ≤ owing s.node - 1 := by
  obtain ⟨hNew, hPulses, hBusy⟩ := h
  cases hState : s.node.path.state with
  | waitSample =>
    obtain hNone | hOne : s.node.pulses = 0 ∨ s.node.pulses = 1 := by omega
    · refine ⟨⟨?_, ?_, ?_⟩, ?_⟩ <;>
        simp [step, TxNode.step, TxPath.pTxFsm, TxNode.newSampleSys, hState, hNone, hNew, owing]
    · refine ⟨⟨?_, ?_, ?_⟩, ?_⟩ <;>
        simp [step, TxNode.step, TxPath.pTxFsm, TxNode.newSampleSys, hState, hOne, hNew, owing]
  | txTimestamp | txAcc | txTune | txPad =>
    have hNone := hBusy (by simp [hState])
    refine ⟨⟨?_, ?_, ?_⟩, ?_⟩ <;>
      simp [step, TxNode.step, TxPath.pTxFsm, TxNode.newSampleSys, hState, hNone, hNew, owing]

theorem owing_run (txId rxId : BitVec 16) {s : Link} (h : Lone s.node) (n : Nat) :
    let last := run (step txId rxId) (List.replicate n (.master true true)) s
    Lone last.node ∧ owing last.node ≤ owing s.node - n ∧
      last.channel.length ≤ s.channel.length + n := by
  induction n generalizing s with
  | zero => exact ⟨h, Nat.le_refl _, Nat.le_refl _⟩
  | succ n ih =>
    obtain ⟨hLone, hOwing⟩ := lone_master txId rxId h
    obtain ⟨hLast, hLess, hLength⟩ := ih hLone
    refine ⟨hLast, ?_, ?_⟩
    · rw [List.replicate_succ, run_cons]
      omega
    · have hPush : (step txId rxId (.master true true) s).channel.length ≤ s.channel.length + 1 := by
        simp only [step, pushed, List.length_append]
        split_ifs <;> simp
      rw [List.replicate_succ, run_cons]
      omega

theorem run_slave (txId rxId : BitVec 16) (s : Link) (k : Nat) :
    let last := run (step txId rxId) (List.replicate k (.slave true idleWord 0)) s
    last.node = s.node ∧ last.channel = s.channel.drop k := by
  induction k generalizing s with
  | zero => exact ⟨rfl, rfl⟩
  | succ k ih =>
    obtain ⟨hNode, hChannel⟩ := ih (step txId rxId (.slave true idleWord 0) s)
    refine ⟨hNode, ?_⟩
    rw [List.replicate_succ, run_cons, hChannel]
    simp [step]

/-- A cycle that takes no sample. -/
theorem lone_ref {i : TxRefIn} {s : Link} {o : TxLog} (h : TxLog.InOrder txId o s.node) (hNone : s.node.path.captures i = false) :
    Lone (step txId rxId (.ref i) s).node := by
  obtain ⟨hPulses, hOne, hIdle⟩ := h.single
  refine ⟨by simp [step, TxNode.step, TxPath.newSample_pTakeTags, hNone], ?_, ?_⟩
  · cases hNew : s.node.path.newSample with
    | false => simpa [step, TxNode.step, hNew] using hPulses
    | true => simp [step, TxNode.step, hNew, hOne hNew]
  · intro hBusy
    obtain ⟨hNew, hZero⟩ := hIdle (by simpa [step, TxNode.step] using hBusy)
    simp [step, TxNode.step, hNew, hZero]

theorem of_owing {s : TxNode} (h : owing s = 0) :
    s.path.state = .waitSample ∧ s.pulses = 0 ∧ s.path.txValid = false := by
  cases hState : s.path.state with
  | waitSample =>
    simp only [owing, hState] at h
    split_ifs at h with hPulses hValid
    exact ⟨rfl, by simpa using hPulses, by simpa using hValid⟩
  | txTimestamp | txAcc | txTune | txPad => simp [owing, hState] at h

theorem captures_refIdle (s : TxPath) : s.captures refIdle = false := by
  simp [TxPath.captures, refIdle]

theorem spaced_refIdle (s : Link) : Spaced (.ref refIdle) s := by
  simp [Spaced, captures_refIdle]

theorem along_delivery (k : Nat) (s : Link) : Along (step txId rxId) Spaced (delivery k) s := by
  refine along_of_forall (fun event hEvent s => ?_) s
  rcases List.mem_append.mp hEvent with hMaster | hSlave
  · rw [List.eq_of_mem_replicate hMaster]
    trivial
  · rw [List.eq_of_mem_replicate hSlave]
    trivial

theorem along_flush (k : Nat) (s : Link) : Along (step txId rxId) Spaced (flush k) s :=
  ⟨spaced_refIdle s, along_delivery k _⟩

end Link

namespace LinkInv

variable {txId rxId : BitVec 16} {o : LinkLog} {s : Link}

theorem run (h : LinkInv txId rxId o s) (events : List LinkEvent)
    (hAlong : Along (Link.step txId rxId) Link.Spaced events s) :
    LinkInv txId rxId (Clocked.run (watch (Link.step txId rxId) (Link.see txId rxId)) events (o, s)).1
      (Clocked.run (Link.step txId rxId) events s) := by
  have hStep : ∀ o event s, LinkInv txId rxId o s → Link.Spaced event s →
      LinkInv txId rxId (Link.see txId rxId o event s) (Link.step txId rxId event s) :=
    fun _ _ _ h hSpaced => h.step hSpaced
  have hEnd := watch_invariant hStep events h hAlong
  rwa [run_watch_snd] at hEnd

theorem strobe_of_empty (h : LinkInv txId rxId o s) (hEmpty : s.channel = []) :
    (Link.step txId rxId (.slave true Link.idleWord 0) s).rx.newSampleSys = false := by
  obtain ⟨hAcc, hTune⟩ := h.assembled.length_opened
  cases hState : s.rx.state with
  | waitSample => simp [Link.step, Link.rxIn, hEmpty, RxPath.pRxFsm, hState]
  | acc => simp [Link.step, Link.rxIn, hEmpty, RxPath.pRxFsm, hState, hAcc hState]
  | tune => simp [Link.step, Link.rxIn, hEmpty, RxPath.pRxFsm, hState, hTune hState]

theorem drained_delivery (h : LinkInv txId rxId o s) (hLone : Link.Lone s.node) {k : Nat} (hk : s.channel.length + 6 ≤ k) :
    (Clocked.run (Link.step txId rxId) (Link.delivery (k + 1)) s).Drained := by
  obtain ⟨hLast, hOwing, hLength⟩ := Link.owing_run txId rxId hLone 6
  obtain ⟨hNode, hChannel⟩ := Link.run_slave txId rxId
    (Clocked.run (Link.step txId rxId) (List.replicate 6 (.master true true)) s) k
  have hSplit : Link.delivery (k + 1) = Link.delivery k ++ [.slave true Link.idleWord 0] := by
    simp [Link.delivery, List.replicate_succ']
  have hInv := h.run (Link.delivery k) (Link.along_delivery k s)
  rw [← run_append] at hNode hChannel
  generalize hRun : Clocked.run (Link.step txId rxId) (Link.delivery k) s = last at hInv
  rw [show Clocked.run (Link.step txId rxId) (List.replicate 6 (.master true true) ++ _) s = last from hRun] at hNode hChannel
  have hMost : ∀ n : TxNode, Link.owing n ≤ 6 := by
    intro n
    unfold Link.owing
    split
    · split_ifs <;> omega
    · omega
    · omega
    · omega
    · omega
  obtain ⟨hState, hPulses, hValid⟩ := Link.of_owing (s := last.node) (by
    have := hMost s.node
    rw [hNode]
    omega)
  have hEmpty : last.channel = [] := by
    rw [hChannel, List.drop_eq_nil_iff]
    omega
  rw [hSplit, run_append, hRun]
  refine ⟨?_, hPulses, hState, hValid, ?_, hInv.strobe_of_empty hEmpty⟩
  · rw [← hNode] at hLast
    exact hLast.newSample
  · simp [Link.step, hEmpty]

theorem drained_flush (h : LinkInv txId rxId o s) {k : Nat} (hk : s.channel.length + 6 ≤ k) :
    (Clocked.run (Link.step txId rxId) (Link.flush (k + 1)) s).Drained :=
  (h.step (Link.spaced_refIdle s)).drained_delivery (Link.lone_ref h.inOrder (Link.captures_refIdle _)) hk

end LinkInv

theorem captured_flush (txId rxId : BitVec 16) (k : Nat) (o : LinkLog) (s : Link) :
    (run (watch (Link.step txId rxId) (Link.see txId rxId)) (Link.flush k) (o, s)).1.tx.captured =
      o.tx.captured := by
  have hAlong : Along (Link.step txId rxId) (fun event s => ∀ i, event = .ref i → s.node.path.captures i = false)
      (Link.flush k) s := by
    refine along_of_forall (fun event hEvent s i hRef => ?_) s
    subst hRef
    rcases List.mem_cons.mp hEvent with hIdle | hRest
    · cases hIdle
      simp [TxPath.captures, Link.refIdle]
    · simp at hRest
  have hStep : ∀ (log : LinkLog) event (s : Link), log.tx.captured = o.tx.captured →
      (∀ i, event = .ref i → s.node.path.captures i = false) →
      (Link.see txId rxId log event s).tx.captured = o.tx.captured := by
    intro log event s hSame hQuiet
    cases event with
    | ref i => simpa [Link.see, TxLog.see, hQuiet i rfl] using hSame
    | master deliver txDreq => simpa [Link.see, TxLog.captured_sys] using hSame
    | slave take idle undriven => exact hSame
  exact watch_invariant hStep (Link.flush k) rfl hAlong

/-- Captures only while `p_tx_fsm` waits for a sample. -/
def Link.Waiting : LinkEvent → Link → Prop
  | .ref i, s => s.node.path.captures i = true → s.node.path.state = .waitSample
  | _, _ => True

instance (event : LinkEvent) (s : Link) : Decidable (s.Waiting event) :=
  match event with
  | .ref _ => inferInstanceAs (Decidable (_ → _))
  | .master .. | .slave .. => isTrue trivial

def linkIdle : Link := ⟨idleNode, [], true, ⟨.waitSample, 0, 0, 0, 0, false, 0, true⟩⟩

def refCapture (value : Nat) : LinkEvent :=
  .ref ⟨true, true, value != 0, BitVec.ofNat 43 value, BitVec.ofNat 18 value, BitVec.ofNat 40 value,
    BitVec.ofNat 28 value⟩

/-- Two captures, with or without the first pulse crossing between them. -/
def twoCaptures (between : List LinkEvent) : List LinkEvent :=
  [refCapture 0, refCapture 1] ++ between ++ [refCapture 2]

def crossing : List LinkEvent := refCapture 0 :: List.replicate 6 (.master true true)

def linkRun (rxId : BitVec 16) (events : List LinkEvent) : LinkLog × Link :=
  run (watch (Link.step 7 rxId) (Link.see 7 rxId)) events (⟨TxLog.empty, RxLog.empty⟩, linkIdle)

end WrRfDemo.Dds

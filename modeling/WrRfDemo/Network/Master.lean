import WrRfDemo.Adc.Triggers
import WrRfDemo.Core.Agreement
import WrRfDemo.Core.History
import WrRfDemo.Dds.Link
import WrRfDemo.Timing.WrTime

/-! # A master

The sample path takes a sample a cycle after the interpolator has taken a word, with the time and the word of that cycle. It is the same
word: the interpolator triggers the ADC when it takes one, and the controller has done with the ADC's sample long before the next.
-/

namespace WrRfDemo.Network

open Clocked Timing WrRfDemo.Core Cic Dds Adc Control

/-- What varies in a cycle of a master. The wires that come from its ADC interface are not among it. -/
structure MasterIn where
  core : CoreIn
  adcSdo : Bool

/-- The core, the ADC interface, the sample path's side of the reference clock, and the WR time as a tick count. -/
structure Master where
  core : DdsCore
  adc : Ad7980 16
  tx : TxPath
  now : Nat

namespace Master

/-- The ports of `pi_control_1` are the ADC interface's. -/
def coreIn (i : MasterIn) (s : Master) : CoreIn := { i.core with adcDvalid := s.adc.dValidO, adcData := s.adc.dO }

def adcIn (i : MasterIn) (s : Master) : AdcIn where
  rstN := i.core.rstNRef
  trig := s.core.cic.ceOutO (s.core.cicIn (s.coreIn i))
  adcSdo := i.adcSdo

def tagsIn (i : MasterIn) (s : Master) : TxRefIn where
  rstN := i.core.rstNRef
  cicCe := s.core.cic.ceOutO (s.core.cicIn (s.coreIn i))
  tmTimeValid := true
  acc := s.core.synth.accO
  tune := s.core.cicInput (s.coreIn i)
  tmTai := (tickStamp 40 s.now).tai
  tmCycles := (tickStamp 40 s.now).cycles

def step (i : MasterIn) (s : Master) : Master :=
  ⟨s.core.clock (s.coreIn i), s.adc.clock (s.adcIn i), s.tx.pTakeTags (s.tagsIn i), s.now + 1⟩

/-- The interpolator is reset, and nothing is under way beside it. -/
structure AtRest (s : Master) : Prop where
  reset : s.core.cic = .reset
  tags : s.tx.tuneValid = false
  adc : s.adc.Waiting
  controller : s.core.pi.Idle 4

end Master

structure MasterLog where
  fed : List (BitVec 18)
  captured : List Sample

def MasterLog.empty : MasterLog := ⟨[], []⟩

def seeMaster (o : MasterLog) (i : MasterIn) (s : Master) : MasterLog where
  fed := feedCore o.fed (s.coreIn i) s.core
  captured := o.captured ++ if s.tx.captures (s.tagsIn i) then [TxPath.sampleIn (s.tagsIn i)] else []

/-- A running cycle in master mode, at this centre frequency and gain. -/
structure Leads (bias : BitVec 43) (gain : BitVec 16) (i : MasterIn) : Prop where
  runs : Runs bias gain i.core
  keeps : i.core.slaveCicRst = false
  unloaded : i.core.synthAccLoad = false
  crMaster : i.core.crMaster = true

/-- How many cycles ago the last word was taken. -/
def ageOf (fed : List (BitVec 18)) : Nat := (fed.length + 1023) % 1024 + 1

/-- The sample with this number, of a master whose interpolator started at this tick. -/
structure SampleAt (start : Nat) (fed : List (BitVec 18)) (n : Nat) (sample : Sample) : Prop where
  tai : sample.tai = (tickStamp 40 (start + 1 + 1024 * n)).tai
  cycles : sample.cycles = (tickStamp 40 (start + 1 + 1024 * n)).cycles
  tune : fed[1024 * n]? = some sample.tune

structure Sampling (bias : BitVec 43) (gain : BitVec 16) (start : Nat) (o : MasterLog) (s : Master) : Prop where
  made : Made bias gain o.fed s.core
  now : s.now = start + o.fed.length
  adc : s.adc.Since (ageOf o.fed)
  controller : s.core.pi.Idle (ageOf o.fed - (acquisitionCycles 16 + 1))
  tuneValid : s.tx.tuneValid = true ↔ o.fed.length % 1024 = 1
  lasts : s.tx.tuneValid = true → ∀ i : CoreIn, i.crMaster = true → o.fed.getLast? = some (s.core.cicInput i)
  count : o.captured.length = (o.fed.length + 1022) / 1024
  samples : ∀ n sample, o.captured[n]? = some sample → SampleAt start o.fed n sample

variable {bias : BitVec 43} {gain : BitVec 16} {start n : Nat} {o : MasterLog} {i : MasterIn} {s : Master}
  {fed : List (BitVec 18)} {sample : Sample}

theorem sampling_reset (hRest : s.AtRest) : Sampling bias gain s.now .empty s := by
  have hOff : ¬s.tx.tuneValid = true := by simp [hRest.tags]
  refine ⟨made_reset bias gain hRest.reset, rfl, hRest.adc.since (by decide), hRest.controller.ever _, ?_, ?_, rfl, ?_⟩
  · exact iff_of_false hOff (by decide)
  · exact fun hValid => absurd hValid hOff
  · rintro n sample hAt
    exact absurd hAt (by simp [MasterLog.empty])

theorem SampleAt.append (h : SampleAt start fed n sample) (word : BitVec 18) : SampleAt start (fed ++ [word]) n sample := by
  refine ⟨h.tai, h.cycles, ?_⟩
  rw [List.getElem?_append_left]
  · exact h.tune
  · exact (List.getElem?_eq_some_iff.mp h.tune).1

theorem Leads.runs_coreIn (h : Leads bias gain i) (s : Master) : Runs bias gain (s.coreIn i) :=
  ⟨h.runs.rstNRef, h.runs.centre, h.runs.scale⟩

theorem fed_seeMaster (hLeads : Leads bias gain i) (o : MasterLog) (s : Master) :
    (seeMaster o i s).fed = o.fed ++ [s.core.cicInput (s.coreIn i)] :=
  feedCore_append hLeads.keeps o.fed s.core

theorem length_fed_seeMaster (hLeads : Leads bias gain i) (o : MasterLog) (s : Master) :
    (seeMaster o i s).fed.length = o.fed.length + 1 := by
  rw [fed_seeMaster hLeads, List.length_append, List.length_singleton]

theorem pi_clock (i : CoreIn) (s : DdsCore) : (s.clock i).pi = s.pi.clock i.gains ⟨i.rstNRef, i.adcDvalid, i.adcData⟩ := by
  rw [DdsCore.clock]
  split_ifs <;> rfl

theorem cicInput_congr {i j : CoreIn} {s t : DdsCore} (hI : i.crMaster = true) (hJ : j.crMaster = true) (hSame : s.pi.qO = t.pi.qO) :
    s.cicInput i = t.cicInput j := by
  rw [DdsCore.cicInput, DdsCore.cicInput, if_pos hI, if_pos hJ, hSame]

namespace Sampling

theorem ceOutO_iff (h : Sampling bias gain start o s) (i : MasterIn) :
    (s.adcIn i).trig = true ↔ o.fed.length % 1024 = 0 :=
  Core.ceOutO_iff h.made.exact (s.coreIn i)

theorem adc_step (h : Sampling bias gain start o s) (hLeads : Leads bias gain i) :
    (s.step i).adc.Since (ageOf (seeMaster o i s).fed) := by
  have hBits : 2 ≤ 16 ∧ 16 ≤ 31 := by decide
  have hRst : (s.adcIn i).rstN = true := hLeads.runs.rstNRef
  have hTrig := h.ceOutO_iff i
  have hAge := h.adc
  rw [ageOf, length_fed_seeMaster hLeads]
  rw [ageOf] at hAge
  by_cases hTakes : o.fed.length % 1024 = 0
  · rw [show (o.fed.length + 1 + 1023) % 1024 + 1 = 1 by omega]
    exact (hAge.waiting (by rw [acquisitionCycles]; omega)).since_one hRst (hTrig.mpr hTakes)
  · rw [show (o.fed.length + 1 + 1023) % 1024 + 1 = (o.fed.length + 1023) % 1024 + 1 + 1 by omega]
    exact hAge.clock hBits hRst (by rw [← Bool.not_eq_true, hTrig]; exact hTakes)

theorem controller_step (h : Sampling bias gain start o s) (hLeads : Leads bias gain i) :
    (s.step i).core.pi.Idle (ageOf (seeMaster o i s).fed - (acquisitionCycles 16 + 1)) := by
  have hRst : (s.coreIn i).rstNRef = true := hLeads.runs.rstNRef
  have hAdc := h.adc
  have hIdle := h.controller
  rw [Master.step, pi_clock, ageOf, length_fed_seeMaster hLeads]
  rw [ageOf] at hAdc hIdle
  generalize hAge : (o.fed.length + 1023) % 1024 + 1 = age at hAdc hIdle
  have hCycles : acquisitionCycles 16 = 697 := rfl
  rcases Nat.lt_or_ge (acquisitionCycles 16) age with hLate | hEarly
  · have hNone : (s.coreIn i).adcDvalid = false := (hAdc.waiting hLate).quiet.drdy
    by_cases hTakes : o.fed.length % 1024 = 0
    · rw [show (o.fed.length + 1 + 1023) % 1024 + 1 - (acquisitionCycles 16 + 1) = 0 by omega]
      exact PiControl.idle_zero _
    · rw [show (o.fed.length + 1 + 1023) % 1024 + 1 - (acquisitionCycles 16 + 1) = age - (acquisitionCycles 16 + 1) + 1 by omega]
      exact hIdle.clock hRst hNone
  · rw [show (o.fed.length + 1 + 1023) % 1024 + 1 - (acquisitionCycles 16 + 1) = 0 by omega]
    exact PiControl.idle_zero _

theorem tuneValid_step (h : Sampling bias gain start o s) (hLeads : Leads bias gain i) :
    (s.step i).tx.tuneValid = true ↔ o.fed.length % 1024 = 0 := by
  have hRst : i.core.rstNRef = true := hLeads.runs.rstNRef
  have hNext : (s.step i).tx.tuneValid = (s.adcIn i).trig := by
    rw [Master.step, TxPath.pTakeTags, if_neg (by simp [Master.tagsIn, hRst])]
    split_ifs <;> rfl
  rw [hNext, h.ceOutO_iff]

/-- The word that has been taken is still there in the cycle after. -/
theorem lasts_step (h : Sampling bias gain start o s) (hLeads : Leads bias gain i) (hTakes : o.fed.length % 1024 = 0) {j : CoreIn}
    (hMaster : j.crMaster = true) : (seeMaster o i s).fed.getLast? = some ((s.step i).core.cicInput j) := by
  have hIdle := h.controller
  rw [ageOf, show (o.fed.length + 1023) % 1024 + 1 = 1024 by omega] at hIdle
  have hSame : s.core.pi.qO = (s.step i).core.pi.qO := by
    rw [Master.step, pi_clock]
    exact (PiControl.qO_clock hLeads.runs.rstNRef (hIdle.stage3 (by decide))).symm
  have hCore : (s.coreIn i).crMaster = true := hLeads.crMaster
  rw [fed_seeMaster hLeads, List.getLast?_append, List.getLast?_singleton, Option.some_or, cicInput_congr hCore hMaster hSame]

theorem taken (h : Sampling bias gain start o s) (hLeads : Leads bias gain i) (hValid : s.tx.tuneValid = true) :
    o.fed.length = 1024 * o.captured.length + 1 ∧ SampleAt start o.fed o.captured.length (TxPath.sampleIn (s.tagsIn i)) := by
  have hOne := h.tuneValid.mp hValid
  have hCount := h.count
  have hPlace : o.fed.length = 1024 * o.captured.length + 1 := by omega
  have hNow : s.now = start + 1 + 1024 * o.captured.length := by
    rw [h.now, hPlace]
    omega
  have hLast := h.lasts hValid (s.coreIn i) hLeads.crMaster
  rw [List.getLast?_eq_getElem?, hPlace, Nat.add_sub_cancel] at hLast
  refine ⟨hPlace, ?_, ?_, hLast⟩
  all_goals
    rw [← hNow]
    rfl

theorem step (h : Sampling bias gain start o s) (hLeads : Leads bias gain i) :
    Sampling bias gain start (seeMaster o i s) (s.step i) := by
  have hRst : i.core.rstNRef = true := hLeads.runs.rstNRef
  have hFed := fed_seeMaster hLeads o s
  have hLength := length_fed_seeMaster hLeads o s
  have hNext := h.tuneValid_step hLeads
  have hCaptured : (seeMaster o i s).captured = o.captured ++ if s.tx.tuneValid then [TxPath.sampleIn (s.tagsIn i)] else [] := by
    rw [seeMaster, TxPath.captures]
    simp [Master.tagsIn, hRst]
  constructor
  case made =>
    rw [hFed]
    exact h.made.step (hLeads.runs_coreIn s) hLeads.keeps
  case now =>
    rw [hLength]
    exact congrArg (· + 1) h.now
  case adc => exact h.adc_step hLeads
  case controller => exact h.controller_step hLeads
  case tuneValid =>
    rw [hNext, hLength]
    omega
  case lasts => exact fun hValid j hMaster => h.lasts_step hLeads (hNext.mp hValid) hMaster
  case count =>
    rw [hCaptured, hLength, List.length_append, h.count]
    split_ifs with hValid
    · have hOne := h.tuneValid.mp hValid
      rw [List.length_singleton]
      omega
    · have hOther := mt h.tuneValid.mpr hValid
      rw [List.length_nil]
      omega
  case samples =>
    rintro m sample hAt
    rw [hFed]
    apply SampleAt.append
    rw [hCaptured] at hAt
    rcases Nat.lt_or_ge m o.captured.length with hOld | hNew
    · rw [List.getElem?_append_left hOld] at hAt
      exact h.samples m sample hAt
    · rw [List.getElem?_append_right hNew] at hAt
      split_ifs at hAt with hValid
      · obtain ⟨hZero, rfl⟩ : m - o.captured.length = 0 ∧ TxPath.sampleIn (s.tagsIn i) = sample := by
          simpa [List.getElem?_singleton] using hAt
        obtain rfl : m = o.captured.length := by omega
        exact (h.taken hLeads hValid).2
      · exact absurd hAt (by simp)

end Sampling

end WrRfDemo.Network

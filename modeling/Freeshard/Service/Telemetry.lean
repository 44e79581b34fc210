import Freeshard.DataModel.AppMeta
import Freeshard.Util.Dict

/-! # Telemetry

The accumulators of `service/telemetry.py` and `service/pause_metrics.py`, the functions that record, and
`send_telemetry`, which is cut at its only suspension point, the call to the controller. The figures that are
only derived for a report are left out: percentiles of the latencies and the use of swap. -/

namespace Freeshard.Metrics
set_option autoImplicit false

/-! ## Data -/

/-- For each app, how often each transition has happened. -/
abbrev Transitions : Type := Dict String (Dict String ℕ)

/-- What a counter shows; one that does not exist shows zero. -/
def Transitions.count (transitions : Transitions) (appName key : String) : ℕ :=
  ((transitions.lookup appName).bind (·.lookup key)).getD 0

/-- The globals of `pause_metrics`. -/
structure PauseMetrics where
  appTransitions : Transitions := ∅
  pauseLatenciesMs : List ℚ := []
  unpauseLatenciesMs : List ℚ := []
  psiSnapshots : List ℚ := []

/-- The globals of `telemetry`, with those of `pause_metrics`. Times are in microseconds. -/
structure Globals where
  noOfRequests : ℕ := 0
  lastSend : ℤ := 0
  pauseMetrics : PauseMetrics := {}

structure PauseTierTelemetry where
  transitions : Transitions
  psiSomeAvg10Snapshots : List ℚ

structure Telemetry where
  startTime : ℤ
  endTime : ℤ
  noOfRequests : ℕ
  pauseTier : Option PauseTierTelemetry

/-- What a report says about a transition. -/
def Telemetry.count (telemetry : Telemetry) (appName key : String) : ℕ :=
  telemetry.pauseTier.elim 0 fun tier => tier.transitions.count appName key

/-! ## Recording -/

def transitionKey (fromStatus toStatus : Status) : String :=
  fromStatus.value ++ "_to_" ++ toStatus.value

def maxLatencySamples : ℕ := 1000

def maxPsiSnapshots : ℕ := 120

section Recording
variable (enabled : Bool)

/-- `record_request`. -/
def recordRequest (g : Globals) : Globals :=
  if enabled then { g with noOfRequests := g.noOfRequests + 1 } else g

/-- `record_app_transition`. -/
def recordAppTransition (m : PauseMetrics) (appName : String) (fromStatus toStatus : Status) :
    PauseMetrics :=
  if enabled then
    let key := transitionKey fromStatus toStatus
    let counters := (m.appTransitions.lookup appName).getD ∅
    let counters := counters.insert key ((counters.lookup key).getD 0 + 1)
    { m with appTransitions := m.appTransitions.insert appName counters }
  else m

/-- Samples beyond the limit are dropped. -/
def addSample (limit : ℕ) (samples : List ℚ) (sample : ℚ) : List ℚ :=
  if samples.length < limit then samples ++ [sample] else samples

/-- `record_pause_latency`. -/
def recordPauseLatency (m : PauseMetrics) (milliseconds : ℚ) : PauseMetrics :=
  if enabled then
    { m with pauseLatenciesMs := addSample maxLatencySamples m.pauseLatenciesMs milliseconds }
  else m

/-- `record_unpause_latency`. -/
def recordUnpauseLatency (m : PauseMetrics) (milliseconds : ℚ) : PauseMetrics :=
  if enabled then
    { m with unpauseLatenciesMs := addSample maxLatencySamples m.unpauseLatenciesMs milliseconds }
  else m

/-- `record_psi_snapshot`. -/
def recordPsiSnapshot (m : PauseMetrics) (psiSomeAvg10 : ℚ) : PauseMetrics :=
  if enabled then { m with psiSnapshots := addSample maxPsiSnapshots m.psiSnapshots psiSomeAvg10 }
  else m

end Recording

/-! ## Sending -/

/-- `_build_pause_tier`. -/
def buildPauseTier (m : PauseMetrics) : Option PauseTierTelemetry :=
  if m.appTransitions.keys.isEmpty && m.pauseLatenciesMs.isEmpty && m.unpauseLatenciesMs.isEmpty &&
      m.psiSnapshots.isEmpty then none
  else some ⟨m.appTransitions, m.psiSnapshots⟩

/-- `send_telemetry` up to the call to the controller; without a report there is no call. -/
def beginSend (enabled : Bool) (g : Globals) (now : ℤ) : Option Telemetry :=
  if enabled then some ⟨g.lastSend, now, g.noOfRequests, buildPauseTier g.pauseMetrics⟩ else none

/-- `reset`. -/
def reset (_ : PauseMetrics) : PauseMetrics := {}

/-- `send_telemetry` from the end of the call on. The code looks at the response no further. -/
def endSend (g : Globals) (telemetry : Telemetry) : Except Exn ℕ → Globals
  | .error _ => g
  | .ok _ =>
    { noOfRequests := 0
      lastSend := telemetry.endTime
      pauseMetrics := reset g.pauseMetrics }

/-! ## What is counted -/

theorem count_empty (appName key : String) : Transitions.count ∅ appName key = 0 := by
  rw [Transitions.count, AList.lookup_empty]
  rfl

theorem count_recordAppTransition (m : PauseMetrics) (app : String) (fromStatus toStatus : Status)
    (appName key : String) :
    (recordAppTransition true m app fromStatus toStatus).appTransitions.count appName key =
      m.appTransitions.count appName key +
        if app = appName ∧ transitionKey fromStatus toStatus = key then 1 else 0 := by
  rw [recordAppTransition, if_pos rfl]
  dsimp only
  unfold Transitions.count
  by_cases happ : app = appName
  · subst happ
    rw [AList.lookup_insert, Option.bind_some]
    by_cases hkey : transitionKey fromStatus toStatus = key
    · subst hkey
      rw [AList.lookup_insert, if_pos ⟨rfl, rfl⟩]
      cases m.appTransitions.lookup app with
      | none => rfl
      | some counters => rfl
    · rw [AList.lookup_insert_ne (Ne.symm hkey), if_neg fun h => hkey h.2]
      cases m.appTransitions.lookup app with
      | none => rw [Option.getD_none, AList.lookup_empty]; rfl
      | some counters => rfl
  · rw [AList.lookup_insert_ne (Ne.symm happ), if_neg fun h => happ h.1, Nat.add_zero]

/-- A report says what has been counted, also where it leaves the pause tier out. -/
theorem count_beginSend {g : Globals} {now : ℤ} {telemetry : Telemetry}
    (h : beginSend true g now = some telemetry) :
    telemetry.noOfRequests = g.noOfRequests ∧
    ∀ appName key, telemetry.count appName key = g.pauseMetrics.appTransitions.count appName key := by
  rw [beginSend, if_pos rfl] at h
  obtain rfl := Option.some.inj h
  refine ⟨rfl, fun appName key => ?_⟩
  rw [Telemetry.count, buildPauseTier]
  split
  · next hempty =>
    simp only [Bool.and_eq_true, List.isEmpty_iff] at hempty
    have hnone : g.pauseMetrics.appTransitions.lookup appName = none := by
      rw [AList.lookup_eq_none, AList.mem_keys, hempty.1.1.1]
      exact List.not_mem_nil
    rw [Transitions.count, hnone]
    rfl
  · rfl

end Freeshard.Metrics

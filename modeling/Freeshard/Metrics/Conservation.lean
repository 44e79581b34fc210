import Freeshard.Service.Telemetry
import Mathlib.Algebra.GroupWithZero.Nat

/-! # No request is lost or counted twice

What a report says is dropped from the accumulators only after the call to the controller, together with
everything recorded meanwhile. The reports of the sends that succeeded and the accumulators add up to what has
been recorded exactly as long as nothing is recorded in between. -/

namespace Freeshard.Metrics
set_option autoImplicit false

/-! ## Runs -/

/-- What happens between two suspension points. Sends are told apart by their number. -/
inductive Event where
  | recordRequest
  | recordAppTransition (appName : String) (fromStatus toStatus : Status)
  | recordPauseLatency (milliseconds : ℚ)
  | recordUnpauseLatency (milliseconds : ℚ)
  | recordPsiSnapshot (psiSomeAvg10 : ℚ)
  | sendBegins (id : ℕ) (now : ℤ)
  | sendEnds (id : ℕ) (outcome : Except Exn ℕ)

structure System where
  globals : Globals := {}
  /-- The reports of the calls that have not ended. -/
  inFlight : Dict ℕ Telemetry := ∅
  /-- The reports of the sends that succeeded. -/
  succeeded : List Telemetry := []

/-- Records into the pause metrics. -/
def System.record (s : System) (f : PauseMetrics → PauseMetrics) : System :=
  { s with globals := { s.globals with pauseMetrics := f s.globals.pauseMetrics } }

section Step
variable (success : ℕ → Bool)

/-- Whether a send has succeeded: the call has returned, with a status that counts as success. -/
def succeeds : Except Exn ℕ → Bool
  | .error _ => false
  | .ok status => success status

/-- What an event does, with telemetry enabled; `none` if it cannot happen. -/
def step (s : System) : Event → Option System
  | .recordRequest => some { s with globals := Metrics.recordRequest true s.globals }
  | .recordAppTransition appName fromStatus toStatus =>
    some (s.record fun m => Metrics.recordAppTransition true m appName fromStatus toStatus)
  | .recordPauseLatency ms => some (s.record fun m => Metrics.recordPauseLatency true m ms)
  | .recordUnpauseLatency ms => some (s.record fun m => Metrics.recordUnpauseLatency true m ms)
  | .recordPsiSnapshot psi => some (s.record fun m => Metrics.recordPsiSnapshot true m psi)
  | .sendBegins id now =>
    if id ∈ s.inFlight then none
    else match beginSend true s.globals now with
      | none => some s
      | some telemetry => some { s with inFlight := s.inFlight.insert id telemetry }
  | .sendEnds id outcome =>
    match s.inFlight.lookup id with
    | none => none
    | some telemetry => some
        { globals := endSend s.globals telemetry outcome
          inFlight := s.inFlight.erase id
          succeeded := if succeeds success outcome then telemetry :: s.succeeded else s.succeeded }

/-- The states that events lead to, latest event first; every step meets the condition `C`. -/
inductive Reaches (C : System → Event → Prop) : List Event → System → Prop where
  | start : Reaches C [] {}
  | step {events : List Event} {s s' : System} {event : Event} (h : Reaches C events s)
      (hC : C s event) (hstep : step success s event = some s') : Reaches C (event :: events) s'

end Step

/-! ## What is conserved -/

def Event.isRequest : Event → Bool
  | .recordRequest => true
  | _ => false

/-- A transition of the app that the counter `key` counts. -/
def Event.isTransition (appName key : String) : Event → Bool
  | .recordAppTransition app fromStatus toStatus =>
    decide (app = appName ∧ transitionKey fromStatus toStatus = key)
  | _ => false

/-- The reports that succeeded and the accumulators add up to what has been recorded. -/
structure Conserved (events : List Event) (s : System) : Prop where
  requests : (s.succeeded.map (·.noOfRequests)).sum + s.globals.noOfRequests =
    events.countP Event.isRequest
  transitions : ∀ appName key, (s.succeeded.map (·.count appName key)).sum +
    s.globals.pauseMetrics.appTransitions.count appName key =
      events.countP (Event.isTransition appName key)

/-- A call that returns finds the accumulators as it has reported them if the send succeeds, and empty if it
does not. -/
def Settled (success : ℕ → Bool) (s : System) : Event → Prop
  | .sendEnds id (.ok status) => ∀ telemetry, s.inFlight.lookup id = some telemetry →
      s.globals.noOfRequests = (if success status then telemetry.noOfRequests else 0) ∧
      ∀ appName key, s.globals.pauseMetrics.appTransitions.count appName key =
        if success status then telemetry.count appName key else 0
  | _ => True

/-! ## Steps -/

section
variable {success : ℕ → Bool} {events : List Event} {s s' : System}

/-- Recording into the pause metrics conserves the sums if it counts the transitions of the event. -/
theorem Conserved.record {event : Event} {f : PauseMetrics → PauseMetrics}
    (h : Conserved events s) (hrequest : event.isRequest = false)
    (hf : ∀ appName key, (f s.globals.pauseMetrics).appTransitions.count appName key =
      s.globals.pauseMetrics.appTransitions.count appName key +
        if event.isTransition appName key then 1 else 0) :
    Conserved (event :: events) (s.record f) where
  requests := by
    rw [List.countP_cons, hrequest]
    exact h.requests
  transitions appName key := by
    have hcount := h.transitions appName key
    change (s.succeeded.map (·.count appName key)).sum +
      (f s.globals.pauseMetrics).appTransitions.count appName key = _
    rw [hf appName key, List.countP_cons]
    omega

theorem conserved_sendEnds {id : ℕ} {outcome : Except Exn ℕ} (h : Conserved events s)
    (hstep : step success s (.sendEnds id outcome) = some s') :
    Conserved (.sendEnds id outcome :: events) s' ↔ Settled success s (.sendEnds id outcome) := by
  rw [step] at hstep
  cases hlookup : s.inFlight.lookup id with
  | none =>
    rw [hlookup] at hstep
    cases hstep
  | some telemetry =>
    rw [hlookup] at hstep
    obtain rfl := Option.some.inj hstep
    cases outcome with
    | error e =>
      refine ⟨fun _ => trivial, fun _ => ?_⟩
      exact ⟨h.requests, h.transitions⟩
    | ok status =>
      have hr := h.requests
      have ht := h.transitions
      constructor
      · intro hconserved telemetry' htelemetry
        rw [hlookup] at htelemetry
        obtain rfl := Option.some.inj htelemetry
        refine ⟨?_, fun appName key => ?_⟩
        · have hr' := hconserved.requests
          cases hsuccess : success status <;>
            simp [succeeds, hsuccess, endSend, Event.isRequest] at hr' ⊢ <;> omega
        · have ht' := hconserved.transitions appName key
          have ht := ht appName key
          cases hsuccess : success status <;>
            simp [succeeds, hsuccess, endSend, reset, count_empty, Event.isTransition] at ht' ⊢ <;>
            omega
      · intro hsettled
        obtain ⟨hrequests, htransitions⟩ := hsettled telemetry hlookup
        refine ⟨?_, fun appName key => ?_⟩
        · cases hsuccess : success status <;>
            simp [succeeds, hsuccess, endSend, Event.isRequest] at hrequests ⊢ <;> omega
        · have htransition := htransitions appName key
          have ht := ht appName key
          cases hsuccess : success status <;>
            simp [succeeds, hsuccess, endSend, reset, count_empty, Event.isTransition] at htransition ⊢ <;>
            omega

theorem conserved_step_iff {event : Event} (h : Conserved events s)
    (hstep : step success s event = some s') :
    Conserved (event :: events) s' ↔ Settled success s event := by
  cases event with
  | recordRequest =>
    obtain rfl := Option.some.inj hstep
    refine ⟨fun _ => trivial, fun _ => ⟨?_, h.transitions⟩⟩
    have hr := h.requests
    rw [List.countP_cons]
    change (s.succeeded.map (·.noOfRequests)).sum + (s.globals.noOfRequests + 1) =
      events.countP Event.isRequest + 1
    omega
  | recordAppTransition app fromStatus toStatus =>
    obtain rfl := Option.some.inj hstep
    refine ⟨fun _ => trivial, fun _ => h.record rfl fun appName key => ?_⟩
    rw [count_recordAppTransition]
    simp only [Event.isTransition, decide_eq_true_eq]
  | recordPauseLatency ms =>
    obtain rfl := Option.some.inj hstep
    exact ⟨fun _ => trivial, fun _ => h.record rfl fun _ _ => rfl⟩
  | recordUnpauseLatency ms =>
    obtain rfl := Option.some.inj hstep
    exact ⟨fun _ => trivial, fun _ => h.record rfl fun _ _ => rfl⟩
  | recordPsiSnapshot psi =>
    obtain rfl := Option.some.inj hstep
    exact ⟨fun _ => trivial, fun _ => h.record rfl fun _ _ => rfl⟩
  | sendBegins id now =>
    refine ⟨fun _ => trivial, fun _ => ?_⟩
    rw [step] at hstep
    split at hstep
    · cases hstep
    · obtain rfl := Option.some.inj hstep
      exact ⟨h.requests, h.transitions⟩
  | sendEnds id outcome => exact conserved_sendEnds h hstep

theorem conserved_start : Conserved [] {} :=
  ⟨rfl, fun appName key => count_empty appName key⟩

/-! ## Main result -/

/-- Whatever is recorded while sends are under way, and whichever of them fail: as long as every call that
returns is settled, nothing is lost or counted twice. -/
theorem telemetry_conserved (h : Reaches success (Settled success) events s) : Conserved events s := by
  induction h with
  | start => exact conserved_start
  | step _ hC hstep ih => exact (conserved_step_iff ih hstep).mpr hC

end

/-- Requests before and after an acknowledged send, and a transition before it. -/
theorem telemetry_conserved_quiet : ∃ s : System,
    Reaches (fun status => decide (status < 400)) (Settled fun status => decide (status < 400))
      [.recordRequest, .sendEnds 0 (.ok 200), .sendBegins 0 60,
        .recordAppTransition "notes" .running .paused, .recordRequest, .recordRequest] s ∧
    Conserved [.recordRequest, .sendEnds 0 (.ok 200), .sendBegins 0 60,
        .recordAppTransition "notes" .running .paused, .recordRequest, .recordRequest] s := by
  let acknowledged : ℕ → Bool := fun status => decide (status < 400)
  have hbefore : ∃ s, Reaches acknowledged (Settled acknowledged)
      [.sendBegins 0 60, .recordAppTransition "notes" .running .paused, .recordRequest,
        .recordRequest] s ∧ Settled acknowledged s (.sendEnds 0 (.ok 200)) ∧
      ∃ s', step acknowledged s (.sendEnds 0 (.ok 200)) = some s' := by
    refine ⟨_, .step (.step (.step (.step .start trivial rfl) trivial rfl) trivial rfl) trivial rfl,
      fun telemetry htelemetry => ?_, _, rfl⟩
    obtain rfl := Option.some.inj htelemetry
    exact ⟨rfl, fun _ _ => rfl⟩
  obtain ⟨s, hrun, hsettled, s', hstep⟩ := hbefore
  have hrun' : Reaches acknowledged (Settled acknowledged) [.recordRequest, .sendEnds 0 (.ok 200),
      .sendBegins 0 60, .recordAppTransition "notes" .running .paused, .recordRequest, .recordRequest] _ :=
    .step (.step hrun hsettled hstep) trivial rfl
  exact ⟨_, hrun', telemetry_conserved hrun'⟩

/-- A request during the call is reset without having been reported. -/
theorem telemetry_lost : ¬ ∀ (success : ℕ → Bool) (events : List Event) (s : System),
    Reaches success (fun _ _ => True) events s → Conserved events s := by
  intro h
  have hrun : ∃ s, Reaches (fun _ => true) (fun _ _ => True)
      [.sendEnds 0 (.ok 200), .recordRequest, .sendBegins 0 60, .recordRequest] s ∧
      (s.succeeded.map (·.noOfRequests)).sum + s.globals.noOfRequests = 1 :=
    ⟨_, .step (.step (.step (.step .start trivial rfl) trivial rfl) trivial rfl) trivial rfl, rfl⟩
  obtain ⟨s, hreaches, hsum⟩ := hrun
  have hrequests := (h _ _ s hreaches).requests
  rw [hsum] at hrequests
  exact absurd hrequests (by decide)

end Freeshard.Metrics

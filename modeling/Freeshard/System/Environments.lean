import Freeshard.Service.AppTools
import Freeshard.System.Frames
import Mathlib.Order.Basic

/-! # Environments

What a run may assume of everything outside the services. `Env.reliable`: the database, the op
locks and the queue work, anything else may fail in any way. `Env.daemon`: moreover Docker carries
out exactly the compose commands it allows. `Env.obedient`: moreover no step fails on its own.

`State.exec` is the transition function under a decidable environment; scripts are run with it. -/

namespace Freeshard
open Coroutine
set_option autoImplicit false

/-! ## Docker -/

namespace ComposeCmd

/-- Whether Docker carries the command out on these containers: frozen ones can be neither
started, stopped nor removed, and only a stack as a whole is frozen and unfrozen. -/
def allowed (cmd : ComposeCmd) (s : Stack) : Bool :=
  match cmd with
  | .up => !s.frozen
  | .upNoStart => true
  | .pause => s.states != [] && s.states.all (· == .running)
  | .unpause => s.states != [] && s.states.all (· == .paused)
  | .stop => !s.frozen
  | .down => !s.frozen

/-- What `stop` makes of a container. -/
def stopped : DockerState → DockerState
  | .running => .exited
  | .restarting => .exited
  | state => state

theorem frozen_mapState_stopped (s : Stack) : (s.mapState stopped).frozen = s.frozen := by
  unfold Stack.frozen
  rw [Stack.states_mapState, List.any_map]
  congr 1
  funext state
  cases state <;> rfl

/-- Whether `s'` is what the command may make of the containers `s`: `up --no-start` leaves
existing containers as they are. -/
def leaves (cmd : ComposeCmd) (s s' : Stack) : Bool :=
  match cmd with
  | .up => s'.states != [] && s'.states.all (· == .running)
  | .upNoStart => s'.states != [] && s.containers.isPrefixOf s'.containers &&
      (s'.states.drop s.states.length).all (· == .created)
  | .pause => s' == s.mapState fun _ => .paused
  | .unpause => s' == s.mapState fun _ => .running
  | .stop => s' == s.mapState stopped
  | .down => s' == .empty

theorem live_of_leaves {s s' : Stack} (h : upNoStart.leaves s s' = true) : s'.live = s.live := by
  simp only [leaves, Bool.and_eq_true, List.isPrefixOf_iff_prefix] at h
  obtain ⟨⟨-, new, hnew⟩, hcreated⟩ := h
  have hstates : s'.states = s.states ++ new.map (·.state) := by
    rw [Stack.states, ← hnew, List.map_append]
    rfl
  rw [hstates, List.drop_left] at hcreated
  have hnone : (new.map (·.state)).any DockerState.live = false := by
    rw [List.any_eq_false]
    intro state hmem
    obtain rfl : state = .created := by simpa using List.all_eq_true.mp hcreated state hmem
    decide
  rw [Stack.live, Stack.live, hstates, List.any_append, hnone, Bool.or_false]

/-- Docker carries the command out if it allows it, and refuses it without effect otherwise; a
refusal is no report of a stale network or container. -/
def obeyed (cmd : ComposeCmd) (s : Stack) : Choice → Bool
  | .docker (.ok _) s' => cmd.allowed s && cmd.leaves s s'
  | .docker (.error text) s' =>
    !cmd.allowed s && s' == s && !staleNetwork text && !staleContainers text
  | _ => false

end ComposeCmd

/-! ## Kinds of environments -/

/-- The operations on the database, the op locks and the task queue. -/
def Op.internal : Op → Bool
  | .getAll => true
  | .getByName _ => true
  | .contains _ => true
  | .insert _ => true
  | .updateStatus _ _ => true
  | .remove _ => true
  | .getDefaultIdentity => true
  | .acquire _ => true
  | .release _ => true
  | .enqueue _ => true
  | .dequeue => true
  | .taskDone => true
  | _ => false

/-- `shutil.rmtree(…, ignore_errors=True)` does not raise. -/
def Op.ignoresErrors : Op → Bool
  | .rmtree _ => true
  | _ => false

/-- The operation ends without an exception of the environment's. -/
def Choice.silent (op : Op) : Choice → Bool
  | .raise _ => false
  | .proceedRaise _ => false
  | .leaves _ _ => op.ignoresErrors
  | _ => true

/-- The exception the environment lets surface. -/
def Choice.raised : Choice → Option Exn
  | .raise e => some e
  | .proceedRaise e => some e
  | .leaves _ e => some e
  | _ => none

namespace Env

/-- Database, op locks and queue do not fail, nor does an `rmtree` that ignores its errors. -/
def reliable : Env := fun _ _ op c =>
  (op.internal = true → c = .proceed) ∧ (op.ignoresErrors = true → c.silent op = true)

instance (s : State) (i : Call) (op : Op) (c : Choice) : Decidable (reliable s i op c) :=
  inferInstanceAs (Decidable (_ ∧ _))

/-- It is enough that the operations `reliable` is about proceed. -/
theorem le_reliable {E : Env}
    (h : ∀ s i op c, E s i op c → op.internal = true ∨ op.ignoresErrors = true → c = .proceed) : E ≤ reliable := by
  intro s i op c hE
  refine ⟨fun hop => h s i op c hE (.inl hop), fun hop => ?_⟩
  rw [h s i op c hE (.inr hop)]
  rfl

/-- No coroutine is cancelled. -/
def uncancelled : Env := fun _ _ _ c => c.raised ≠ some .cancelled

/-- Anything but the database, the op locks and the queue may fail, but no coroutine is
cancelled. -/
def faulty : Env := fun s i op c => reliable s i op c ∧ uncancelled s i op c

instance (s : State) (i : Call) (op : Op) (c : Choice) : Decidable (uncancelled s i op c) :=
  inferInstanceAs (Decidable (_ ≠ _))

instance (s : State) (i : Call) (op : Op) (c : Choice) : Decidable (faulty s i op c) :=
  inferInstanceAs (Decidable (_ ∧ _))

theorem faulty_le_reliable : faulty ≤ reliable := fun _ _ _ _ h => h.1

theorem faulty_le_uncancelled : faulty ≤ uncancelled := fun _ _ _ _ h => h.2

/-- Docker's answer to an operation, if it is a compose command that can be built. -/
def dockerObeys (s : State) (op : Op) (c : Choice) : Bool :=
  match op with
  | .compose name cmd =>
    match s.world.appCompose name with
    | .ok _ => cmd.obeyed (s.world.stack name) c
    | .error _ => true
  | _ => true

/-- Reliable, and Docker carries out the compose commands it allows. -/
def daemon : Env := fun s i op c => reliable s i op c ∧ dockerObeys s op c = true

instance (s : State) (i : Call) (op : Op) (c : Choice) : Decidable (daemon s i op c) :=
  inferInstanceAs (Decidable (_ ∧ _))

/-- Every operation does what it is there to do. -/
def obedient : Env := fun s _ op c =>
  match op with
  | .compose name _ =>
    match s.world.appCompose name with
    | .ok _ => dockerObeys s op c = true
    | .error _ => c = .proceed
  | .throttle _ => c.raised = none
  | _ => c = .proceed

instance (s : State) (i : Call) (op : Op) (c : Choice) : Decidable (obedient s i op c) := by
  unfold obedient
  split
  · split <;> infer_instance
  · infer_instance
  · infer_instance

/-- Database and file operations succeed, notification handlers do not raise, and no coroutine is cancelled.
What Docker does is left open. -/
def calm : Env := fun s _ op c =>
  match op with
  | .compose _ _ | .composePs _ _ | .inspect _ _ | .reclaimContainer _ => c.raised ≠ some .cancelled
  | .throttle _ => c.raised = none
  | .onAppsUpdate => c = .proceed ∧ s.world.Notifiable
  | _ => c = .proceed

theorem calm_le_reliable : calm ≤ reliable := by
  refine le_reliable fun s i op c h hop => ?_
  cases op <;> first | exact h | simp [Op.internal, Op.ignoresErrors] at hop

theorem calm_le_uncancelled : calm ≤ uncancelled := by
  intro s i op c h
  have hproceed : c = .proceed → c.raised ≠ some .cancelled := by
    rintro rfl
    simp [Choice.raised]
  cases op with
  | compose _ _ | composePs _ _ | inspect _ _ | reclaimContainer _ => exact h
  | throttle _ =>
    have hraised : c.raised = none := h
    simp [uncancelled, hraised]
  | onAppsUpdate => exact hproceed h.1
  | _ => exact hproceed h

theorem daemon_le_reliable : daemon ≤ reliable := fun _ _ _ _ h => h.1

theorem obedient_le_reliable : obedient ≤ reliable := by
  refine le_reliable fun s i op c h hop => ?_
  cases op <;> first | exact h | simp [Op.internal, Op.ignoresErrors] at hop

theorem obedient_le_daemon : obedient ≤ daemon := by
  intro s i op c h
  refine ⟨obedient_le_reliable s i op c h, ?_⟩
  unfold dockerObeys
  split
  · next name cmd =>
    split
    · next cc hcc => simpa only [obedient, dockerObeys, hcc] using h
    · rfl
  · rfl

end Env

/-! ## The transition function -/

namespace State
variable (E : Env) [∀ s i op c, Decidable (E s i op c)]

/-- One operation of call `i` under a choice that the environment may make. -/
def exec (i : Call) (s : State) (op : Op) (c : Choice) : Option (Answer op × State) :=
  if E s i op c then
    match s.world.exec i op c with
    | some (r, w') => some (r, s.next i op r w')
    | none => none
  else none

variable {E}

theorem exec_act {i : Call} {s s' : State} {op : Op} {c : Choice} {r : Answer op}
    (h : s.exec E i op c = some (r, s')) : Act E i s op r s' := by
  unfold exec at h
  split at h
  · next hE =>
    split at h
    · next w' he =>
      cases h
      exact ⟨c, w', hE, he, rfl⟩
    · cases h
  · cases h

variable (E)

/-- A run of call `i` on a script of choices. -/
theorem exists_exec {α : Type} (i : Call) (p : Coro α) (s : State) (choices : List Choice)
    (P : Except Exn α → State → Bool)
    (h : (p.follow (exec E i) s choices).any (fun run => P run.1 run.2) = true) :
    ∃ res s', Prog.Exec (Act E i) p s res s' ∧ P res s' = true :=
  have hexec : ∀ s op c r s', exec E i s op c = some (r, s') → Act E i s op r s' :=
    fun _ _ _ _ _ => exec_act
  Prog.exists_exec hexec p s choices P h

theorem exists_exec_then (i j : Call) (p q : Coro Unit) (s : State)
    (choices choices' : List Choice) (P : State → Bool)
    (h : (p.follow (exec E i) s choices).any (fun run => run.1.isOk &&
      (q.follow (exec E j) run.2 choices').any fun run' => P run'.2) = true) :
    ∃ r s₁ s₂, Prog.Exec (Act E i) p s (.ok ()) s₁ ∧ Prog.Exec (Act E j) q s₁ r s₂ ∧
      P s₂ = true := by
  obtain ⟨res, s₁, hp, hP⟩ := exists_exec E i p s choices
    (fun res s₁ => res.isOk && (q.follow (exec E j) s₁ choices').any fun run => P run.2) h
  rw [Bool.and_eq_true] at hP
  obtain ⟨r, s₂, hq, hP'⟩ := exists_exec E j q s₁ choices' (fun _ s => P s) hP.2
  cases res with
  | ok u => exact ⟨r, s₁, s₂, hp, hq, hP'⟩
  | error e => cases hP.1

end State
end Freeshard

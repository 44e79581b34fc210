import Freeshard.Service.AppInstallation
import Freeshard.System.History
import Freeshard.System.Rules

/-! # Specifications of the database helpers

For the functions every service is built from, in a reliable environment: what they return, the
world they leave and the events they log. -/

namespace Freeshard
open Coroutine
set_option autoImplicit false

variable {E : Env} {i : Call} {s : State} {name : String}

/-- The state after reading a row. -/
abbrev State.looked (s : State) (i : Call) (name : String) : State :=
  s.next i (.getByName name) (.ok (s.world.installedApps.getByName name)) s.world

/-! ## Handlers -/

theorem wp_exceptException {α : Type} {body : Coro α} {handle : Exn → Coro α}
    {Φ : Except Exn α → State → Prop}
    (h : body.wp (Act E i) (fun r s' => match r with
      | .ok a => Φ (.ok a) s'
      | .error e => if e.isException then (handle e).wp (Act E i) Φ s' else Φ (.error e) s') s) :
    (exceptException body handle).wp (Act E i) Φ s := by
  refine Prog.wp_tryCatch_of h (fun _ _ h => h) fun e s' h' => ?_
  dsimp only at h'
  split at h' <;> next he =>
    simp only [he]
    exact h'

/-- What holds at the end of a body holds after its exceptions are swallowed. -/
theorem wp_swallow {body : Coro Unit} {P : State → Prop}
    (h : body.wp (Act E i) (fun _ s' => P s') s) :
    (exceptException body fun _ => pure ()).wp (Act E i) (fun _ s' => P s') s := by
  refine wp_exceptException (Prog.wp_mono h ?_)
  rintro (e | u) s' h'
  · dsimp only
    split <;> exact h'
  · exact h'

/-- A body that raises only `Exception`s never fails once they are swallowed. -/
theorem wp_swallow_ok {body : Coro Unit} {P : State → Prop}
    (h : body.wp (Act E i) (fun r s' => P s' ∧ ∀ e, r = .error e → e.isException = true) s) :
    (exceptException body fun _ => pure ()).wp (Act E i) (fun r s' => r = .ok () ∧ P s') s := by
  refine wp_exceptException (Prog.wp_mono h ?_)
  rintro (e | u) s' ⟨h', he⟩
  · simp only [he e rfl, if_true]
    exact ⟨rfl, h'⟩
  · exact ⟨rfl, h'⟩

/-- A directory is deleted without an exception; nothing but the directory changes. -/
theorem wp_rmtree {Φ : Except Exn Unit → State → Prop} (hE : E ≤ Env.reliable)
    (h : ∀ s', s'.Follows i (.rmtree name) (.ok ()) s → Frame (.rmtree name) s.world s'.world →
      Φ (.ok ()) s') : (awaitOp (.rmtree name)).wp (Act E i) Φ s := by
  refine (Prog.wp_perform _ _ _).mpr fun r s' ha => ?_
  obtain rfl := ha.deleted hE
  exact h s' ha.follows ha.frame

/-! ## The database -/

section Reliable
variable (hE : E ≤ Env.reliable)
include hE

theorem wp_getByName {Φ : Answer (.getByName name) → State → Prop}
    (h : Φ (.ok (s.world.installedApps.getByName name)) (s.looked i name)) :
    (getByName name).wp (Act E i) Φ s := by
  refine (Prog.wp_perform _ _ _).mpr fun r s' ha => ?_
  obtain ⟨rfl, hw⟩ := ha.gotByName hE
  rw [ha.state_eq, hw]
  exact h

theorem wp_readStatus {Φ : Except Exn (Option Status) → State → Prop}
    (h : Φ (.ok (s.world.status name)) (s.looked i name)) :
    (readStatus name).wp (Act E i) Φ s :=
  (Prog.wp_bind _ _ _ _).mpr (wp_getByName hE h)

theorem wp_writeStatus {status : Status} {Φ : Except Exn Unit → State → Prop}
    (h : ∀ row, Φ (.ok ()) (s.next i (.updateStatus name status) (.ok row)
      (s.world.setStatus name status))) :
    (writeStatus name status).wp (Act E i) Φ s := by
  refine (Prog.wp_bind _ _ _ _).mpr ((Prog.wp_perform _ _ _).mpr fun r s' ha => ?_)
  obtain ⟨rfl, hw⟩ := ha.updatedStatus hE
  rw [ha.state_eq, hw]
  exact h _

omit hE in
theorem wp_sendOnAppsUpdate {Φ : Except Exn Unit → State → Prop}
    (h : ∀ r, Φ r (s.next i .onAppsUpdate r s.world)) :
    sendOnAppsUpdate.wp (Act E i) Φ s := by
  refine (Prog.wp_perform _ _ _).mpr fun r s' ha => ?_
  rw [ha.state_eq, ha.notified]
  exact h r

theorem wp_getAppFromDb {Φ : Except Exn InstalledApp → State → Prop}
    (h : Φ (match s.world.installedApps.getByName name with
        | some app => .ok app
        | none => .error (.keyError name))
      (s.looked i name)) :
    (getAppFromDb name).wp (Act E i) Φ s := by
  refine (Prog.wp_bind _ _ _ _).mpr (wp_getByName hE ?_)
  revert h
  cases s.world.installedApps.getByName name <;> exact id

theorem wp_appExistsInDb {Φ : Except Exn Bool → State → Prop}
    (h : Φ (.ok (s.world.installedApps.contains name)) (s.next i (.contains name)
      (.ok (s.world.installedApps.contains name)) s.world)) :
    (appExistsInDb name).wp (Act E i) Φ s := by
  refine (Prog.wp_perform _ _ _).mpr fun r s' ha => ?_
  obtain ⟨rfl, hw⟩ := ha.contained hE
  rw [ha.state_eq, hw]
  exact h

theorem wp_enqueue {taskType : TaskType} {Φ : Except Exn Unit → State → Prop}
    (h : Φ (.ok ()) (s.next i (.enqueue ⟨name, taskType⟩) (.ok ())
      { s.world with taskQueue := s.world.taskQueue ++ [⟨name, taskType⟩] })) :
    (enqueue name taskType).wp (Act E i) Φ s := by
  refine (Prog.wp_perform _ _ _).mpr fun r s' ha => ?_
  obtain ⟨rfl, hw⟩ := ha.enqueued hE
  rw [ha.state_eq, hw]
  exact h

/-- `update_app_status` writes the status of an existing row, then notifies. -/
theorem wp_updateAppStatus {status : Status} {Φ : Except Exn Unit → State → Prop}
    (hrow : s.world.status name ≠ none)
    (h : ∀ row, sendOnAppsUpdate.wp (Act E i) Φ
      (s.next i (.updateStatus name status) (.ok row) (s.world.setStatus name status))) :
    (updateAppStatus name status).wp (Act E i) Φ s := by
  refine (Prog.wp_bind _ _ _ _).mpr ((Prog.wp_perform _ _ _).mpr fun r s' ha => ?_)
  obtain ⟨rfl, hw⟩ := ha.updatedStatus hE
  rw [ha.state_eq, hw]
  have hiff : _ ↔ s.world.status name = none := World.getByName_setStatus_eq_none status
  cases hget : (s.world.setStatus name status).installedApps.getByName name with
  | none => exact absurd (hiff.mp hget) hrow
  | some row => exact h _

/-! ## The teardown functions once they have read the status -/

theorem wp_dockerStopApp_skip {setStatus : Bool} {Φ : Except Exn Unit → State → Prop}
    (hst : s.world.status name ∉ stoppableStatus.map some) (h : Φ (.ok ()) (s.looked i name)) :
    (dockerStopApp name setStatus).wp (Act E i) Φ s := by
  refine (Prog.wp_bind _ _ _ _).mpr (wp_readStatus hE ?_)
  dsimp only
  rw [onlyIf_neg hst]
  exact h

theorem wp_dockerStopApp {setStatus : Bool} {Φ : Except Exn Unit → State → Prop}
    (hst : s.world.status name ∈ stoppableStatus.map some)
    (hnp : s.world.status name ≠ some .paused)
    (h : (do
      compose name .stop
      onlyIf (setStatus = true) (writeStatus name .stopped)
      sendOnAppsUpdate : Coro Unit).wp (Act E i) Φ (s.looked i name)) :
    (dockerStopApp name setStatus).wp (Act E i) Φ s := by
  refine (Prog.wp_bind _ _ _ _).mpr (wp_readStatus hE ?_)
  dsimp only
  rw [onlyIf_pos hst, onlyIf_neg hnp]
  exact h

theorem wp_dockerShutdownApp_skip {setStatus : Bool} {Φ : Except Exn Unit → State → Prop}
    (hst : s.world.status name ≠ some .stopped ∧ s.world.status name ≠ some .uninstalling)
    (h : Φ (.ok ()) (s.looked i name)) :
    (dockerShutdownApp name setStatus false).wp (Act E i) Φ s := by
  refine (Prog.wp_bind _ _ _ _).mpr (wp_readStatus hE ?_)
  dsimp only
  rw [onlyIf_neg (by simpa using hst)]
  exact h

theorem wp_dockerShutdownApp {setStatus force : Bool} {Φ : Except Exn Unit → State → Prop}
    (hst : force = true ∨ s.world.status name = some .stopped ∨
      s.world.status name = some .uninstalling)
    (hnp : s.world.status name ≠ some .paused)
    (h : (do
      compose name .down
      onlyIf (setStatus = true) (writeStatus name .down)
      sendOnAppsUpdate : Coro Unit).wp (Act E i) Φ (s.looked i name)) :
    (dockerShutdownApp name setStatus force).wp (Act E i) Φ s := by
  refine (Prog.wp_bind _ _ _ _).mpr (wp_readStatus hE ?_)
  dsimp only
  rw [onlyIf_pos hst, onlyIf_neg hnp]
  exact h

end Reliable
end Freeshard

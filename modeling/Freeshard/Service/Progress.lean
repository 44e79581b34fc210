import Freeshard.Service.Protocol

/-! # How far the worker is with the status of its task

A task expects the status that its request has stored, and starts by replacing it. Between taking
the task and that status write the worker only takes the op lock and reads the row; whatever it
does afterwards stores no queued status. -/

namespace Freeshard
open Coroutine
set_option autoImplicit false

/-- The statuses the requests store. -/
def queuedStatus : List Status :=
  [.installationQueued, .reinstallationQueued, .uninstallationQueued]

namespace TaskType

/-- The status its request has stored. -/
def expects : TaskType → Status
  | .installFromStore => .installationQueued
  | .installFromZip => .installationQueued
  | .uninstall => .uninstallationQueued
  | .reinstall => .reinstallationQueued

/-- The status the worker stores in its place. -/
def begins : TaskType → Status
  | .installFromStore => .installing
  | .installFromZip => .installing
  | .uninstall => .uninstalling
  | .reinstall => .reinstalling

theorem expects_mem (taskType : TaskType) : taskType.expects ∈ queuedStatus := by
  cases taskType <;> decide

theorem begins_not_mem (taskType : TaskType) : taskType.begins ∉ queuedStatus := by
  cases taskType <;> decide

theorem footprint_not_queued (taskType : TaskType) :
    ∀ status ∈ taskType.footprint.statuses, status ∉ queuedStatus := by
  cases taskType <;> decide

end TaskType

/-! ## Phases -/

inductive Progress where
  /-- The worker has nothing to take up. -/
  | idle
  /-- It has taken the task. -/
  | taken (task : InstallationTask)
  /-- It has read the status that the task expects. -/
  | matched (task : InstallationTask)
  deriving DecidableEq, Repr

namespace Progress

/-- The task the worker has to take up. -/
def task : Progress → Option InstallationTask
  | .idle => none
  | .taken task => some task
  | .matched task => some task

/-- Calls other than the worker stay idle. -/
def after (role : Role) (l : Progress) (op : Op) (r : Answer op) : Progress :=
  match role, l, op, r with
  | .worker, _, .dequeue, .ok task => .taken task
  | .worker, .taken task, .acquire _, .ok _ => .taken task
  | .worker, .taken task, .getByName _, .ok row =>
    if row.map (·.status) = some task.taskType.expects then .matched task else .idle
  | _, _, _, _ => .idle

def Allows : Progress → Op → Prop
  | .idle, _ => True
  | .taken task, op => op = .acquire task.appName ∨ op = .getByName task.appName
  | .matched task, op => op = .updateStatus task.appName task.taskType.begins

theorem after_of_ne {role : Role} (hrole : role ≠ .worker) (l : Progress) (op : Op)
    (r : Answer op) : l.after role op r = .idle := by
  cases role <;> first
    | rfl
    | exact absurd rfl hrole

end Progress

def progress (role : Role) : Protocol Op Ans Exn Progress where
  allows := Progress.Allows
  after := Progress.after role

/-- The progress of call `i` after the events of a log. -/
def progressOf (i : Call) : List Event → Progress
  | [] => .idle
  | e :: log =>
    if e.call = i then (progressOf i log).after i.role e.op e.answer else progressOf i log

abbrev State.progress (i : Call) (s : State) : Progress := progressOf i s.log

theorem progress_tracks (E : Env) :
    Protocol.Tracks (fun i => progress (Call.role i)) (Act E) State.progress where
  own := by
    intro i s op r s' ha
    rw [State.progress, ha.log, progressOf, if_pos rfl]
    rfl
  other := by
    intro i j s op r s' ha hij
    rw [State.progress, ha.log, progressOf, if_neg (Ne.symm hij)]

/-! ## The calls conform -/

abbrev Progresses {α : Type} (p : Coro α) (l : Progress) (Q : Except Exn α → Progress → Prop) :
    Prop := p.Conforms (progress .worker) l Q

theorem progress_of_ne_worker {role : Role} (hrole : role ≠ .worker) (p : Coro Unit) :
    p.Conforms (progress role) .idle fun _ l => l = .idle := by
  refine Prog.Conforms.of_uses (Prog.uses_true p) (fun op _ l hl => ?_) rfl
  subst hl
  exact ⟨trivial, fun r => Progress.after_of_ne hrole _ op r⟩

namespace Worker
variable {f : Footprint} {name : String} {task : InstallationTask}

theorem progress_bounded {α : Type} {p : Coro α} (hp : Bounded f name p) :
    Progresses p .idle fun _ l => l = .idle := by
  refine Prog.Conforms.of_uses hp.uses (fun op hop l hl => ?_) rfl
  subst hl
  refine ⟨trivial, fun r => ?_⟩
  cases op <;> first
    | exact hop.elim
    | rfl

theorem progress_getAppFromDb (task : InstallationTask) :
    Progresses (getAppFromDb task.appName) (.taken task) fun r l =>
      (∀ app, r = .ok app →
        l = if app.status = task.taskType.expects then .matched task else .idle) ∧
      (r.isOk = false → l = .idle) := by
  have hget : Progresses (getByName task.appName) (.taken task) fun r l =>
      (∀ row, r = .ok row →
        l = if row.map (·.status) = some task.taskType.expects then .matched task else .idle) ∧
      (r.isOk = false → l = .idle) := by
    refine Prog.Conforms.perform (.inr rfl) fun r => ?_
    cases r with
    | ok row =>
      refine ⟨?_, nofun⟩
      rintro _ ⟨⟩
      rfl
    | error e => exact ⟨nofun, fun _ => rfl⟩
  refine hget.bind (fun row l h => ?_) fun e l h => ⟨nofun, fun _ => h.2 rfl⟩
  cases row with
  | none => exact ⟨nofun, fun _ => h.1 none rfl⟩
  | some app =>
    have hl := h.1 _ rfl
    refine ⟨?_, nofun⟩
    rintro _ ⟨⟩
    simpa using hl

theorem progress_begin (task : InstallationTask) :
    Progresses (updateAppStatus task.appName task.taskType.begins) (.matched task)
      fun _ l => l = .idle := by
  have hupdate : Progresses (updateStatus task.appName task.taskType.begins) (.matched task)
      fun _ l => l = .idle := Prog.Conforms.perform rfl fun r => by cases r <;> rfl
  refine hupdate.bind ?_ fun _ _ h => h
  rintro row _ rfl
  cases row with
  | none => rfl
  | some app =>
    have hnotify : Bounded {} task.appName sendOnAppsUpdate := Bounded.sendOnAppsUpdate
    exact progress_bounded hnotify

theorem progress_checked (task : InstallationTask) {rest : Coro Unit}
    (hrest : Bounded f task.appName rest) :
    Progresses (do
      let installedApp ← getAppFromDb task.appName
      assertAppStatus installedApp task.taskType.expects
      updateAppStatus task.appName task.taskType.begins
      rest) (.taken task) fun _ l => l = .idle := by
  refine (progress_getAppFromDb task).bind (fun app l h => ?_) fun _ _ h => h.2 rfl
  by_cases hst : app.status = task.taskType.expects
  · obtain rfl := (h.1 app rfl).trans (if_pos hst)
    rw [assertAppStatus, raiseUnless_pos hst, pure_bind]
    refine (progress_begin task).bind ?_ fun _ _ h => h
    rintro u _ rfl
    exact progress_bounded hrest
  · rw [assertAppStatus, raiseUnless_neg hst]
    exact (h.1 app rfl).trans (if_neg hst)

theorem progress_markUninstalling :
    Progresses (markUninstalling name) (.taken ⟨name, .uninstall⟩) fun _ l => l = .idle := by
  have hrest : ∀ app : InstalledApp, Bounded
      { statuses := [.running, .uninstalling], commands := [.unpause] } name (do
        onlyIf (app.status = .paused) (dockerUnpauseApp name)
        updateAppStatus name .uninstalling) := fun app =>
    (Bounded.onlyIf (bounds_dockerUnpauseApp.mono (by decide))).bind fun _ =>
      bounds_updateAppStatus (by decide)
  refine Prog.Conforms.tryCatch (R := fun _ l => l = .idle) ?_ (fun _ _ h => h) fun e l h => ?_
  · refine (progress_getAppFromDb ⟨name, .uninstall⟩).bind (fun app l h => ?_) fun _ _ h => h.2 rfl
    by_cases hst : app.status = .uninstallationQueued
    · obtain rfl := (h.1 app rfl).trans (if_pos hst)
      have hne : app.status ≠ .paused := by rw [hst]; decide
      rw [onlyIf_neg hne, pure_bind]
      exact progress_begin ⟨name, .uninstall⟩
    · obtain rfl := (h.1 app rfl).trans (if_neg hst)
      exact progress_bounded (hrest app)
  · cases e <;> exact h

theorem progress_uninstallApp :
    Progresses (uninstallApp name) (.taken ⟨name, .uninstall⟩) fun _ l => l = .idle := by
  have hacquire : Progresses (awaitOp (.acquire name)) (.taken ⟨name, .uninstall⟩) fun r l =>
      (r.isOk = true → l = .taken ⟨name, .uninstall⟩) ∧ (r.isOk = false → l = .idle) := by
    refine Prog.Conforms.perform (.inl rfl) fun r => ?_
    cases r with
    | ok u => exact ⟨fun _ => rfl, nofun⟩
    | error e => exact ⟨nofun, fun _ => rfl⟩
  have hrest : Bounded
      { statuses := [.stopped, .down], commands := [.unpause, .stop, .down], removes := true } name
      (do
        Freeshard.exceptException
          (do
            dockerStopApp name true
            dockerShutdownApp name true false)
          fun _ => pure ()
        awaitOp (.rmtree name)
        awaitOp (.remove name)
        writeTraefikDynConfig
        sendOnAppsUpdate) :=
    (Bounded.exceptException ((bounds_stopAndShutdown true).mono (by decide)) fun _ =>
      .ret ()).bind fun _ => bounds_cleanup rfl
  refine hacquire.bind (fun u l h => ?_) fun e l h => h.2 rfl
  obtain rfl := h.1 rfl
  refine Prog.Conforms.tryFinally (R := fun _ l => l = .idle) ?_ ?_
  · refine progress_markUninstalling.bind ?_ fun _ _ h => h
    rintro u _ rfl
    exact progress_bounded hrest
  · rintro r _ rfl
    have hrelease : Bounded { locks := true } name (awaitOp (.release name)) :=
      Bounded.perform ⟨rfl, rfl⟩
    exact (progress_bounded hrelease).mono fun r' l h => by cases r' <;> exact h

theorem progress_process (task : InstallationTask) :
    Progresses (process task) (.taken task) fun _ l => l = .idle := by
  obtain ⟨app, taskType⟩ := task
  cases taskType with
  | installFromStore =>
    exact progress_checked ⟨app, .installFromStore⟩
      (bounds_download (f := { statuses := [.stopped, .error], commands := [.upNoStart] })
        (by decide) (by decide))
  | installFromZip =>
    exact progress_checked ⟨app, .installFromZip⟩
      (bounds_install (f := { statuses := [.stopped, .error], commands := [.upNoStart] })
        (by decide) (by decide))
  | uninstall => exact progress_uninstallApp
  | reinstall =>
    refine progress_checked ⟨app, .reinstall⟩ (f := TaskType.reinstall.footprint) ?_
    refine (Bounded.exceptException ?_ fun _ => .ret ()).bind fun _ =>
      .bind (Bounded.perform rfl) fun _ => bounds_download (by decide) (by decide)
    exact (bounds_stopAndShutdown false).mono (by decide)

theorem progress_run (n : ℕ) : Progresses (run n) .idle fun _ l => l = .idle := by
  refine run_conforms trivial (fun _ => rfl) (fun _ => rfl) progress_process ?_ n
  rintro task _ rfl
  refine ⟨trivial, fun r => ?_⟩
  cases r <;> rfl

end Worker

theorem Starts.progresses {name : String} {i : Call} {p : Coro Unit} (h : Starts name i p) :
    p.Conforms (progress i.role) .idle fun _ l => l = .idle := by
  by_cases hrole : i.role = .worker
  · unfold Starts at h
    rw [hrole] at h ⊢
    obtain ⟨-, n, rfl⟩ := h
    exact Worker.progress_run n
  · exact progress_of_ne_worker hrole p

end Freeshard

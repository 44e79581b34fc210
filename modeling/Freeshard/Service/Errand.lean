import Freeshard.Service.Protocol

/-! # What is still to be done to a row

An install request inserts the row and enqueues its task right after. The worker deletes the row of the app
it uninstalls, once, unless an operation of the uninstall fails. Every service function keeps to this,
whatever the environment does. -/

namespace Freeshard
open Coroutine
set_option autoImplicit false

/-! ## Errands -/

inductive Errand where
  | idle
  /-- An install request has inserted the row and not enqueued its task. -/
  | inserted
  /-- The worker has taken an uninstall of this app and not deleted the row. -/
  | removing (name : String)
  /-- An operation of that uninstall has failed. -/
  | failed
  deriving DecidableEq, Repr

namespace Errand

def afterWorker (l : Errand) (op : Op) (r : Answer op) : Errand :=
  match l, op, r with
  | _, .dequeue, .ok task => if task.taskType = .uninstall then .removing task.appName else .idle
  | _, .taskDone, _ => .idle
  | .removing _, .remove _, .ok _ => .idle
  | .removing _, _, .error _ => .failed
  | l, _, _ => l

def afterInstall (l : Errand) (op : Op) (r : Answer op) : Errand :=
  match op, r with
  | .insert _, .ok _ => .inserted
  | .enqueue _, _ => .idle
  | _, _ => l

def WorkerAllows : Errand → Op → Prop
  | .idle, op => ∀ name, op ≠ .remove name
  | .removing name, op => op ≠ .taskDone ∧ op ≠ .dequeue ∧ ∀ other, op = .remove other → other = name
  | .failed, _ => True
  | .inserted, _ => False

def InstallAllows : Errand → Op → Prop
  | .inserted, op => ∃ task, op = .enqueue task
  | _, _ => True

end Errand

/-- The errand that a task starts. -/
def InstallationTask.errand (task : InstallationTask) : Errand :=
  if task.taskType = .uninstall then .removing task.appName else .idle

/-- Calls other than the worker and the install requests stay idle. -/
def errand (role : Role) : Protocol Op Ans Exn Errand where
  allows l op := match role with
    | .worker => l.WorkerAllows op
    | .installRequest => l.InstallAllows op
    | _ => True
  after l op r := match role with
    | .worker => l.afterWorker op r
    | .installRequest => l.afterInstall op r
    | _ => .idle

/-- The errand of call `i` after the events of a log. -/
def errandOf (i : Call) : List Event → Errand
  | [] => .idle
  | e :: log => if e.call = i then (errand i.role).after (errandOf i log) e.op e.answer else errandOf i log

abbrev State.errand (i : Call) (s : State) : Errand := errandOf i s.log

theorem errand_tracks (E : Env) :
    Protocol.Tracks (fun i => errand (Call.role i)) (Act E) State.errand where
  own := by
    intro i s op r s' ha
    rw [State.errand, ha.log, errandOf, if_pos rfl]
  other := by
    intro i j s op r s' ha hij
    rw [State.errand, ha.log, errandOf, if_neg (Ne.symm hij)]

/-! ## The worker conforms -/

abbrev Errands {α : Type} (p : Coro α) (l : Errand) (Q : Except Exn α → Errand → Prop) : Prop :=
  p.Conforms (errand .worker) l Q

/-- What the worker does for a task apart from taking it up and finishing it. -/
def Op.labours (op : Op) : Prop := op ≠ .taskDone ∧ op ≠ .dequeue

namespace Worker
variable {α : Type} {f : Footprint} {name : String}

theorem labours_of_covers {op : Op} (h : f.Covers name op) : op.labours := by
  refine ⟨?_, ?_⟩
  · rintro rfl
    exact h
  · rintro rfl
    exact h

theorem not_remove_of_covers (hf : f.removes = false) {op : Op} (h : f.Covers name op)
    (other : String) : op ≠ .remove other := by
  rintro rfl
  have hremoves := h.2
  rw [hf] at hremoves
  cases hremoves

theorem failed_after {op : Op} (h : op.labours) (r : Answer op) :
    Errand.failed.afterWorker op r = .failed := by
  cases op with
  | taskDone => exact absurd rfl h.1
  | dequeue => exact absurd rfl h.2
  | _ => rfl

theorem errand_failed {p : Coro α} (hp : p.Uses (f.Covers name)) :
    Errands p .failed fun _ l => l = .failed := by
  refine Prog.Conforms.of_uses hp (fun op hop l hl => ?_) rfl
  subst hl
  exact ⟨trivial, failed_after (labours_of_covers hop)⟩

theorem errand_idle (hf : f.removes = false) {p : Coro α} (hp : p.Uses (f.Covers name)) :
    Errands p .idle fun _ l => l = .idle := by
  refine Prog.Conforms.of_uses hp (fun op hop l hl => ?_) rfl
  subst hl
  refine ⟨not_remove_of_covers hf hop, fun r => ?_⟩
  cases op with
  | dequeue => exact hop.elim
  | _ => rfl

/-- Until an operation fails, an uninstall ends in no exception but those it raises itself. -/
theorem errand_removing {ψ : Exn → Prop} (hf : f.removes = false) {p : Coro α}
    (hp : p.Uses (f.Covers name)) (hψ : p.Raises ψ) : Errands p (.removing name) fun r l =>
      l = .failed ∨ (l = .removing name ∧ ∀ e, r = .error e → ψ e) := by
  induction p with
  | ret a => exact .inr ⟨rfl, nofun⟩
  | raise e =>
    refine .inr ⟨rfl, ?_⟩
    rintro _ ⟨⟩
    exact hψ
  | await op next ih =>
    have hop := labours_of_covers hp.1
    have hremove := not_remove_of_covers hf hp.1
    refine ⟨⟨hop.1, hop.2, fun other he => absurd he (hremove other)⟩, fun r => ?_⟩
    cases r with
    | ok a =>
      have hafter : (errand .worker).after (.removing name) op (.ok a) = .removing name := by
        cases op with
        | taskDone => exact absurd rfl hop.1
        | dequeue => exact absurd rfl hop.2
        | remove other => exact absurd rfl (hremove other)
        | _ => rfl
      rw [hafter]
      refine ih _ (hp.2 _) (hψ _ fun e he => ?_)
      cases he
    | error e =>
      have hafter : (errand .worker).after (.removing name) op (.error e) = .failed := by
        cases op with
        | taskDone => exact absurd rfl hop.1
        | _ => rfl
      rw [hafter]
      exact (errand_failed (hp.2 _)).mono fun _ _ h => .inl h

/-! The exceptions that the parts of an uninstall raise themselves. -/

section Raises
variable {ψ : Exn → Prop}

theorem raises_onlyIf {c : Prop} [Decidable c] {body : Coro Unit} (h : body.Raises ψ) :
    (onlyIf c body).Raises ψ := by
  unfold onlyIf
  split
  · exact h
  · trivial

theorem raises_readStatus : (readStatus name).Raises ψ :=
  (Prog.raises_perform _).bind fun _ => trivial

theorem raises_writeStatus (status : Status) : (writeStatus name status).Raises ψ :=
  (Prog.raises_perform _).bind fun _ => trivial

theorem raises_dockerUnpauseApp : (dockerUnpauseApp name).Raises ψ :=
  raises_readStatus.bind fun _ => raises_onlyIf ((Prog.raises_perform _).bind fun _ =>
    (raises_writeStatus _).bind fun _ => Prog.raises_perform _)

theorem raises_dockerStopApp (setStatus : Bool) : (dockerStopApp name setStatus).Raises ψ :=
  raises_readStatus.bind fun _ => raises_onlyIf
    ((raises_onlyIf (Prog.raises_perform _)).bind fun _ => (Prog.raises_perform _).bind fun _ =>
      (raises_onlyIf (raises_writeStatus _)).bind fun _ => Prog.raises_perform _)

theorem raises_dockerShutdownApp (setStatus force : Bool) :
    (dockerShutdownApp name setStatus force).Raises ψ :=
  raises_readStatus.bind fun _ => raises_onlyIf
    ((raises_onlyIf (Prog.raises_perform _)).bind fun _ => (Prog.raises_perform _).bind fun _ =>
      (raises_onlyIf (raises_writeStatus _)).bind fun _ => Prog.raises_perform _)

/-- `markUninstalling` without its handler raises a `KeyError` at most. -/
theorem raises_keyError :
    (do
      let installedApp ← getAppFromDb name
      onlyIf (installedApp.status = .paused) (dockerUnpauseApp name)
      updateAppStatus name .uninstalling : Coro Unit).Raises fun e => ∃ other, e = .keyError other := by
  have hget : (getAppFromDb name).Raises fun e => ∃ other, e = .keyError other := by
    refine (Prog.raises_perform _).bind fun row => ?_
    cases row with
    | none => exact ⟨name, rfl⟩
    | some app => trivial
  refine hget.bind fun app => (raises_onlyIf raises_dockerUnpauseApp).bind fun _ => ?_
  refine (Prog.raises_perform _).bind fun row => ?_
  cases row with
  | none => exact ⟨name, rfl⟩
  | some app => exact Prog.raises_perform _

end Raises

/-! The uninstall. -/

/-- The uninstall goes on, or an operation of it has failed. -/
def GoesOn (name : String) (r : Except Exn α) (l : Errand) : Prop :=
  l = .failed ∨ (l = .removing name ∧ r.isOk = true)

/-- The row is deleted, or an operation has failed. -/
abbrev Removed (l : Errand) : Prop := l = .idle ∨ l = .failed

theorem goesOn_perform {op : Op} (hf : f.removes = false) (hop : f.Covers name op) :
    Errands (awaitOp op) (.removing name) (GoesOn name) := by
  refine (errand_removing (ψ := fun _ => False) hf ((Prog.uses_perform op).mpr hop)
    (Prog.raises_perform op)).mono fun r l h => h.imp_right fun h => ⟨h.1, ?_⟩
  cases r with
  | ok a => rfl
  | error e => exact (h.2 e rfl).elim

theorem GoesOn.bind {p : Coro α} {q : α → Coro Unit} (hp : Errands p (.removing name) (GoesOn name))
    (hq : ∀ a, Errands (q a) (.removing name) fun _ => Removed)
    (huses : ∀ a, (q a).Uses (f.Covers name)) :
    Errands (p >>= q) (.removing name) fun _ => Removed := by
  refine Prog.Conforms.bind hp (fun a l h => ?_) fun e l h => ?_
  · obtain rfl | ⟨rfl, -⟩ := h
    · exact (errand_failed (huses a)).mono fun _ _ h => .inr h
    · exact hq a
  · obtain hl | ⟨-, hok⟩ := h
    · exact .inr hl
    · cases hok

theorem errand_markUninstalling : Errands (markUninstalling name) (.removing name) (GoesOn name) := by
  have hbody : Bounded { statuses := [.running, .uninstalling], commands := [.unpause] } name
      (do
        let installedApp ← getAppFromDb name
        onlyIf (installedApp.status = .paused) (dockerUnpauseApp name)
        updateAppStatus name .uninstalling) :=
    bounds_getAppFromDb.bind fun _ => (Bounded.onlyIf (bounds_dockerUnpauseApp.mono (by decide))).bind
      fun _ => bounds_updateAppStatus (by decide)
  refine (errand_removing rfl hbody.uses raises_keyError).tryCatch (fun u l h => ?_) fun e l h => ?_
  · exact h.imp_right fun h => ⟨h.1, rfl⟩
  · obtain hl | ⟨hl, hkey⟩ := h
    · cases e <;> exact .inl hl
    · obtain ⟨other, rfl⟩ := hkey e rfl
      exact .inr ⟨hl, rfl⟩

theorem errand_stopAndShutdown : Errands (Freeshard.exceptException
    (do
      dockerStopApp name true
      dockerShutdownApp name true false)
    fun _ => pure ()) (.removing name) (GoesOn name) := by
  have hraises : (do
      dockerStopApp name true
      dockerShutdownApp name true false : Coro Unit).Raises fun _ => False :=
    (raises_dockerStopApp true).bind fun _ => raises_dockerShutdownApp true false
  refine (errand_removing rfl (bounds_stopAndShutdown true).uses hraises).tryCatch
    (fun u l h => ?_) fun e l h => ?_
  · exact h.imp_right fun h => ⟨h.1, rfl⟩
  · have hl := h.resolve_right fun h => h.2 e rfl
    split <;> exact .inl hl

theorem errand_remove : Errands (do
    awaitOp (.remove name)
    writeTraefikDynConfig
    sendOnAppsUpdate) (.removing name) fun _ => Removed := by
  have hremove : Errands (awaitOp (.remove name)) (.removing name) fun r l =>
      (r.isOk = true → l = .idle) ∧ (r.isOk = false → l = .failed) := by
    refine Prog.Conforms.perform ⟨nofun, nofun, fun other he => ?_⟩ fun r => ?_
    · cases he
      rfl
    · cases r with
      | ok u => exact ⟨fun _ => rfl, nofun⟩
      | error e => exact ⟨nofun, fun _ => rfl⟩
  have hrest : Bounded {} name (do
      writeTraefikDynConfig
      sendOnAppsUpdate) := bounds_writeTraefikDynConfig.bind fun _ => Bounded.sendOnAppsUpdate
  refine hremove.bind (fun u l h => ?_) fun e l h => .inr (h.2 rfl)
  obtain rfl := h.1 rfl
  exact (errand_idle rfl hrest.uses).mono fun _ _ h => .inl h

theorem errand_uninstallApp : Errands (uninstallApp name) (.removing name) fun _ => Removed := by
  have hrelease : ∀ l, Removed l → Errands (awaitOp (.release name)) l fun _ => Removed := by
    rintro l (rfl | rfl)
    · exact Prog.Conforms.perform (fun _ => nofun) fun _ => .inl rfl
    · exact Prog.Conforms.perform trivial fun _ => .inr rfl
  have hbody : Errands (do
      markUninstalling name
      Freeshard.exceptException
        (do
          dockerStopApp name true
          dockerShutdownApp name true false)
        fun _ => pure ()
      awaitOp (.rmtree name)
      awaitOp (.remove name)
      writeTraefikDynConfig
      sendOnAppsUpdate) (.removing name) fun _ => Removed := by
    have hcleanup : Bounded { removes := true } name _ := bounds_cleanup rfl
    have hremove : Bounded { removes := true } name (do
        awaitOp (.remove name)
        writeTraefikDynConfig
        sendOnAppsUpdate) := .bind (Bounded.perform ⟨rfl, rfl⟩) fun _ =>
      bounds_writeTraefikDynConfig.bind fun _ => Bounded.sendOnAppsUpdate
    have hstop : Bounded
        { statuses := [.stopped, .down]
          commands := [.unpause, .stop, .down], removes := true } name (Freeshard.exceptException
        (do
          dockerStopApp name true
          dockerShutdownApp name true false)
        fun _ => pure ()) :=
      (Bounded.exceptException (bounds_stopAndShutdown true) fun _ => .ret ()).mono (by decide)
    refine GoesOn.bind errand_markUninstalling (fun _ => ?_) fun _ =>
      (hstop.bind fun _ => bounds_cleanup rfl).uses
    refine GoesOn.bind errand_stopAndShutdown (fun _ => ?_) fun _ => hcleanup.uses
    exact GoesOn.bind (goesOn_perform (f := {}) rfl rfl) (fun _ => errand_remove) fun _ => hremove.uses
  have hteardown : Bounded
      { statuses := [.running, .uninstalling, .stopped, .down]
        commands := [.unpause, .stop, .down], locks := true, removes := true } name _ :=
    bounds_teardown.mono (by decide)
  have hunlock : Bounded
      { statuses := [.running, .uninstalling, .stopped, .down]
        commands := [.unpause, .stop, .down], locks := true, removes := true } name
      (awaitOp (.release name)) := Bounded.perform ⟨rfl, rfl⟩
  have huses := hteardown.uses.tryFinally hunlock.uses
  refine GoesOn.bind (goesOn_perform (f := { locks := true }) rfl ⟨rfl, rfl⟩) (fun _ => ?_) fun _ => huses
  refine hbody.tryFinally fun r l h => ?_
  exact (hrelease l h).mono fun r' _ h => by cases r' <;> exact h

/-! The loop. -/

theorem errand_process (task : InstallationTask) :
    Errands (process task) task.errand fun _ => Removed := by
  obtain ⟨app, taskType⟩ := task
  cases taskType with
  | installFromStore => exact (errand_idle rfl bounds_installAppFromStore.uses).mono fun _ _ h => .inl h
  | installFromZip =>
    exact (errand_idle rfl bounds_installAppFromExistingZip.uses).mono fun _ _ h => .inl h
  | uninstall => exact errand_uninstallApp
  | reinstall => exact (errand_idle rfl bounds_reinstallApp.uses).mono fun _ _ h => .inl h

theorem errand_run (n : ℕ) : Errands (run n) .idle fun _ l => l = .idle := by
  refine run_conforms (fun _ => nofun) (fun task => ?_) (fun _ => rfl) errand_process ?_ n
  · rfl
  · rintro task l (rfl | rfl)
    · exact ⟨fun _ => nofun, fun _ => rfl⟩
    · exact ⟨trivial, fun _ => rfl⟩

end Worker

/-! ## The requests conform -/

section Requests
variable (name : String)

/-- What an install request does besides inserting the row and enqueueing its task. -/
theorem errand_query {α : Type} {p : Coro α} (hp : Bounded {} name p) :
    p.Conforms (errand .installRequest) .idle fun _ l => l = .idle := by
  refine Prog.Conforms.of_uses hp.uses (fun op hop l hl => ?_) rfl
  subst hl
  refine ⟨trivial, fun r => ?_⟩
  cases op with
  | insert app => cases hop.2.2
  | _ => rfl

theorem errand_insert_enqueue (reason : InstallationReason) (taskType : TaskType) : (do
    insertQueued name reason
    enqueue name taskType
    sendOnAppsUpdate : Coro Unit).Conforms (errand .installRequest) .idle fun _ l => l = .idle := by
  have hinsert : (insertQueued name reason).Conforms (errand .installRequest) .idle fun r l =>
      (r.isOk = true → l = .inserted) ∧ (r.isOk = false → l = .idle) := by
    refine Prog.Conforms.perform trivial fun r => ?_
    cases r with
    | ok u => exact ⟨fun _ => rfl, nofun⟩
    | error e => exact ⟨nofun, fun _ => rfl⟩
  have henqueue : (enqueue name taskType).Conforms (errand .installRequest) .inserted
      fun _ l => l = .idle := Prog.Conforms.perform ⟨_, rfl⟩ fun _ => rfl
  have hnotify : sendOnAppsUpdate.Conforms (errand .installRequest) .idle fun _ l => l = .idle :=
    Prog.Conforms.perform trivial fun _ => rfl
  refine hinsert.bind (fun u l h => ?_) fun e l h => h.2 rfl
  obtain rfl := h.1 rfl
  refine henqueue.bind (fun u l h => ?_) fun _ _ h => h
  subst h
  exact hnotify

theorem errand_query_then {α : Type} {p : Coro α} {q : α → Coro Unit} (hp : Bounded {} name p)
    (hq : ∀ a, (q a).Conforms (errand .installRequest) .idle fun _ l => l = .idle) :
    (p >>= q).Conforms (errand .installRequest) .idle fun _ l => l = .idle := by
  refine (errand_query name hp).bind (fun a l h => ?_) fun _ _ h => h
  subst h
  exact hq a

theorem errand_installAppFromStore (reason : InstallationReason) :
    (installAppFromStore name reason).Conforms (errand .installRequest) .idle fun _ l => l = .idle :=
  errand_query_then name (.perform trivial) fun _ => errand_query_then name (.raiseUnless _ rfl) fun _ =>
    errand_query_then name (.perform trivial) fun _ => errand_query_then name (.raiseUnless _ rfl) fun _ =>
      errand_insert_enqueue name reason .installFromStore

theorem errand_installAppFromUploadedZip (zip : AppArchive) (reason : InstallationReason) :
    (installAppFromUploadedZip name zip reason).Conforms (errand .installRequest) .idle
      fun _ l => l = .idle :=
  errand_query_then name (.perform trivial) fun _ => errand_query_then name (.raiseUnless _ rfl) fun _ =>
    errand_query_then name (.perform rfl) fun _ => errand_insert_enqueue name reason .installFromZip

end Requests

/-- The other calls have no errand. -/
theorem errand_other {role : Role} (hworker : role ≠ .worker) (hinstall : role ≠ .installRequest)
    (p : Coro Unit) : p.Conforms (errand role) .idle fun _ l => l = .idle := by
  refine Prog.Conforms.of_uses (Prog.uses_true p) (fun op _ l _ => ?_) rfl
  cases role <;> first
    | exact absurd rfl hworker
    | exact absurd rfl hinstall
    | exact ⟨trivial, fun _ => rfl⟩

theorem Starts.errands {name : String} {i : Call} {p : Coro Unit} (h : Starts name i p) :
    p.Conforms (errand i.role) .idle fun _ l => l = .idle := by
  by_cases hworker : i.role = .worker
  · unfold Starts at h
    rw [hworker] at h ⊢
    obtain ⟨-, n, rfl⟩ := h
    exact Worker.errand_run n
  · by_cases hinstall : i.role = .installRequest
    · unfold Starts at h
      rw [hinstall] at h ⊢
      obtain ⟨reason, rfl⟩ | ⟨zip, reason, rfl⟩ := h
      · exact errand_installAppFromStore name reason
      · exact errand_installAppFromUploadedZip name zip reason
    · exact errand_other hworker hinstall p

end Freeshard

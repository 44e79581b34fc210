import Freeshard.Service.AppInstallation
import Freeshard.System.Frames

/-! # What each service function may touch

A `Footprint` bounds the operations a function performs for its app: the statuses it writes, the
compose commands it issues, whether it locks, inserts or removes. Each theorem says that a function
stays within its footprint, whatever its operations answer. -/

namespace Freeshard
open Coroutine
set_option autoImplicit false

structure Footprint where
  statuses : List Status := []
  commands : List ComposeCmd := []
  locks : Bool := false
  inserts : Bool := false
  removes : Bool := false
  enqueues : List TaskType := []
  deriving DecidableEq

namespace Footprint

/-- The operations for the app `name` within the footprint: of the table it reads that app's row,
what does not appear here is always allowed. -/
def Covers (f : Footprint) (name : String) : Op → Prop
  | .getByName other => other = name
  | .insert app => app.name = name ∧ app.status = .installationQueued ∧ f.inserts = true
  | .updateStatus other status => other = name ∧ status ∈ f.statuses
  | .remove other => other = name ∧ f.removes = true
  | .acquire other => other = name ∧ f.locks = true
  | .release other => other = name ∧ f.locks = true
  | .compose other cmd => other = name ∧ cmd ∈ f.commands
  | .enqueue task => task.appName = name ∧ task.taskType ∈ f.enqueues
  | .dequeue => False
  | .taskDone => False
  | .rmtree other => other = name
  | .moveUploadedZip other _ => other = name
  | .downloadAppZip other => other = name
  | .extractAppZip other => other = name
  | .unlinkZip other => other = name
  | .renderTemplate other => other = name
  | _ => True

theorem Covers.commands {f : Footprint} {name : String} {op : Op} (h : f.Covers name op)
    (hf : f.commands = []) (project : String) : op.commands project = false := by
  cases op with
  | compose other cmd =>
    have hmem := h.2
    rw [hf] at hmem
    cases hmem
  | _ => rfl

theorem Covers.writesRow {f : Footprint} {name other : String} {op : Op} (h : f.Covers name op)
    (hne : other ≠ name) : op.writesRow other = false := by
  cases op with
  | insert app => exact beq_false_of_ne fun he => hne (he ▸ h.1)
  | updateStatus n status => exact beq_false_of_ne fun he => hne (he ▸ h.1)
  | remove n => exact beq_false_of_ne fun he => hne (he ▸ h.1)
  | _ => rfl

theorem Covers.appDir {f : Footprint} {name other : String} {op : Op} (h : f.Covers name op)
    (hne : other ≠ name) : op.appDir ≠ some other := by
  cases op with
  | rmtree n | moveUploadedZip n _ | downloadAppZip n | extractAppZip n | unlinkZip n
  | renderTemplate n => exact fun he => hne ((Option.some.inj he).symm.trans h)
  | _ => exact nofun

def le (f g : Footprint) : Prop :=
  f.statuses ⊆ g.statuses ∧ f.commands ⊆ g.commands ∧ (f.locks → g.locks) ∧
    (f.inserts → g.inserts) ∧ (f.removes → g.removes) ∧ f.enqueues ⊆ g.enqueues

instance (f g : Footprint) : Decidable (f.le g) := by
  unfold le
  infer_instance

theorem Covers.mono {f g : Footprint} (h : f.le g) {name : String} {op : Op}
    (hop : f.Covers name op) : g.Covers name op := by
  obtain ⟨hst, hcmd, hlock, hins, hrem, henq⟩ := h
  cases op with
  | insert app => exact ⟨hop.1, hop.2.1, hins hop.2.2⟩
  | updateStatus other status => exact ⟨hop.1, hst hop.2⟩
  | remove other => exact ⟨hop.1, hrem hop.2⟩
  | acquire other | release other => exact ⟨hop.1, hlock hop.2⟩
  | compose other cmd => exact ⟨hop.1, hcmd hop.2⟩
  | enqueue task => exact ⟨hop.1, henq hop.2⟩
  | _ => exact hop

end Footprint

/-! ## Staying within a footprint -/

/-- `p` awaits only operations of the footprint and raises `CancelledError` only if one of them
does. -/
structure Bounded {α : Type} (f : Footprint) (name : String) (p : Coro α) : Prop where
  uses : p.Uses (f.Covers name)
  raises : p.Raises fun e => e.isException = true

variable {f : Footprint} {name : String} {α β : Type}

namespace Bounded

theorem mono {g : Footprint} {p : Coro α} (hp : Bounded f name p) (h : f.le g) :
    Bounded g name p :=
  ⟨hp.uses.mono fun _ => Footprint.Covers.mono h, hp.raises⟩

theorem ret (a : α) : Bounded f name (pure a : Coro α) := ⟨trivial, trivial⟩

theorem raise {e : Exn} (he : e.isException = true) : Bounded f name (throw e : Coro α) :=
  ⟨trivial, he⟩

theorem perform {op : Op} (h : f.Covers name op) : Bounded f name (awaitOp op) :=
  ⟨(Prog.uses_perform op).mpr h, Prog.raises_perform op⟩

theorem bind {p : Coro α} {q : α → Coro β} (hp : Bounded f name p)
    (hq : ∀ a, Bounded f name (q a)) : Bounded f name (p >>= q) :=
  ⟨hp.uses.bind fun a => (hq a).uses, hp.raises.bind fun a => (hq a).raises⟩

theorem tryCatch {p : Coro α} {handle : Exn → Coro α} (hp : Bounded f name p)
    (hh : ∀ e, (handle e).Uses (f.Covers name))
    (hr : ∀ e, e.isException = true → (handle e).Raises fun e => e.isException = true) :
    Bounded f name (MonadExcept.tryCatch p handle) :=
  ⟨hp.uses.tryCatch hh, hp.raises.tryCatch hr⟩

theorem forM {l : List β} {q : β → Coro Unit} (hq : ∀ b, Bounded f name (q b)) :
    Bounded f name (l.forM q) := by
  induction l with
  | nil => exact ret ()
  | cons b l ih => exact (hq b).bind fun _ => ih

theorem onlyIf {c : Prop} [Decidable c] {body : Coro Unit} (h : Bounded f name body) :
    Bounded f name (onlyIf c body) := by
  unfold Freeshard.onlyIf
  split
  · exact h
  · exact ret ()

theorem raiseUnless (c : Prop) [Decidable c] {e : Exn} (he : e.isException = true) :
    Bounded f name (raiseUnless c e) := by
  unfold Freeshard.raiseUnless
  split
  · exact ret ()
  · exact raise he

theorem exceptSubprocessError {body : Coro α} {handle : String → Coro α}
    (hb : Bounded f name body) (hh : ∀ text, Bounded f name (handle text)) :
    Bounded f name (exceptSubprocessError body handle) := by
  refine hb.tryCatch (fun e => ?_) fun e he => ?_
  · cases e <;> first | exact (hh _).uses | trivial
  · cases e <;> first | exact (hh _).raises | exact he

theorem exceptException {body : Coro α} {handle : Exn → Coro α} (hb : Bounded f name body)
    (hh : ∀ e, Bounded f name (handle e)) : Bounded f name (exceptException body handle) := by
  refine hb.tryCatch (fun e => ?_) fun e he => ?_
  · split
    · exact (hh e).uses
    · trivial
  · rw [if_pos he]
    exact (hh e).raises

theorem withAppOpLock {body : Coro α} (hl : f.locks = true) (hb : Bounded f name body) :
    Bounded f name (withAppOpLock name body) := by
  refine .bind (.perform ⟨rfl, hl⟩) fun _ => ?_
  have hr : Bounded f name (awaitOp (.release name)) := .perform ⟨rfl, hl⟩
  exact ⟨hb.uses.tryFinally hr.uses, hb.raises.tryFinally hr.raises⟩

theorem compose {cmd : ComposeCmd} (h : cmd ∈ f.commands) :
    Bounded f name (compose name cmd) := .perform ⟨rfl, h⟩

theorem writeStatus {status : Status} (h : status ∈ f.statuses) :
    Bounded f name (writeStatus name status) := .bind (.perform ⟨rfl, h⟩) fun _ => .ret ()

theorem readStatus : Bounded f name (readStatus name) := .bind (.perform rfl) fun _ => .ret _

theorem sendOnAppsUpdate : Bounded f name sendOnAppsUpdate := .perform trivial

end Bounded

/-! ## `app_tools.py` -/

theorem bounds_getAppContainerState : Bounded f name (getAppContainerState name) := by
  refine Bounded.exceptSubprocessError (.bind (Bounded.perform trivial) fun ids => ?_)
    fun _ => .ret _
  split
  · exact .ret _
  · exact .bind (Bounded.perform trivial) fun _ => .ret _

theorem bounds_composeUp (h : [.up, .down] ⊆ f.commands) : Bounded f name (composeUp name) := by
  have hup : Bounded f name (compose name .up) := Bounded.compose (h (by decide))
  have hdown : Bounded f name (compose name .down) := Bounded.compose (h (by decide))
  refine Bounded.exceptSubprocessError hup fun text => ?_
  split
  · exact hdown.bind fun _ => hup
  · split
    · exact hdown.bind fun _ => hup
    · exact .raise rfl

theorem bounds_markRunning (h : .running ∈ f.statuses) : Bounded f name (markRunning name) :=
  .bind (Bounded.writeStatus h) fun _ => Bounded.sendOnAppsUpdate

theorem bounds_revive (status : Option Status) :
    Bounded { statuses := [.running], commands := [.up, .down, .unpause] } name
      (revive name status) := by
  refine .bind bounds_getAppContainerState fun state => ?_
  cases state with
  | running => exact Bounded.onlyIf (bounds_markRunning (by decide))
  | paused =>
    refine .bind (Bounded.exceptSubprocessError (Bounded.compose (by decide)) fun _ =>
      bounds_composeUp (by decide)) fun _ => bounds_markRunning (by decide)
  | exited | missing =>
    exact .bind (bounds_composeUp (by decide)) fun _ => bounds_markRunning (by decide)

theorem bounds_startApp :
    Bounded { statuses := [.running], commands := [.up, .down, .unpause], locks := true }
      name (startApp name) := by
  refine .bind (Bounded.perform trivial) fun _ => Bounded.onlyIf ?_
  refine Bounded.withAppOpLock rfl (.bind Bounded.readStatus fun status => ?_)
  exact Bounded.onlyIf ((bounds_revive status).mono (by decide))

theorem bounds_dockerPauseApp :
    Bounded { statuses := [.paused], commands := [.pause] } name
      (dockerPauseApp name) := by
  refine .bind Bounded.readStatus fun _ => Bounded.onlyIf ?_
  refine .bind (Bounded.compose (by decide)) fun _ => .bind ?_ fun _ => .bind ?_ fun _ => ?_
  · exact .bind (Bounded.perform trivial) fun _ =>
      .forM fun _ => Bounded.perform trivial
  · exact Bounded.writeStatus (by decide)
  · exact Bounded.sendOnAppsUpdate

theorem bounds_dockerUnpauseApp :
    Bounded { statuses := [.running], commands := [.unpause] } name
      (dockerUnpauseApp name) :=
  .bind Bounded.readStatus fun _ => Bounded.onlyIf
    (.bind (Bounded.compose (by decide)) fun _ => bounds_markRunning (by decide))

theorem bounds_dockerStopApp (setStatus : Bool) :
    Bounded
      { statuses := if setStatus then [.stopped] else []
        commands := [.unpause, .stop] } name (dockerStopApp name setStatus) := by
  refine .bind Bounded.readStatus fun _ => Bounded.onlyIf ?_
  refine .bind (Bounded.onlyIf (Bounded.compose (by simp))) fun _ => ?_
  refine .bind (Bounded.compose (by simp)) fun _ => .bind ?_ fun _ => Bounded.sendOnAppsUpdate
  cases setStatus
  · exact .ret ()
  · exact Bounded.onlyIf (Bounded.writeStatus (by simp))

theorem bounds_dockerShutdownApp (setStatus force : Bool) :
    Bounded
      { statuses := if setStatus then [.down] else []
        commands := [.unpause, .down] } name (dockerShutdownApp name setStatus force) := by
  refine .bind Bounded.readStatus fun _ => Bounded.onlyIf ?_
  refine .bind (Bounded.onlyIf (Bounded.compose (by simp))) fun _ => ?_
  refine .bind (Bounded.compose (by simp)) fun _ => .bind ?_ fun _ => Bounded.sendOnAppsUpdate
  cases setStatus
  · exact .ret ()
  · exact Bounded.onlyIf (Bounded.writeStatus (by simp))

/-! ## `app_installation/` -/

theorem bounds_getAppFromDb : Bounded f name (getAppFromDb name) := by
  refine .bind (Bounded.perform rfl) fun row => ?_
  cases row
  · exact .raise rfl
  · exact .ret _

theorem bounds_updateAppStatus {status : Status} (h : status ∈ f.statuses) :
    Bounded f name (updateAppStatus name status) := by
  refine .bind (Bounded.perform ⟨rfl, h⟩) fun row => ?_
  cases row
  · exact .raise rfl
  · exact Bounded.sendOnAppsUpdate

theorem bounds_getDefaultIdentity : Bounded f name getDefaultIdentity := by
  refine .bind (Bounded.perform trivial) fun row => ?_
  cases row
  · exact .raise rfl
  · exact .ret _

theorem bounds_appInfos (apps : List InstalledApp) : Bounded f name (appInfos apps) := by
  induction apps with
  | nil => exact .ret _
  | cons app apps ih =>
    refine .bind (Bounded.exceptException ?_ fun _ => .ret _) fun _ => ih.bind fun _ => .ret _
    exact .bind (Bounded.perform trivial) fun _ => .ret _

theorem bounds_writeTraefikDynConfig : Bounded f name writeTraefikDynConfig :=
  .bind (Bounded.perform trivial) fun _ => (bounds_appInfos _).bind fun _ =>
    bounds_getDefaultIdentity.bind fun _ => Bounded.perform trivial

namespace Worker

theorem bounds_installAppFromZip (h : .upNoStart ∈ f.commands) :
    Bounded f name (installAppFromZip name) := by
  refine .bind (Bounded.perform rfl) fun _ => Bounded.sendOnAppsUpdate.bind fun _ => ?_
  refine .bind (Bounded.perform rfl) fun _ => .bind ?_ fun _ => ?_
  · exact bounds_getDefaultIdentity.bind fun _ => Bounded.perform rfl
  · exact (Bounded.compose h).bind fun _ => bounds_writeTraefikDynConfig

theorem bounds_failInstallation (h : .error ∈ f.statuses) (e : Exn) :
    Bounded f name (failInstallation name e) :=
  (bounds_updateAppStatus h).bind fun _ => Bounded.perform trivial

theorem bounds_install (h : [.stopped, .error] ⊆ f.statuses) (hcmd : .upNoStart ∈ f.commands) :
    Bounded f name (exceptException
      (do
        installAppFromZip name
        updateAppStatus name .stopped)
      (failInstallation name)) :=
  Bounded.exceptException
    ((bounds_installAppFromZip hcmd).bind fun _ => bounds_updateAppStatus (h (by decide)))
    (bounds_failInstallation (h (by decide)))

theorem bounds_download (h : [.stopped, .error] ⊆ f.statuses) (hcmd : .upNoStart ∈ f.commands) :
    Bounded f name (exceptException
      (do
        downloadAppZip name
        installAppFromZip name
        updateAppStatus name .stopped)
      (failInstallation name)) :=
  Bounded.exceptException
    (.bind (Bounded.perform rfl) fun _ =>
      (bounds_installAppFromZip hcmd).bind fun _ => bounds_updateAppStatus (h (by decide)))
    (bounds_failInstallation (h (by decide)))

theorem bounds_installAppFromStore :
    Bounded { statuses := [.installing, .stopped, .error], commands := [.upNoStart] } name
      (installAppFromStore name) :=
  bounds_getAppFromDb.bind fun _ => (Bounded.raiseUnless _ rfl).bind fun _ =>
    (bounds_updateAppStatus (by decide)).bind fun _ => bounds_download (by decide) (by decide)

theorem bounds_installAppFromExistingZip :
    Bounded { statuses := [.installing, .stopped, .error], commands := [.upNoStart] } name
      (installAppFromExistingZip name) :=
  bounds_getAppFromDb.bind fun _ => (Bounded.raiseUnless _ rfl).bind fun _ =>
    (bounds_updateAppStatus (by decide)).bind fun _ => bounds_install (by decide) (by decide)

theorem bounds_markUninstalling (h : [.running, .uninstalling] ⊆ f.statuses)
    (hcmd : .unpause ∈ f.commands) : Bounded f name (markUninstalling name) := by
  have hunpause : Bounded f name (do
      let status ← readStatus name
      onlyIf (status = some .paused) do
        compose name .unpause
        markRunning name) :=
    Bounded.readStatus.bind fun _ => Bounded.onlyIf
      ((Bounded.compose hcmd).bind fun _ => bounds_markRunning (h (by decide)))
  have hbody := bounds_getAppFromDb.bind fun app =>
    (Bounded.onlyIf (c := app.status = .paused) hunpause).bind fun _ =>
      bounds_updateAppStatus (h (show .uninstalling ∈ [Status.running, .uninstalling] by decide))
  refine hbody.tryCatch (fun e => ?_) fun e he => ?_
  · cases e <;> trivial
  · cases e <;> trivial

theorem bounds_stopAndShutdown (setStatus : Bool) :
    Bounded
      { statuses := if setStatus then [.stopped, .down] else []
        commands := [.unpause, .stop, .down] } name (do
      dockerStopApp name setStatus
      dockerShutdownApp name setStatus false) := by
  cases setStatus
  · exact ((bounds_dockerStopApp false).mono (by decide)).bind fun _ =>
      (bounds_dockerShutdownApp false false).mono (by decide)
  · exact ((bounds_dockerStopApp true).mono (by decide)).bind fun _ =>
      (bounds_dockerShutdownApp true false).mono (by decide)

theorem bounds_cleanup (h : f.removes = true) : Bounded f name (do
    awaitOp (.rmtree name)
    awaitOp (.remove name)
    writeTraefikDynConfig
    sendOnAppsUpdate) :=
  .bind (Bounded.perform rfl) fun _ =>
    .bind (Bounded.perform ⟨rfl, h⟩) fun _ =>
      bounds_writeTraefikDynConfig.bind fun _ => Bounded.sendOnAppsUpdate

theorem bounds_teardown :
    Bounded
      { statuses := [.running, .uninstalling, .stopped, .down]
        commands := [.unpause, .stop, .down], removes := true } name (do
      markUninstalling name
      Freeshard.exceptException
        (do
          dockerStopApp name true
          dockerShutdownApp name true false)
        fun _ => pure ()
      awaitOp (.rmtree name)
      awaitOp (.remove name)
      writeTraefikDynConfig
      sendOnAppsUpdate) := by
  refine (bounds_markUninstalling (by decide) (by decide)).bind fun _ =>
    (Bounded.exceptException ?_ fun _ => .ret ()).bind fun _ => bounds_cleanup rfl
  exact (bounds_stopAndShutdown true).mono (by decide)

theorem bounds_uninstallApp :
    Bounded
      { statuses := [.running, .uninstalling, .stopped, .down]
        commands := [.unpause, .stop, .down], locks := true, removes := true } name
      (uninstallApp name) :=
  Bounded.withAppOpLock rfl (bounds_teardown.mono (by decide))

theorem bounds_reinstallApp :
    Bounded
      { statuses := [.reinstalling, .stopped, .error]
        commands := [.unpause, .stop, .down, .upNoStart] } name (reinstallApp name) := by
  refine bounds_getAppFromDb.bind fun _ => (Bounded.raiseUnless _ rfl).bind fun _ =>
    (bounds_updateAppStatus (by decide)).bind fun _ =>
      (Bounded.exceptException ?_ fun _ => .ret ()).bind fun _ =>
        .bind (Bounded.perform rfl) fun _ => bounds_download (by decide) (by decide)
  exact (bounds_stopAndShutdown false).mono (by decide)

end Worker

/-! ## The requests -/

theorem bounds_enqueue {taskType : TaskType} (h : taskType ∈ f.enqueues) :
    Bounded f name (enqueue name taskType) := Bounded.perform ⟨rfl, h⟩

theorem bounds_installAppFromStore (reason : InstallationReason) :
    Bounded { inserts := true, enqueues := [.installFromStore] } name
      (installAppFromStore name reason) :=
  .bind (Bounded.perform trivial) fun _ => (Bounded.raiseUnless _ rfl).bind fun _ =>
    .bind (Bounded.perform trivial) fun _ => (Bounded.raiseUnless _ rfl).bind fun _ =>
      .bind (Bounded.perform ⟨rfl, rfl, rfl⟩) fun _ =>
        (bounds_enqueue (by decide)).bind fun _ => Bounded.sendOnAppsUpdate

theorem bounds_installAppFromUploadedZip (zip : AppArchive) (reason : InstallationReason) :
    Bounded { inserts := true, enqueues := [.installFromZip] } name
      (installAppFromUploadedZip name zip reason) :=
  .bind (Bounded.perform trivial) fun _ => (Bounded.raiseUnless _ rfl).bind fun _ =>
    .bind (Bounded.perform rfl) fun _ =>
      .bind (Bounded.perform ⟨rfl, rfl, rfl⟩) fun _ =>
        (bounds_enqueue (by decide)).bind fun _ => Bounded.sendOnAppsUpdate

theorem bounds_uninstallApp :
    Bounded { statuses := [.uninstallationQueued], enqueues := [.uninstall] } name
      (uninstallApp name) :=
  .bind (Bounded.perform trivial) fun _ => (Bounded.raiseUnless _ rfl).bind fun _ =>
    (bounds_updateAppStatus (by decide)).bind fun _ =>
      (bounds_enqueue (by decide)).bind fun _ => Bounded.sendOnAppsUpdate

theorem bounds_reinstallApp :
    Bounded { statuses := [.reinstallationQueued], enqueues := [.reinstall] } name
      (reinstallApp name) :=
  .bind (Bounded.perform trivial) fun _ => (Bounded.raiseUnless _ rfl).bind fun _ =>
    .bind (Bounded.perform trivial) fun _ => (Bounded.raiseUnless _ rfl).bind fun _ =>
      (bounds_updateAppStatus (by decide)).bind fun _ => bounds_enqueue (by decide)

end Freeshard

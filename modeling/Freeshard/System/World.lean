import Freeshard.Database.InstalledApps
import Freeshard.Util.Subprocess
import Mathlib.Logic.Function.Basic

/-! # The state the app services share

Database table, app directories, compose projects, the per-app op locks, the installation queue
and what else the coroutines of `app_tools.py` and `app_installation/` read and write. -/

namespace Freeshard
set_option autoImplicit false

inductive TaskType where
  | installFromStore
  | installFromZip
  | uninstall
  | reinstall
  deriving DecidableEq, Repr

structure InstallationTask where
  appName : String
  taskType : TaskType
  deriving DecidableEq, Repr

/-- What a coroutine was created for. -/
inductive Role where
  | startApp
  | pauseApp
  | stopApp
  | shutdownApp
  | installRequest
  | uninstallRequest
  | reinstallRequest
  | worker
  deriving DecidableEq, Repr

/-- The identity of a coroutine: any number of calls for each role. -/
structure Call where
  role : Role
  id : ℕ
  deriving DecidableEq, Repr

structure World where
  installedApps : InstalledApps := .empty
  /-- `installed_apps/<name>`, if the directory exists. -/
  appDirs : String → Option AppDir := fun _ => none
  /-- The containers of each compose project. -/
  projects : String → Stack := fun _ => .empty
  /-- Who holds `app_op_lock(name)`. -/
  opLocks : String → Option Call := fun _ => none
  /-- `InstallationWorker._task_queue`. -/
  taskQueue : List InstallationTask := []
  /-- `InstallationWorker.current_task`. -/
  currentTask : Option InstallationTask := none
  /-- `last_call` of the throttled `start_app`, by app name. -/
  lastStart : String → Option ℚ := fun _ => none
  /-- The archives the app store offers. -/
  appStore : String → Option AppArchive := fun _ => none
  /-- The id of the default identity. -/
  defaultIdentity : Option String := none
  /-- The apps in the last written `traefik_dyn.yml`. -/
  traefikDyn : List (InstalledApp × AppMeta) := []
  /-- The flags in the table `kv_store`. -/
  kvStore : String → Option Bool := fun _ => none

namespace World

/-- A shard with one installed app, its files in place. -/
def withApp (name : String) (status : Status) (stack : Stack) : World where
  installedApps := ⟨[⟨name, .store, status, none⟩], List.nodup_singleton _⟩
  appDirs := Function.update (fun _ => none) name
    (some { appMeta := some (.accepted (.named name)), template := true, compose := true })
  projects := Function.update (fun _ => .empty) (normalizeProjectName name) stack
  appStore := Function.update (fun _ => none) name
    (some { appMeta := some (.accepted (.named name)), template := true, compose := true })
  defaultIdentity := some "id"

variable (w : World) (name : String)

def status : Option Status := w.installedApps.status name

/-- `_app_compose`. -/
def appCompose : Except Exn ComposeCommand := appComposeCommand name (w.appDirs name)

/-- The containers of the app's compose project. -/
def stack : Stack := w.projects (normalizeProjectName name)

/-- The app's containers: those of the project its compose commands are pinned to. -/
def containers : Stack := ((appProject name).map w.projects).getD .empty

def setStack (project : String) (s : Stack) : World :=
  { w with projects := Function.update w.projects project s }

def setStatus (status : Status) : World :=
  { w with installedApps := w.installedApps.updateStatus name status }

def setDir (dir : Option AppDir) : World :=
  { w with appDirs := Function.update w.appDirs name dir }

def setLock (holder : Option Call) : World :=
  { w with opLocks := Function.update w.opLocks name holder }

/-- `get_app_metadata`. -/
def getAppMetadata : Except Exn AppMeta :=
  match w.appDirs name with
  | none => .error (.metadataNotFound name)
  | some dir =>
    match dir.appMeta with
    | none => .error (.metadataNotFound name)
    | some .malformed => .error (.metadataNotFound name)
    | some (.rejected reason) => .error reason.toExn
    | some (.accepted appMeta) => .ok appMeta

/-- `enrich_installed_app_with_meta`. -/
def enrichInstalledAppWithMeta (app : InstalledApp) :
    Except Exn (InstalledApp × Option AppMeta) :=
  match w.getAppMetadata app.name with
  | .ok appMeta => .ok (app, some appMeta)
  | .error (.metadataNotFound _) => .ok (app, none)
  | .error e => .error e

/-- `send_apps_update`, the handler of `on_apps_update` that can raise: the message it broadcasts. -/
def sendAppsUpdate : Except Exn (List (InstalledApp × Option AppMeta)) :=
  w.installedApps.rows.mapM w.enrichInstalledAppWithMeta

/-- No installed app has an `app_meta.json` that parses but is refused. -/
def Notifiable : Prop :=
  ∀ app ∈ w.installedApps.rows, ∀ dir reason, w.appDirs app.name = some dir →
    dir.appMeta ≠ some (.rejected reason)

theorem enrichInstalledAppWithMeta_eq_error {w : World} {app : InstalledApp} {e : Exn} :
    w.enrichInstalledAppWithMeta app = .error e ↔ ∃ dir reason, w.appDirs app.name = some dir ∧
      dir.appMeta = some (.rejected reason) ∧ e = reason.toExn := by
  unfold enrichInstalledAppWithMeta getAppMetadata
  cases w.appDirs app.name with
  | none => simp
  | some dir =>
    cases hm : dir.appMeta with
    | none => simp [hm]
    | some file =>
      cases file with
      | malformed => simp [hm]
      | accepted appMeta => simp [hm]
      | rejected reason => cases reason <;> simp [hm, Rejection.toExn, eq_comm]

/-- The notification succeeds exactly if no installed app's metadata is refused. -/
theorem sendAppsUpdate_isOk {w : World} : (∃ message, w.sendAppsUpdate = .ok message) ↔
    w.Notifiable := by
  have key : ∀ apps : List InstalledApp,
      (∃ message, apps.mapM w.enrichInstalledAppWithMeta = .ok message) ↔
        ∀ app ∈ apps, ∃ info, w.enrichInstalledAppWithMeta app = .ok info := by
    intro apps
    induction apps with
    | nil => simp [pure, Except.pure]
    | cons app apps ih =>
      rw [List.forall_mem_cons, ← ih, List.mapM_cons]
      cases w.enrichInstalledAppWithMeta app <;>
        cases apps.mapM w.enrichInstalledAppWithMeta <;>
        simp [bind, Except.bind, pure, Except.pure]
  unfold sendAppsUpdate Notifiable
  rw [key]
  refine forall₂_congr fun app _ => ?_
  constructor
  · rintro ⟨info, hi⟩ dir reason hd hm
    have he := enrichInstalledAppWithMeta_eq_error.mpr ⟨dir, reason, hd, hm, rfl⟩
    rw [hi] at he
    cases he
  · intro h
    cases hi : w.enrichInstalledAppWithMeta app with
    | ok info => exact ⟨info, rfl⟩
    | error e =>
      obtain ⟨dir, reason, hd, hm, -⟩ := enrichInstalledAppWithMeta_eq_error.mp hi
      exact absurd hm (h dir reason hd)

theorem getAppMetadata_isException {w : World} {name : String} {e : Exn}
    (h : w.getAppMetadata name = .error e) : e.isException = true := by
  unfold getAppMetadata at h
  split at h
  · cases h
    rfl
  · split at h <;> cases h <;> first | rfl | exact Rejection.toExn_isException _

theorem sendAppsUpdate_isException {w : World} {e : Exn} (h : w.sendAppsUpdate = .error e) :
    e.isException = true := by
  have key : ∀ apps : List InstalledApp, apps.mapM w.enrichInstalledAppWithMeta = .error e →
      e.isException = true := by
    intro apps hm
    induction apps with
    | nil => cases hm
    | cons app apps ih =>
      rw [List.mapM_cons] at hm
      cases happ : w.enrichInstalledAppWithMeta app with
      | error e' =>
        rw [happ] at hm
        cases hm
        obtain ⟨_, reason, -, -, rfl⟩ := enrichInstalledAppWithMeta_eq_error.mp happ
        exact reason.toExn_isException
      | ok info =>
        rw [happ] at hm
        cases happs : apps.mapM w.enrichInstalledAppWithMeta with
        | error e' =>
          rw [happs] at hm
          cases hm
          exact ih happs
        | ok infos =>
          rw [happs] at hm
          cases hm
  exact key _ h

theorem Notifiable.mono {w w' : World} (h : w.Notifiable)
    (hrows : w'.installedApps.rows.map (·.name) ⊆ w.installedApps.rows.map (·.name))
    (hdirs : w'.appDirs = w.appDirs) : w'.Notifiable := by
  intro app happ dir reason hd
  obtain ⟨app', happ', hname⟩ := List.mem_map.mp (hrows (List.mem_map_of_mem happ))
  rw [hdirs, ← hname] at hd
  exact h app' happ' dir reason hd

theorem Notifiable.setStatus {w : World} (h : w.Notifiable) (name : String) (status : Status) :
    (w.setStatus name status).Notifiable := by
  refine h.mono (fun other hmem => ?_) rfl
  obtain ⟨app', happ', rfl⟩ := List.mem_map.mp hmem
  obtain ⟨app, happ, rfl⟩ := List.mem_map.mp happ'
  rw [InstalledApps.setStatus_name]
  exact List.mem_map_of_mem happ

/-! ## Field lemmas -/

@[simp] theorem setStatus_stack (status : Status) (other : String) :
    (w.setStatus name status).stack other = w.stack other := rfl

@[simp] theorem setStatus_appDirs (status : Status) :
    (w.setStatus name status).appDirs = w.appDirs := rfl

@[simp] theorem setStatus_opLocks (status : Status) :
    (w.setStatus name status).opLocks = w.opLocks := rfl

@[simp] theorem setStatus_taskQueue (status : Status) :
    (w.setStatus name status).taskQueue = w.taskQueue := rfl

@[simp] theorem setStatus_currentTask (status : Status) :
    (w.setStatus name status).currentTask = w.currentTask := rfl

@[simp] theorem setStatus_appCompose (status : Status) (other : String) :
    (w.setStatus name status).appCompose other = w.appCompose other := rfl

@[simp] theorem setStatus_status_self (status : Status) :
    (w.setStatus name status).status name = (w.status name).map fun _ => status :=
  w.installedApps.status_updateStatus_self name status

theorem getByName_setStatus_eq_none {w : World} {name : String} (status : Status) :
    (w.setStatus name status).installedApps.getByName name = none ↔ w.status name = none := by
  simp [World.status, World.setStatus, InstalledApps.status]

theorem setStatus_status_ne (status : Status) {other : String} (h : other ≠ name) :
    (w.setStatus name status).status other = w.status other :=
  w.installedApps.status_updateStatus_ne status h

@[simp] theorem setStack_status (project : String) (s : Stack) (other : String) :
    (w.setStack project s).status other = w.status other := rfl

@[simp] theorem setStack_appDirs (project : String) (s : Stack) :
    (w.setStack project s).appDirs = w.appDirs := rfl

@[simp] theorem setStack_opLocks (project : String) (s : Stack) :
    (w.setStack project s).opLocks = w.opLocks := rfl

@[simp] theorem setStack_taskQueue (project : String) (s : Stack) :
    (w.setStack project s).taskQueue = w.taskQueue := rfl

@[simp] theorem setStack_appCompose (project : String) (s : Stack) (other : String) :
    (w.setStack project s).appCompose other = w.appCompose other := rfl

@[simp] theorem setStack_stack_self (s : Stack) :
    (w.setStack (normalizeProjectName name) s).stack name = s := Function.update_self ..

@[simp] theorem setDir_status (dir : Option AppDir) (other : String) :
    (w.setDir name dir).status other = w.status other := rfl

@[simp] theorem setDir_stack (dir : Option AppDir) (other : String) :
    (w.setDir name dir).stack other = w.stack other := rfl

@[simp] theorem setDir_opLocks (dir : Option AppDir) :
    (w.setDir name dir).opLocks = w.opLocks := rfl

@[simp] theorem setDir_taskQueue (dir : Option AppDir) :
    (w.setDir name dir).taskQueue = w.taskQueue := rfl

@[simp] theorem setLock_status (holder : Option Call) (other : String) :
    (w.setLock name holder).status other = w.status other := rfl

@[simp] theorem setLock_stack (holder : Option Call) (other : String) :
    (w.setLock name holder).stack other = w.stack other := rfl

@[simp] theorem setLock_appDirs (holder : Option Call) :
    (w.setLock name holder).appDirs = w.appDirs := rfl

@[simp] theorem setLock_taskQueue (holder : Option Call) :
    (w.setLock name holder).taskQueue = w.taskQueue := rfl

@[simp] theorem setLock_appCompose (holder : Option Call) (other : String) :
    (w.setLock name holder).appCompose other = w.appCompose other := rfl

@[simp] theorem setLock_opLocks_self (holder : Option Call) :
    (w.setLock name holder).opLocks name = holder := Function.update_self ..

theorem setLock_opLocks_ne (holder : Option Call) {other : String} (h : other ≠ name) :
    (w.setLock name holder).opLocks other = w.opLocks other := Function.update_of_ne h ..

theorem containers_eq {w : World} {name project : String} (h : appProject name = some project) :
    w.containers name = w.stack name := by
  have hp : project = normalizeProjectName name := by
    unfold appProject at h
    split_ifs at h
    exact (Option.some.inj h).symm
  simp [containers, stack, h, hp]

theorem appCompose_project {w : World} {name : String} {c : ComposeCommand}
    (h : w.appCompose name = .ok c) : c.project = normalizeProjectName name :=
  appComposeCommand_project h

end World
end Freeshard

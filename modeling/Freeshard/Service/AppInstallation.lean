import Freeshard.Service.AppTools

/-! # `service/app_installation/`

The requests of `__init__.py`, the helpers of `util.py` and the installation worker of `worker.py`.
The worker's underscore functions live in the namespace `Worker`. -/

namespace Freeshard
open Coroutine
set_option autoImplicit false

/-! ## `util.py` -/

/-- Statuses without a traefik router. -/
def notRoutableStatus : List Status :=
  [.installationQueued, .error, .uninstallationQueued, .uninstalling]

def getAppFromDb (name : String) : Coro InstalledApp := do
  let record ← getByName name
  match record with
  | some app => pure app
  | none => throw (.keyError name)

def appExistsInDb (name : String) : Coro Bool := awaitOp (.contains name)

def appExistsInStore (name : String) : Coro Bool := awaitOp (.appExistsInStore name)

def assertAppStatus (app : InstalledApp) (allowed : Status) : Coro Unit :=
  raiseUnless (app.status = allowed) (.appInIllegalStatus app.name app.status)

def updateAppStatus (name : String) (status : Status) : Coro Unit := do
  let result ← updateStatus name status
  match result with
  | some _ => sendOnAppsUpdate
  | none => throw (.keyError name)

/-- The default identity's row; without one `Identity(**None)` is a `TypeError`. -/
def getDefaultIdentity : Coro String := do
  let row : Option String ← awaitOp .getDefaultIdentity
  match row with
  | some identity => pure identity
  | none => throw (.other "TypeError")

def renderDockerComposeTemplate (name : String) : Coro Unit := do
  let _ ← getDefaultIdentity
  awaitOp (.renderTemplate name)

def getAppMetadata (name : String) : Coro AppMeta := awaitOp (.getAppMetadata name)

/-- The loop of `write_traefik_dyn_config` that skips apps whose metadata does not load. -/
def appInfos : List InstalledApp → Coro (List (InstalledApp × AppMeta))
  | [] => pure []
  | app :: apps => do
    let info ← exceptException (do let appMeta ← getAppMetadata app.name; pure [(app, appMeta)])
      fun _ => pure []
    let infos ← appInfos apps
    pure (info ++ infos)

def getAll : Coro (List InstalledApp) := awaitOp .getAll

def writeTraefikDynConfig : Coro Unit := do
  let allApps ← getAll
  let infos ← appInfos (allApps.filter fun app => app.status ∉ notRoutableStatus)
  let _ ← getDefaultIdentity
  awaitOp (.writeTraefikDyn infos)

/-! ## `worker.py` -/

namespace Worker

def downloadAppZip (name : String) : Coro Unit := awaitOp (.downloadAppZip name)

def installAppFromZip (name : String) : Coro Unit := do
  awaitOp (.extractAppZip name)
  sendOnAppsUpdate
  awaitOp (.unlinkZip name)
  renderDockerComposeTemplate name
  dockerCreateAppContainers name
  writeTraefikDynConfig

/-- The `except Exception` branch shared by the installing tasks. -/
def failInstallation (name : String) (e : Exn) : Coro Unit := do
  updateAppStatus name .error
  awaitOp (.onAppInstallError e name)

def installAppFromStore (name : String) : Coro Unit := do
  let installedApp ← getAppFromDb name
  assertAppStatus installedApp .installationQueued
  updateAppStatus name .installing
  exceptException
    (do
      downloadAppZip name
      installAppFromZip name
      updateAppStatus name .stopped)
    (failInstallation name)

def installAppFromExistingZip (name : String) : Coro Unit := do
  let installedApp ← getAppFromDb name
  assertAppStatus installedApp .installationQueued
  updateAppStatus name .installing
  exceptException
    (do
      installAppFromZip name
      updateAppStatus name .stopped)
    (failInstallation name)

/-- The first `try` of `_uninstall_app`: only a `KeyError` is handled. -/
def markUninstalling (name : String) : Coro Unit :=
  tryCatch
    (do
      let installedApp ← getAppFromDb name
      -- unfreeze while the status still says PAUSED
      onlyIf (installedApp.status = .paused) (dockerUnpauseApp name)
      updateAppStatus name .uninstalling)
    fun e =>
      match e with
      | .keyError _ => pure ()
      | e => throw e

def uninstallApp (name : String) : Coro Unit :=
  withAppOpLock name do
    markUninstalling name
    exceptException
      (do
        dockerStopApp name true
        dockerShutdownApp name true false)
      fun _ => pure ()
    awaitOp (.rmtree name)
    awaitOp (.remove name)
    writeTraefikDynConfig
    sendOnAppsUpdate

def reinstallApp (name : String) : Coro Unit := do
  let installedApp ← getAppFromDb name
  assertAppStatus installedApp .reinstallationQueued
  updateAppStatus name .reinstalling
  exceptException
    (do
      dockerStopApp name false
      dockerShutdownApp name false false)
    fun _ => pure ()
  awaitOp (.rmtree name)
  exceptException
    (do
      downloadAppZip name
      installAppFromZip name
      updateAppStatus name .stopped)
    (failInstallation name)

/-- The dispatch of `InstallationWorker._run`. -/
def process (task : InstallationTask) : Coro Unit :=
  match task.taskType with
  | .installFromStore => installAppFromStore task.appName
  | .installFromZip => installAppFromExistingZip task.appName
  | .uninstall => uninstallApp task.appName
  | .reinstall => reinstallApp task.appName

/-- The `try` statement of `InstallationWorker._run`. -/
def processCurrent (task : InstallationTask) : Coro Unit :=
  (exceptException (process task) fun _ => pure ()).tryFinally (awaitOp .taskDone)

/-- The first `n` iterations of `InstallationWorker._run`. The source loops for ever; a finite run
of it is a run of some `n`. -/
def run : ℕ → Coro Unit
  | 0 => pure ()
  | n + 1 => do
    let task : InstallationTask ← awaitOp .dequeue
    processCurrent task
    run n

end Worker

/-! ## The requests of `__init__.py` -/

def enqueue (name : String) (taskType : TaskType) : Coro Unit :=
  awaitOp (.enqueue ⟨name, taskType⟩)

def insertQueued (name : String) (reason : InstallationReason) : Coro Unit :=
  awaitOp (.insert ⟨name, reason, .installationQueued, none⟩)

def installAppFromStore (name : String) (reason : InstallationReason) : Coro Unit := do
  let inStore ← appExistsInStore name
  raiseUnless (inStore = true) (.appDoesNotExist name)
  let inDb ← appExistsInDb name
  raiseUnless (inDb = false) (.appAlreadyInstalled name)
  insertQueued name reason
  enqueue name .installFromStore
  sendOnAppsUpdate

def installAppFromUploadedZip (name : String) (zip : AppArchive) (reason : InstallationReason) :
    Coro Unit := do
  let inDb ← appExistsInDb name
  raiseUnless (inDb = false) (.appAlreadyInstalled name)
  awaitOp (.moveUploadedZip name zip)
  insertQueued name reason
  enqueue name .installFromZip
  sendOnAppsUpdate

def uninstallApp (name : String) : Coro Unit := do
  let inDb ← appExistsInDb name
  raiseUnless (inDb = true) (.appNotInstalled name)
  updateAppStatus name .uninstallationQueued
  enqueue name .uninstall
  sendOnAppsUpdate

def reinstallApp (name : String) : Coro Unit := do
  let inStore ← appExistsInStore name
  raiseUnless (inStore = true) (.appDoesNotExist name)
  let inDb ← appExistsInDb name
  raiseUnless (inDb = true) (.appNotInstalled name)
  updateAppStatus name .reinstallationQueued
  enqueue name .reinstall

/-- The statuses an unfinished uninstall leaves behind. -/
def interruptedStatus : List Status := [.uninstallationQueued, .uninstalling]

/-- `reconcile_interrupted_uninstalls`. -/
def reconcileInterruptedUninstalls : Coro Unit := do
  let allApps ← getAll
  allApps.forM fun app =>
    onlyIf (app.status ∈ interruptedStatus) (enqueue app.name .uninstall)

/-- `STORE_KEY_INITIAL_APPS_INSTALLED`. -/
def storeKeyInitialAppsInstalled : String := "initial_apps_installed"

/-- The `try` of `refresh_init_apps`: whether the flag is set, whatever its value. -/
def initialAppsInstalled : Coro Bool :=
  tryCatch
    (do
      let _ ← awaitOp (.getValue storeKeyInitialAppsInstalled)
      pure true)
    fun e =>
      match e with
      | .keyError _ => pure false
      | e => throw e

/-- `refresh_init_apps`; `configuredInitApps` are the configured apps in the order in which the set
of them is iterated. -/
def refreshInitApps (configuredInitApps : List String) : Coro Unit := do
  let installed ← initialAppsInstalled
  onlyIf (installed = false) do
    let allApps ← getAll
    let missing := configuredInitApps.dedup.filter fun name => name ∉ allApps.map (·.name)
    missing.forM fun name => installAppFromStore name .config
    awaitOp (.setValue storeKeyInitialAppsInstalled true)

/-- The steps of `lifespan` that touch the table and the queue before the worker is started. -/
def startup (configuredInitApps : List String) : Coro Unit := do
  reconcileInterruptedUninstalls
  refreshInitApps configuredInitApps

end Freeshard

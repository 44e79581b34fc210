import Freeshard.System.Operations

/-! # `service/app_tools.py`

Starting, pausing, stopping and shutting down one app. Each definition is the source function of
the same name, statement by statement. -/

namespace Freeshard
open Coroutine
set_option autoImplicit false

/-! ## Operations as coroutines -/

abbrev awaitOp (op : Op) : Coro (Ans op) := Prog.perform op

def getByName (name : String) : Coro (Option InstalledApp) := awaitOp (.getByName name)

def updateStatus (name : String) (status : Status) : Coro (Option InstalledApp) :=
  awaitOp (.updateStatus name status)

/-- `update_status` where the updated row is not looked at. -/
def writeStatus (name : String) (status : Status) : Coro Unit := do
  let _ ← updateStatus name status

/-- `signals.on_apps_update.send_async()`. -/
def sendOnAppsUpdate : Coro Unit := awaitOp .onAppsUpdate

/-- `subprocess(*_app_compose(name), …)`. -/
def compose (name : String) (cmd : ComposeCmd) : Coro Unit := awaitOp (.compose name cmd)

/-- `subprocess(*_app_compose(name), "ps", …, "-q")`, its lines as ids. -/
def composePs (name : String) (all : Bool) : Coro (List ℕ) :=
  awaitOp (.composePs name all)

def inspect (name : String) (ids : List ℕ) : Coro (List DockerState) :=
  awaitOp (.inspect name ids)

/-- `async with app_op_lock(name): body`. -/
def withAppOpLock {α : Type} (name : String) (body : Coro α) : Coro α := do
  awaitOp (.acquire name)
  body.tryFinally (awaitOp (.release name))

/-- `try: body except SubprocessError: handle`. -/
def exceptSubprocessError {α : Type} (body : Coro α) (handle : String → Coro α) : Coro α :=
  tryCatch body fun e =>
    match e with
    | .subprocessError text => handle text
    | e => throw e

/-- `try: body except Exception: handle`. -/
def exceptException {α : Type} (body : Coro α) (handle : Exn → Coro α) : Coro α :=
  tryCatch body fun e => if e.isException then handle e else throw e

/-- `if c: body`. -/
def onlyIf (c : Prop) [Decidable c] (body : Coro Unit) : Coro Unit := if c then body else pure ()

theorem onlyIf_pos {c : Prop} [Decidable c] (h : c) (body : Coro Unit) : onlyIf c body = body :=
  if_pos h

theorem onlyIf_neg {c : Prop} [Decidable c] (h : ¬c) (body : Coro Unit) :
    onlyIf c body = pure () := if_neg h

/-- `if not c: raise e`. -/
def raiseUnless (c : Prop) [Decidable c] (e : Exn) : Coro Unit :=
  if c then pure () else throw e

theorem raiseUnless_pos {c : Prop} [Decidable c] (h : c) (e : Exn) :
    raiseUnless c e = pure () := if_pos h

theorem raiseUnless_neg {c : Prop} [Decidable c] (h : ¬c) (e : Exn) :
    raiseUnless c e = throw e := if_neg h

/-- The status a lifecycle function reads: `app["status"] if app else None`. -/
def readStatus (name : String) : Coro (Option Status) := do
  let app ← getByName name
  return app.map (·.status)

/-! ## Queries and commands -/

def dockerCreateAppContainers (name : String) : Coro Unit := compose name .upNoStart

/-- Statuses a lifecycle revive may act on. -/
def revivableStatus : List Status := [.stopped, .running, .down, .paused]

def getAppContainerState (name : String) : Coro ContainerState :=
  exceptSubprocessError
    (do
      let ids ← composePs name true
      if ids.isEmpty then
        pure .missing
      else do
        let states ← inspect name ids
        pure (containerState states))
    fun _ => pure .missing

/-- `"network" in str(e) and "not found" in str(e)`. -/
def staleNetwork (text : String) : Bool :=
  hasText "network".toList text.toList && hasText "not found".toList text.toList

/-- `"Conflict" in str(e) and "already in use" in str(e)`. -/
def staleContainers (text : String) : Bool :=
  hasText "Conflict".toList text.toList && hasText "already in use".toList text.toList

/-- `compose up -d`, once more after `down` when the failure is a stale network or container. -/
def composeUp (name : String) : Coro Unit :=
  exceptSubprocessError (compose name .up) fun text =>
    if staleNetwork text then do
      compose name .down
      compose name .up
    else if staleContainers text then do
      compose name .down
      compose name .up
    else throw (.subprocessError text)

def doUnpause (name : String) : Coro Unit := compose name .unpause

def markRunning (name : String) : Coro Unit := do
  writeStatus name .running
  sendOnAppsUpdate

/-- `memory_pressure.reclaim_compose_stack`. -/
def reclaimComposeStack (name : String) : Coro Unit := do
  let ids ← composePs name false
  ids.forM fun id => awaitOp (.reclaimContainer id)

/-! ## Lifecycle functions -/

/-- The body of `start_app` once the op lock is held and the status is revivable. -/
def revive (name : String) (dbStatus : Option Status) : Coro Unit := do
  let state ← getAppContainerState name
  match state with
  | .running => onlyIf (dbStatus ≠ some .running) (markRunning name)
  | .paused => do
    exceptSubprocessError (doUnpause name) fun _ => composeUp name
    markRunning name
  | .exited | .missing => do
    composeUp name
    markRunning name

/-- `start_app` without its throttle. -/
def startAppUnthrottled (name : String) : Coro Unit :=
  withAppOpLock name do
    let dbStatus ← readStatus name
    onlyIf (dbStatus ∈ revivableStatus.map some) (revive name dbStatus)

/-- `start_app`, throttled per app name. -/
def startApp (name : String) : Coro Unit := do
  let passes : Bool ← awaitOp (.throttle name)
  onlyIf (passes = true) (startAppUnthrottled name)

def dockerPauseApp (name : String) : Coro Unit := do
  let appStatus ← readStatus name
  onlyIf (appStatus = some .running) do
    compose name .pause
    reclaimComposeStack name
    writeStatus name .paused
    sendOnAppsUpdate

def dockerUnpauseApp (name : String) : Coro Unit := do
  let appStatus ← readStatus name
  onlyIf (appStatus = some .paused) do
    doUnpause name
    markRunning name

/-- The statuses in which `docker_stop_app` stops an app. -/
def stoppableStatus : List Status := [.running, .paused, .uninstalling]

def dockerStopApp (name : String) (setStatus : Bool) : Coro Unit := do
  let appStatus ← readStatus name
  onlyIf (appStatus ∈ stoppableStatus.map some) do
    -- a frozen container cannot be stopped
    onlyIf (appStatus = some .paused) (compose name .unpause)
    compose name .stop
    onlyIf (setStatus = true) (writeStatus name .stopped)
    sendOnAppsUpdate

def dockerShutdownApp (name : String) (setStatus force : Bool) : Coro Unit := do
  let appStatus ← readStatus name
  onlyIf (force = true ∨ appStatus = some .stopped ∨ appStatus = some .uninstalling) do
    onlyIf (appStatus = some .paused) (compose name .unpause)
    compose name .down
    onlyIf (setStatus = true) (writeStatus name .down)
    sendOnAppsUpdate

end Freeshard

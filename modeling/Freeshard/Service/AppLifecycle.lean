import Freeshard.Coroutine.Execution
import Freeshard.Database.InstalledApps
import Mathlib.Algebra.Order.Ring.Rat
import Mathlib.Data.List.MinMax

/-! # The control tick

`control_apps` of `service/app_lifecycle.py`: what the time since the last access demands of each app, and under memory
pressure the demotion of one. An operation on an app is issued by calling it; what it then does is not part of the
tick. -/

namespace Freeshard.Lifecycle
open Coroutine
set_option autoImplicit false

/-! ## Operations -/

/-- The calls by which a tick acts on an app. -/
inductive Operation where
  | startApp (name : String)
  | dockerPauseApp (name : String)
  | dockerStopApp (name : String)
  deriving DecidableEq, Repr

inductive Op where
  | readMemoryPressure
  | getAll
  | getAppMetadata (name : String)
  | diskSpaceLow
  | sizeIsCompatible (size : VMSize)
  | now
  | lastAccessDict
  | issue (operation : Operation)
  deriving DecidableEq

@[reducible] def Ans : Op → Type
  | .readMemoryPressure => ℚ
  | .getAll => List InstalledApp
  | .getAppMetadata _ => AppMeta
  | .diskSpaceLow => Bool
  | .sizeIsCompatible _ => Bool
  | .now => ℚ
  | .lastAccessDict => String → Option ℚ
  | .issue _ => Unit

abbrev Answer (op : Op) : Type := Except Exn (Ans op)

abbrev Coro (α : Type) : Type := Prog Op Ans Exn α

abbrev awaitOp (op : Op) : Coro (Ans op) := Prog.perform op

def readMemoryPressure : Coro ℚ := awaitOp .readMemoryPressure

def getAll : Coro (List InstalledApp) := awaitOp .getAll

def getAppMetadata (name : String) : Coro AppMeta := awaitOp (.getAppMetadata name)

def diskSpaceLow : Coro Bool := awaitOp .diskSpaceLow

def sizeIsCompatible (size : VMSize) : Coro Bool := awaitOp (.sizeIsCompatible size)

def now : Coro ℚ := awaitOp .now

/-- `last_access_dict.get(name, 0.0)`. -/
def lastAccess (name : String) : Coro ℚ := do
  let dict ← awaitOp .lastAccessDict
  return (dict name).getD 0

def startApp (name : String) : Coro Unit := awaitOp (.issue (.startApp name))

def dockerPauseApp (name : String) : Coro Unit := awaitOp (.issue (.dockerPauseApp name))

def dockerStopApp (name : String) : Coro Unit := awaitOp (.issue (.dockerStopApp name))

/-! ## The tick -/

/-- `settings().apps.lifecycle`. -/
structure Settings where
  pauseEnabled : Bool
  psiThreshold : ℚ
  defaultIdleForPause : ℤ
  defaultIdleForStop : ℤ

/-- `RECENT_ACCESS_GRACE`. -/
def recentAccessGrace : ℚ := 5

variable (settings : Settings)

/-- `_control_app_time`. -/
def controlAppTime (pauseEnabled : Bool) (app : InstalledApp) : Coro Unit := do
  let appMeta ← getAppMetadata app.name
  if ← diskSpaceLow then dockerStopApp app.name
  else if appMeta.lifecycle.alwaysOn then
    if app.status ≠ .running then
      if ← sizeIsCompatible appMeta.minimumPortalSize then startApp app.name
  else do
    let idle := (← now) - (← lastAccess app.name)
    let t₂ := appMeta.lifecycle.idleForStop.getD settings.defaultIdleForStop
    if pauseEnabled = false ∨ appMeta.lifecycle.skipPause then
      if app.status = .running ∧ t₂ ≤ idle then dockerStopApp app.name
    else do
      let t₁ := appMeta.lifecycle.idleForPause.getD settings.defaultIdleForPause
      if app.status = .running ∧ t₁ ≤ idle then dockerPauseApp app.name
      else if app.status = .paused ∧ t₂ ≤ idle then dockerStopApp app.name

/-- The loop of `_demote_lru`: the running and the paused apps that may be demoted. -/
def demotable : List InstalledApp → Coro (List InstalledApp × List InstalledApp)
  | [] => return ([], [])
  | app :: apps => do
    let appMeta ← getAppMetadata app.name
    if appMeta.lifecycle.alwaysOn then demotable apps
    else if (← now) - (← lastAccess app.name) ≤ recentAccessGrace then demotable apps
    else do
      let (running, paused) ← demotable apps
      if app.status = .running then return (app :: running, paused)
      else if app.status = .paused then return (running, app :: paused)
      else return (running, paused)

/-- `lru`: the first of the candidates with the least last access. -/
def lru (dict : String → Option ℚ) (candidates : List InstalledApp) : Option InstalledApp :=
  candidates.argmin fun app => (dict app.name).getD 0

/-- `_demote_lru`. -/
def demoteLru (apps : List InstalledApp) : Coro Unit := do
  let (running, paused) ← demotable apps
  let dict ← awaitOp .lastAccessDict
  match lru dict running, lru dict paused with
  | some victim, _ => do
    let appMeta ← getAppMetadata victim.name
    if appMeta.lifecycle.skipPause then dockerStopApp victim.name else dockerPauseApp victim.name
  | none, some victim => dockerStopApp victim.name
  | none, none => return ()

/-- How a coroutine ends. -/
def attempt {α : Type} (p : Coro α) : Coro (Except Exn α) :=
  tryCatch (Except.ok <$> p) fun e => return .error e

/-- `asyncio.gather` without `return_exceptions`: all of them are run, and then the first exception is raised. The
tasks of a tick have nothing to do with each other, so they are run one after the other. -/
def gather : List (Coro Unit) → Coro Unit
  | [] => return ()
  | p :: ps => do
    let first ← attempt p
    let others ← attempt (gather ps)
    match first, others with
    | .error e, _ => throw e
    | .ok _, .error e => throw e
    | .ok _, .ok _ => return ()

/-- The statuses a tick leaves alone. -/
def controlled (app : InstalledApp) : Bool :=
  app.status ≠ .installationQueued ∧ app.status ≠ .installing

/-- The time-based step. -/
def timeBasedStep (pauseEnabled : Bool) (apps : List InstalledApp) : Coro Unit :=
  gather (apps.map (controlAppTime settings pauseEnabled))

/-- `control_apps`. -/
def controlApps : Coro Unit := do
  let psi ← if settings.pauseEnabled then readMemoryPressure else pure 0
  let pressureHigh := settings.pauseEnabled ∧ settings.psiThreshold < psi
  let allApps ← getAll
  let installedApps := allApps.filter controlled
  timeBasedStep settings settings.pauseEnabled installedApps
  if pressureHigh then demoteLru installedApps

/-! ## What the operations do -/

/-- What a tick finds. -/
structure World where
  installedApps : InstalledApps
  /-- What `get_app_metadata` answers. -/
  appMetadata : String → Except Exn AppMeta
  psi : ℚ
  clock : ℚ
  lastAccessDict : String → Option ℚ := fun _ => none
  diskSpaceLow : Bool := false
  /-- The machine size of the profile, if one has been stored and is not `None`. -/
  profile : Option (Option VMSize) := none

/-- `size_is_compatible`. -/
def World.sizeIsCompatible (w : World) (size : VMSize) : Bool :=
  w.profile.any fun vmSize => vmSize.all fun vm => decide (size.index ≤ vm.index)

/-- An operation that is issued is added to the list of those issued before; the others read. -/
def World.effect (w : World) (issued : List Operation) : (op : Op) → Answer op × List Operation
  | .readMemoryPressure => (.ok w.psi, issued)
  | .getAll => (.ok w.installedApps.rows, issued)
  | .getAppMetadata name => (w.appMetadata name, issued)
  | .diskSpaceLow => (.ok w.diskSpaceLow, issued)
  | .sizeIsCompatible size => (.ok (w.sizeIsCompatible size), issued)
  | .now => (.ok w.clock, issued)
  | .lastAccessDict => (.ok w.lastAccessDict, issued)
  | .issue operation => (.ok (), issued ++ [operation])

/-- The operations that a coroutine issues. -/
def World.issues {α : Type} (w : World) (p : Coro α) : List Operation := (p.eval w.effect []).2

end Freeshard.Lifecycle

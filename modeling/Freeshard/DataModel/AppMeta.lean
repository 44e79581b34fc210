import Mathlib.Data.Int.Notation
import Mathlib.Data.List.Nodup
import Mathlib.Data.Rat.Init
import Mathlib.Tactic.Common

/-! # Apps as the database and the installation directory know them

`data_model/app_meta.py`: the status column, the installed-app record, and what reading an
`app_meta.json` yields. -/

namespace Freeshard
set_option autoImplicit false

/-- `Status`, the values of `installed_apps.status`. -/
inductive Status where
  | unknown
  | installationQueued
  | installing
  | stopped
  | running
  | paused
  | uninstallationQueued
  | uninstalling
  | reinstallationQueued
  | reinstalling
  | down
  | error
  deriving DecidableEq, Repr

def Status.value : Status → String
  | .unknown => "unknown"
  | .installationQueued => "installation_queued"
  | .installing => "installing"
  | .stopped => "stopped"
  | .running => "running"
  | .paused => "paused"
  | .uninstallationQueued => "uninstallation_queued"
  | .uninstalling => "uninstalling"
  | .reinstallationQueued => "reinstallation_queued"
  | .reinstalling => "reinstalling"
  | .down => "down"
  | .error => "error"

inductive InstallationReason where
  | unknown
  | config
  | custom
  | store
  deriving DecidableEq, Repr

/-- `InstalledApp`, a row of `installed_apps`. -/
structure InstalledApp where
  name : String
  installationReason : InstallationReason := .unknown
  status : Status := .unknown
  lastAccess : Option ℚ := none
  deriving DecidableEq, Repr

/-! ## App metadata -/

/-- Who may use a path of an app. -/
inductive Access where
  | PUBLIC
  | PRIVATE
  | PEER
  deriving DecidableEq, Repr

structure Path where
  access : Access
  headers : Option (List (String × String)) := none
  deriving DecidableEq, Repr

inductive VMSize where
  | xs
  | s
  | m
  | l
  | xl
  deriving DecidableEq, Repr

/-- `_index`, by which sizes are compared. -/
def VMSize.index : VMSize → ℕ
  | .xs => 0
  | .s => 1
  | .m => 2
  | .l => 3
  | .xl => 4

/-- `Lifecycle`; `none` stands for the global default. -/
structure Lifecycle where
  alwaysOn : Bool := false
  skipPause : Bool := false
  idleForPause : Option ℤ := none
  idleForStop : Option ℤ := none
  validate_combinations :
    (alwaysOn = true → skipPause = false ∧ idleForPause = none ∧ idleForStop = none) ∧
    (skipPause = true → idleForPause = none) ∧ (∀ t ∈ idleForPause, 5 ≤ t) ∧
    (∀ t ∈ idleForStop, 5 ≤ t) ∧ (∀ t₁ ∈ idleForPause, ∀ t₂ ∈ idleForStop, t₁ < t₂) := by decide
  deriving DecidableEq, Repr

/-- The ports at which traefik takes in traffic for apps. -/
inductive EntrypointPort where
  | HTTPS_443
  | MQTTS_1883
  deriving DecidableEq, Repr

def EntrypointPort.value : EntrypointPort → String
  | .HTTPS_443 => "http"
  | .MQTTS_1883 => "mqtt"

structure Entrypoint where
  containerName : String
  containerPort : ℤ
  entrypointPort : EntrypointPort
  deriving DecidableEq, Repr

/-- The part of `AppMeta` that is read after validation. The keys of `paths` are distinct. -/
structure AppMeta where
  name : String
  entrypoints : List Entrypoint := []
  paths : List (String × Path) := []
  paths_nodup : (paths.map (·.1)).Nodup := by decide
  lifecycle : Lifecycle := {}
  minimumPortalSize : VMSize := .xs
  deriving DecidableEq, Repr

/-- An app without paths. -/
def AppMeta.named (name : String) : AppMeta := { name }

/-! ## Exceptions -/

/-- The exceptions the modelled code raises or handles by type. `cancelled` is asyncio's
`CancelledError`, the one that is not an `Exception`. -/
inductive Exn where
  | cancelled
  | keyError (key : String)
  | subprocessError (text : String)
  | composeFileNotFound (name : String)
  | composeProjectNotAllowed (name : String)
  | metadataNotFound (name : String)
  | validationError (text : String)
  | appInIllegalStatus (name : String) (found : Status)
  | appDoesNotExist (name : String)
  | appAlreadyInstalled (name : String)
  | appNotInstalled (name : String)
  | invalidAppZip (name : String)
  | uniqueViolation (name : String)
  | fileNotFound (path : String)
  | other (text : String)
  deriving DecidableEq, Repr

/-- Whether `except Exception` catches it. -/
def Exn.isException : Exn → Bool
  | .cancelled => false
  | _ => true

/-! ## The app directory -/

/-- How `AppMeta.model_validate` fails. Pydantic wraps only `ValueError`s: the migration's
`migrations[values["v"]]` surfaces as a `KeyError`. -/
inductive Rejection where
  | keyError (key : String)
  | validationError (text : String)
  | other (text : String)
  deriving DecidableEq, Repr

def Rejection.toExn : Rejection → Exn
  | .keyError key => .keyError key
  | .validationError text => .validationError text
  | .other text => .other text

theorem Rejection.toExn_isException (reason : Rejection) : reason.toExn.isException = true := by
  cases reason <;> rfl

/-- An `app_meta.json`: not JSON at all, JSON that fails validation, or a valid one. -/
inductive AppMetaFile where
  | malformed
  | rejected (reason : Rejection)
  | accepted (appMeta : AppMeta)
  deriving DecidableEq, Repr

/-- The members of an app archive that the core reads. -/
structure AppArchive where
  appMeta : Option AppMetaFile
  template : Bool
  compose : Bool
  deriving DecidableEq, Repr

/-- A directory `installed_apps/<name>`. -/
structure AppDir where
  zip : Option AppArchive := none
  appMeta : Option AppMetaFile := none
  template : Bool := false
  compose : Bool := false
  deriving DecidableEq, Repr

/-! ## Containers -/

/-- `State.Status` of a container as `docker inspect` prints it. -/
inductive DockerState where
  | created
  | running
  | paused
  | restarting
  | removing
  | exited
  | dead
  deriving DecidableEq, Repr

/-- Its processes exist. -/
def DockerState.live : DockerState → Bool
  | .running => true
  | .paused => true
  | _ => false

structure Container where
  id : ℕ
  state : DockerState
  deriving DecidableEq, Repr

/-- The containers of one compose project. -/
structure Stack where
  containers : List Container
  nodup : (containers.map (·.id)).Nodup
  deriving DecidableEq, Repr

/-- `ContainerState` of `app_tools.py`. -/
inductive ContainerState where
  | running
  | paused
  | exited
  | missing
  deriving DecidableEq, Repr

/-- What `get_app_container_state` makes of the inspected states. -/
def containerState (states : List DockerState) : ContainerState :=
  if states.any (· == .paused) then .paused
  else if !states.isEmpty && states.all (· == .running) then .running
  else .exited

namespace Stack

def empty : Stack := ⟨[], List.nodup_nil⟩

/-- One container. -/
def single (state : DockerState) : Stack := ⟨[⟨0, state⟩], List.nodup_singleton _⟩

def states (s : Stack) : List DockerState := s.containers.map (·.state)

/-- The real state of a stack: `missing` without any container. -/
def state (s : Stack) : ContainerState :=
  if s.containers.isEmpty then .missing else containerState s.states

/-- Some container is paused. -/
def frozen (s : Stack) : Bool := s.states.any (· == .paused)

/-- Some container is running or paused. -/
def live (s : Stack) : Bool := s.states.any DockerState.live

/-- Every container changes its state by `f`. -/
def mapState (s : Stack) (f : DockerState → DockerState) : Stack where
  containers := s.containers.map fun c => { c with state := f c.state }
  nodup := by
    rw [List.map_map]
    exact s.nodup

@[simp] theorem states_mapState (s : Stack) (f : DockerState → DockerState) :
    (s.mapState f).states = s.states.map f := by
  simp [states, mapState]

theorem state_eq (s : Stack) :
    s.state = if s.states = [] then .missing else containerState s.states := by
  simp [state, states]

end Stack
end Freeshard

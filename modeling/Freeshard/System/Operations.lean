import Freeshard.Coroutine.Execution
import Freeshard.Coroutine.Outline
import Freeshard.System.World

/-! # The operations the services await, and what they do

Every effect of a service function is one operation `Op`: a `db_conn` block, a compose command, a
lock or queue access, a file access. Operations take effect atomically and other coroutines may run
between any two of them, which covers every interleaving at the `await`s of the source; logging and
the telemetry counters of `pause_metrics` have no operation.

`effect` is what an undisturbed operation does; `exec` adds the environment's `Choice`: the daemon's
answer to a compose command, a clock reading, or an exception that surfaces before or after the
effect. An `Env` says which choices a run allows.
-/

namespace Freeshard
open Coroutine
set_option autoImplicit false

/-- The state-changing compose subcommands. -/
inductive ComposeCmd where
  | up
  | upNoStart
  | pause
  | unpause
  | stop
  | down
  deriving DecidableEq, Repr

inductive Op where
  -- `database/installed_apps.py` and `database/identities.py`, each in a `db_conn` block
  | getAll
  | getByName (name : String)
  | contains (name : String)
  | insert (app : InstalledApp)
  | updateStatus (name : String) (status : Status)
  | remove (name : String)
  | getDefaultIdentity
  -- `database.get_value` and `database.set_value` of a flag
  | getValue (key : String)
  | setValue (key : String) (value : Bool)
  -- `signals.on_apps_update.send_async`, `signals.on_app_install_error.send`
  | onAppsUpdate
  | onAppInstallError (e : Exn) (name : String)
  -- `app_op_lock(name)`
  | acquire (name : String)
  | release (name : String)
  -- `subprocess(*_app_compose(name), …)` and `docker inspect`
  | compose (name : String) (cmd : ComposeCmd)
  | composePs (name : String) (all : Bool)
  | inspect (name : String) (ids : List ℕ)
  | reclaimContainer (id : ℕ)
  -- `throttle(5)` of `start_app`
  | throttle (name : String)
  -- `InstallationWorker._task_queue` and `current_task`
  | enqueue (task : InstallationTask)
  | dequeue
  | taskDone
  -- the app's directory, the app store and `traefik_dyn.yml`
  | rmtree (name : String)
  | moveUploadedZip (name : String) (zip : AppArchive)
  | downloadAppZip (name : String)
  | extractAppZip (name : String)
  | unlinkZip (name : String)
  | renderTemplate (name : String)
  | getAppMetadata (name : String)
  | appExistsInStore (name : String)
  | writeTraefikDyn (apps : List (InstalledApp × AppMeta))
  deriving DecidableEq, Repr

@[reducible] def Ans : Op → Type
  | .getAll => List InstalledApp
  | .getByName _ => Option InstalledApp
  | .contains _ => Bool
  | .updateStatus _ _ => Option InstalledApp
  | .getDefaultIdentity => Option String
  | .getValue _ => Bool
  | .composePs _ _ => List ℕ
  | .inspect _ _ => List DockerState
  | .throttle _ => Bool
  | .dequeue => InstallationTask
  | .getAppMetadata _ => AppMeta
  | .appExistsInStore _ => Bool
  | _ => Unit

/-- The coroutines of the services. -/
abbrev Coro := Prog Op Ans Exn

/-- The answer of an operation. -/
abbrev Answer (op : Op) := Except Exn (Ans op)

/-! ## Undisturbed effects -/

namespace World

/-- `docker compose ps -q`, with `-a` if `all`: without it only containers that are up. -/
def containerIds (w : World) (project : String) (all : Bool) : List ℕ :=
  ((w.projects project).containers.filter fun c => all || c.state == .running || c.state == .paused).map (·.id)

/-- `docker inspect` of containers of the app; fails if one of them is gone. -/
def inspectStates (w : World) (name : String) (ids : List ℕ) : Option (List DockerState) :=
  ids.mapM fun id => ((w.stack name).containers.find? (·.id == id)).map (·.state)

/-- The effect of an operation that nothing disturbs, performed by call `i`. `none` means that it
blocks (a held lock, an empty queue) or that the environment has to answer it. -/
def effect (i : Call) (w : World) : (op : Op) → Option (Answer op × World)
  | .getAll => some (.ok w.installedApps.rows, w)
  | .getByName name => some (.ok (w.installedApps.getByName name), w)
  | .contains name => some (.ok (w.installedApps.contains name), w)
  | .insert app =>
    match w.installedApps.insert app with
    | some apps => some (.ok (), { w with installedApps := apps })
    | none => some (.error (.uniqueViolation app.name), w)
  | .updateStatus name status =>
    some (.ok ((w.setStatus name status).installedApps.getByName name), w.setStatus name status)
  | .remove name => some (.ok (), { w with installedApps := w.installedApps.remove name })
  | .getDefaultIdentity => some (.ok w.defaultIdentity, w)
  | .getValue key =>
    match w.kvStore key with
    | some value => some (.ok value, w)
    | none => some (.error (.keyError key), w)
  | .setValue key value =>
    some (.ok (), { w with kvStore := Function.update w.kvStore key (some value) })
  | .onAppsUpdate => some (w.sendAppsUpdate.map fun _ => (), w)
  | .onAppInstallError _ _ => some (.ok (), w)
  | .acquire name => if w.opLocks name = none then some (.ok (), w.setLock name (some i)) else none
  | .release name => if w.opLocks name = some i then some (.ok (), w.setLock name none) else none
  | .compose name _ =>
    match w.appCompose name with
    | .error e => some (.error e, w)
    | .ok _ => none
  | .composePs name all =>
    match w.appCompose name with
    | .error e => some (.error e, w)
    | .ok c => some (.ok (w.containerIds c.project all), w)
  | .inspect name ids =>
    match w.inspectStates name ids with
    | some states => some (.ok states, w)
    | none => some (.error (.subprocessError "no such object"), w)
  | .reclaimContainer _ => some (.ok (), w)
  | .throttle _ => none
  | .enqueue task => some (.ok (), { w with taskQueue := w.taskQueue ++ [task] })
  | .dequeue =>
    match w.taskQueue with
    | [] => none
    | task :: tasks => some (.ok task, { w with taskQueue := tasks, currentTask := some task })
  | .taskDone => some (.ok (), { w with currentTask := none })
  | .rmtree name => some (.ok (), w.setDir name none)
  | .moveUploadedZip name zip =>
    some (.ok (), w.setDir name (some { (w.appDirs name).getD {} with zip := some zip }))
  | .downloadAppZip name =>
    match w.appStore name with
    | none => some (.error (.appDoesNotExist name), w)
    | some zip =>
      some (.ok (), w.setDir name (some { (w.appDirs name).getD {} with zip := some zip }))
  | .extractAppZip name =>
    match w.appDirs name with
    | some { zip := some archive, template, compose, .. } =>
      match archive.appMeta with
      -- `_find_root`: an archive without an `app_meta.json`
      | none => some (.error (.invalidAppZip name), w)
      | some appMeta => some (.ok (), w.setDir name (some ⟨some archive, some appMeta,
          archive.template || template, archive.compose || compose⟩))
    | _ => some (.error (.fileNotFound name), w)
  | .unlinkZip name =>
    match w.appDirs name with
    | some { zip := some _, appMeta, template, compose } =>
      some (.ok (), w.setDir name (some ⟨none, appMeta, template, compose⟩))
    | _ => some (.error (.fileNotFound name), w)
  | .renderTemplate name =>
    match w.appDirs name with
    | some { zip, appMeta, template := true, .. } =>
      some (.ok (), w.setDir name (some ⟨zip, appMeta, true, true⟩))
    | _ => some (.error (.fileNotFound name), w)
  | .getAppMetadata name => some (w.getAppMetadata name, w)
  | .appExistsInStore name => some (.ok (w.appStore name).isSome, w)
  | .writeTraefikDyn apps => some (.ok (), { w with traefikDyn := apps })

end World

/-! ## The environment -/

/-- The directory a file operation works on. -/
def Op.appDir : Op → Option String
  | .rmtree name => some name
  | .moveUploadedZip name _ => some name
  | .downloadAppZip name => some name
  | .extractAppZip name => some name
  | .unlinkZip name => some name
  | .renderTemplate name => some name
  | _ => none

inductive Choice where
  /-- The operation takes effect and answers. -/
  | proceed
  /-- An exception surfaces and the operation has no effect. -/
  | raise (e : Exn)
  /-- The operation takes effect, then an exception surfaces. -/
  | proceedRaise (e : Exn)
  /-- Docker runs the command, exits with success or with an error text, and leaves this stack. -/
  | docker (exit : Except String Unit) (stack : Stack)
  /-- What `time.time()` reads. -/
  | clock (now : ℚ)
  /-- A file operation fails half-way and leaves this directory behind. -/
  | leaves (dir : Option AppDir) (e : Exn)
  deriving DecidableEq

namespace World

/-- One operation of call `i` under a choice of the environment; `none` if the choice does not fit
or the operation blocks. -/
def exec (i : Call) (w : World) (op : Op) : Choice → Option (Answer op × World)
  | .proceed => w.effect i op
  | .raise e => some (.error e, w)
  | .proceedRaise e => (w.effect i op).map fun rw => (.error e, rw.2)
  | .docker exit stack =>
    match op with
    | .compose name _ =>
      match w.appCompose name with
      | .ok c => some (exit.mapError .subprocessError, w.setStack c.project stack)
      | .error _ => none
    | _ => none
  | .clock now =>
    match op with
    | .throttle name =>
      -- `prev is None or prev + min_duration < time.time()`
      if (w.lastStart name).all fun prev => decide (prev + 5 < now) then
        some (.ok true, { w with lastStart := Function.update w.lastStart name (some now) })
      else some (.ok false, w)
    | _ => none
  | .leaves dir e =>
    match op with
    -- `ignore_errors=True`
    | .rmtree name => some (.ok (), w.setDir name dir)
    | op => op.appDir.map fun name => (.error e, w.setDir name dir)

end World

/-- One performed operation and the world it was performed in. -/
structure Event where
  call : Call
  op : Op
  answer : Answer op
  before : World

/-- The world and what has been performed so far, latest first. -/
structure State where
  world : World
  log : List Event := []

/-- The state after call `i` has performed `op`. -/
abbrev State.next (s : State) (i : Call) (op : Op) (r : Answer op) (w' : World) : State :=
  ⟨w', ⟨i, op, r, s.world⟩ :: s.log⟩

/-- Which choices the environment may make. -/
abbrev Env := State → Call → Op → Choice → Prop

/-- The environment without restrictions. -/
def Env.any : Env := fun _ _ _ _ => True

/-- The transition relation: what an operation of call `i` may answer and leave. -/
def Act (E : Env) (i : Call) (s : State) (op : Op) (r : Answer op) (s' : State) : Prop :=
  ∃ c w', E s i op c ∧ s.world.exec i op c = some (r, w') ∧ s' = s.next i op r w'

end Freeshard

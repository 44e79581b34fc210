import Freeshard.Coroutine.TaskRuns
import Freeshard.Posix.Path
import Freeshard.Sql.Table
import Freeshard.Util.Whitespace

/-! # Backups

`service/backup.py`: `start_backup`, the task that it creates, which backs up one directory after the other under a
lock, and the callback of that task. Any number of them may be in flight, and anything that is awaited may fail. -/

namespace Freeshard.Backup
open Coroutine Posix
open Sql (Json)
set_option autoImplicit false

/-! ## Data -/

/-- Times are microseconds since the epoch. -/
structure BackupStats where
  directory : String
  startTime : ℤ
  endTime : ℤ
  rcloneStats : List (String × Json)

structure BackupReport where
  directories : List BackupStats
  startTime : ℤ
  endTime : ℤ

structure SasUrlResponse where
  containerName : String
  sasUrl : String
  deriving DecidableEq, Repr

/-- `path_root` and `services.backup.directories`. -/
structure Settings where
  pathRoot : Posix.Path
  directories : List String

/-- The directories to back up. -/
def Settings.paths (settings : Settings) : List Posix.Path :=
  settings.directories.map fun d => settings.pathRoot.join (Posix.Path.parse d)

/-- What is left of a process. -/
structure Completed where
  returncode : ℤ
  stderr : String
  deriving DecidableEq, Repr

inductive Exn where
  | cancelled
  | httpError (text : String)
  | backupStartFailed (text : String)
  | backupInProgress
  | backupFailed (text : String)
  | jsonDecode
  | index
  | key (key : String)
  | type (text : String)
  | value (text : String)
  | validation
  | other (text : String)
  deriving DecidableEq, Repr

/-! ## The command -/

/-- `COMMAND_TEMPLATE.format`. -/
def command (sasToken obscuredPassword containerName directory : String) : String :=
  s!"\nrclone\n--azureblob-sas-url {sasToken}\n--crypt-password {obscuredPassword}\n" ++
  s!"--crypt-remote :azureblob:{containerName}\nsync {directory} :crypt:{containerName}/{directory}\n" ++
  "--create-empty-src-dirs --stats-log-level NOTICE --stats 1000m --use-json-log\n--fast-list\n"

/-- The arguments that `rclone` is executed with. -/
def arguments (sasToken obscuredPassword containerName directory : String) : List String :=
  Text.split (command sasToken obscuredPassword containerName directory)

/-- `stderr.decode().split("\n")[-2]`. -/
def lastEntry (stderr : String) : Except Exn String :=
  match ((stderr.toList.splitOn '\n').dropLast).getLast? with
  | some entry => .ok (String.ofList entry)
  | none => .error .index

/-- `rclone_result["stats"]`. -/
def statsOf : Json → Except Exn Json
  | .object members =>
    match members.lookup "stats" with
    | some stats => .ok stats
    | none => .error (.key "stats")
  | .array _ => .error (.type "list indices must be integers or slices, not str")
  | .string _ => .error (.type "string indices must be integers, not 'str'")
  | _ => .error (.type "object is not subscriptable")

/-- What is read off the log of `rclone`; `loads` is `json.loads`. -/
def readStats (loads : String → Except Exn Json) (stderr : String) : Except Exn Json := do
  let entry ← lastEntry stderr
  let rcloneResult ← loads entry
  statsOf rcloneResult

/-! ## Operations -/

inductive Op where
  -- `BACKUP_IN_PROGESS_LOCK`
  | locked
  | acquire
  | release
  -- `get_backup_sas_url` and `asyncio.create_task`
  | getBackupSasUrl
  | createTask (response : SasUrlResponse)
  -- `write_db_snapshot` and `get_value(STORE_KEY_BACKUP_PASSPHRASE)`
  | writeDbSnapshot
  | getPassphrase
  -- `subprocess.run(["rclone", "obscure", passphrase])`
  | obscure (passphrase : String)
  | isDir (directory : Posix.Path)
  -- `datetime.datetime.now(datetime.timezone.utc)`
  | now
  -- `asyncio.create_subprocess_exec` and `process.communicate`
  | createSubprocessExec (argv : List String)
  | communicate (argv : List String)
  -- `db_backups.insert` in a `db_conn` block
  | insert (report : BackupReport)
  -- `blob_client.upload_blob` of a time to `_last_backup`
  | uploadMarker (containerName sasToken : String) (timestamp : ℤ)
  -- `signals.on_backup_update.send`
  | send (error : Option Exn)

@[reducible] def Ans : Op → Type
  | .locked => Bool
  | .acquire => Unit
  | .release => Unit
  | .getBackupSasUrl => SasUrlResponse
  | .createTask _ => Unit
  | .writeDbSnapshot => Unit
  | .getPassphrase => String
  | .obscure _ => String
  | .isDir _ => Bool
  | .now => ℤ
  | .createSubprocessExec _ => Unit
  | .communicate _ => Completed
  | .insert _ => Unit
  | .uploadMarker _ _ _ => Unit
  | .send _ => Unit

abbrev Answer (op : Op) : Type := Except Exn (Ans op)

abbrev Coro (α : Type) : Type := Prog Op Ans Exn α

abbrev awaitOp (op : Op) : Coro (Ans op) := Prog.perform op

def isDir (directory : Posix.Path) : Coro Bool := awaitOp (.isDir directory)

def now : Coro ℤ := awaitOp .now

def ofExcept {α : Type} : Except Exn α → Coro α
  | .ok a => return a
  | .error e => throw e

/-! ## The service functions -/

variable (loads : String → Except Exn Json) (settings : Settings)

/-- `_get_obscured_passphrase`. -/
def getObscuredPassphrase : Coro String := do
  let passphrase ← awaitOp .getPassphrase
  let stdout ← awaitOp (.obscure passphrase)
  return Text.strip stdout

/-- `_get_relative_directory`. -/
def getRelativeDirectory (directory : Posix.Path) : Coro Posix.Path :=
  match directory.relativeTo settings.pathRoot with
  | some path => return path
  | none => throw (.value s!"'{directory.text}' is not in the subpath of '{settings.pathRoot.text}'")

/-- `_backup_directory`. -/
def backupDirectory (containerName relDirectory obscuredPassphrase sasToken : String) : Coro Json := do
  let argv := arguments sasToken obscuredPassphrase containerName relDirectory
  awaitOp (.createSubprocessExec argv)
  let process ← awaitOp (.communicate argv)
  if process.returncode ≠ 0 then
    throw (.backupFailed (Text.strip process.stderr))
  else
    ofExcept (readStats loads process.stderr)

/-- `BackupStats(...)`, whose `rclone_stats` has to be a dict. -/
def makeStats (directory : String) (startTime endTime : ℤ) : Json → Coro BackupStats
  | .object members => return ⟨directory, startTime, endTime, members⟩
  | _ => throw .validation

/-- The loop of `backup_directories`. -/
def backupEach (containerName obscuredPassphrase sasToken : String) :
    List Posix.Path → List BackupStats → Coro (List BackupStats)
  | [], dirStats => return dirStats
  | directory :: directories, dirStats => do
    if ← isDir directory then
      let startTime ← now
      let relDirectory ← getRelativeDirectory settings directory
      let rcloneStats ← backupDirectory loads containerName relDirectory.text obscuredPassphrase sasToken
      let endTime ← now
      let stats ← makeStats relDirectory.text startTime endTime rcloneStats
      backupEach containerName obscuredPassphrase sasToken directories (dirStats ++ [stats])
    else
      backupEach containerName obscuredPassphrase sasToken directories dirStats

/-- `_write_marker_blob`. -/
def writeMarkerBlob (containerName sasToken : String) : Coro Unit :=
  tryCatch (do
    let timestamp ← now
    awaitOp (.uploadMarker containerName sasToken timestamp)) fun _ => return ()

/-- What `backup_directories` does under the lock. -/
def backupLocked (directories : List Posix.Path) (containerName sasToken : String) : Coro Unit := do
  let overallStartTime ← now
  awaitOp .writeDbSnapshot
  let obscuredPassphrase ← getObscuredPassphrase
  let dirStats ← backupEach loads settings containerName obscuredPassphrase sasToken directories []
  let overallEndTime ← now
  awaitOp (.insert ⟨dirStats, overallStartTime, overallEndTime⟩)
  writeMarkerBlob containerName sasToken

/-- `backup_directories`. -/
def backupDirectories (directories : List Posix.Path) (containerName sasToken : String) : Coro Unit := do
  if ← awaitOp .locked then
    throw .backupInProgress
  else
    awaitOp .acquire
    (backupLocked loads settings directories containerName sasToken).tryFinally (awaitOp .release)

/-- `start_backup`. -/
def startBackup : Coro Unit := do
  if ← awaitOp .locked then
    throw (.backupStartFailed "Sync in progress, please try again later.")
  else
    let response ← tryCatch (awaitOp .getBackupSasUrl) fun
      | .httpError text => throw (.backupStartFailed s!"Failed to get SAS token: {text}")
      | e => throw e
    awaitOp (.createTask response)

/-- `on_task_done`, with what the task has ended in. -/
def onTaskDone : Except Exn Unit → Coro Unit
  | .error .cancelled => throw .cancelled
  | .error e => awaitOp (.send (some e))
  | .ok () => awaitOp (.send none)

/-! ## What the operations do -/

structure World where
  /-- `BACKUP_IN_PROGESS_LOCK.locked()`. -/
  locked : Bool := false
  /-- The time that has been read last. -/
  clock : ℤ := 0
  /-- The rows of `backups`, latest first. -/
  backups : List BackupReport := []
  /-- What the tasks have been created with. -/
  tasks : ℕ → Option SasUrlResponse := fun _ => none

/-- A call of `start_backup`, the task it creates, and the callback of that task. -/
inductive Task where
  | start (id : ℕ)
  | backup (id : ℕ)
  | onTaskDone (id : ℕ)
  deriving DecidableEq, Repr

/-- The operations that fail with an exception of their own, or of a cancellation. -/
def Op.fails : Op → Bool
  | .locked => false
  | .release => false
  | .createTask _ => false
  | .now => false
  | .send _ => false
  | _ => true

/-- What the environment makes of an operation. -/
inductive Choice where
  | proceed
  /-- The operation fails without effect. -/
  | raise (e : Exn)
  /-- The row is committed, then an exception surfaces. -/
  | commitRaise (e : Exn)
  /-- The controller grants access to a container. -/
  | grants (response : SasUrlResponse)
  | prints (text : String)
  | finds (directory : Bool)
  | reads (time : ℤ)
  | exits (process : Completed)

/-- One operation under a choice of the environment; `none` if it does not fit, or while the lock is waited for. The
clock may have been set back since it has been read last. -/
def World.exec (i : Task) (w : World) (op : Op) : Choice → Option (Answer op × World)
  | .raise e => if op.fails then some (.error e, w) else none
  | .proceed =>
    match op with
    | .locked => some (.ok w.locked, w)
    | .acquire => if w.locked then none else some (.ok (), { w with locked := true })
    | .release =>
      if w.locked then some (.ok (), { w with locked := false })
      else some (.error (.other "Lock is not acquired."), w)
    | .createTask response =>
      match i with
      | .start id => some (.ok (), { w with tasks := Function.update w.tasks id (some response) })
      | _ => none
    | .writeDbSnapshot => some (.ok (), w)
    | .createSubprocessExec _ => some (.ok (), w)
    | .insert report => some (.ok (), { w with backups := report :: w.backups })
    | .uploadMarker _ _ _ => some (.ok (), w)
    | .send _ => some (.ok (), w)
    | _ => none
  | .commitRaise e =>
    match op with
    | .insert report => some (.error e, { w with backups := report :: w.backups })
    | _ => none
  | .grants response =>
    match op with
    | .getBackupSasUrl => some (.ok response, w)
    | _ => none
  | .prints text =>
    match op with
    | .getPassphrase => some (.ok text, w)
    | .obscure _ => some (.ok text, w)
    | _ => none
  | .finds directory =>
    match op with
    | .isDir _ => some (.ok directory, w)
    | _ => none
  | .reads time =>
    match op with
    | .now => some (.ok time, { w with clock := time })
    | _ => none
  | .exits process =>
    match op with
    | .communicate _ => some (.ok process, w)
    | _ => none

/-- What an operation may answer and leave. -/
def Act (i : Task) (w : World) (op : Op) (r : Answer op) (w' : World) : Prop :=
  ∃ choice, w.exec i op choice = some (r, w')

/-! ## Tasks -/

abbrev Log : Type := List (Entry Op Ans Exn World Task)

abbrev State : Type := Recorded Op Ans Exn World Task

abbrev Loop : Type := Config Op Ans Exn State Task

/-- `start_backup` may be called at any time. It creates the task, and when the task is done its callback is called. -/
def create : Creation Op Ans Exn State Task := fun c i =>
  match i with
  | .start _ => some (startBackup)
  | .backup id => (c.state.world.tasks id).map fun response =>
      backupDirectories loads settings settings.paths response.containerName response.sasUrl
  | .onTaskDone id => (c.outcome (.backup id)).map onTaskDone

/-- From a world without a backup in progress on. -/
abbrev Runs (C : Condition Op Ans Exn World Task) (w : World) (c : Loop) : Prop :=
  Recorded.TaskRuns Act C (create loads settings) w c

/-- A run of a script. -/
theorem exists_run (C : Condition Op Ans Exn World Task) [∀ s i op, Decidable (C s i op)] (w : World)
    (turns : List (Turn Task Choice)) (F : Loop → Bool)
    (h : ((Config.idle ⟨w, []⟩).playTasks (Recorded.exec World.exec C) (create loads settings) turns).any F = true) :
    ∃ c, Runs loads settings C w c ∧ F c = true :=
  Recorded.TaskRuns.exists _ C _ (fun _ _ _ choice _ _ he => ⟨choice, he⟩) w turns F h

end Freeshard.Backup

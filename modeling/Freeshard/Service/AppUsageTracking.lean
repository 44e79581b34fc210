import Freeshard.Coroutine.TaskRuns
import Freeshard.Database.InstalledApps
import Freeshard.Service.AppUsageReporting

/-! # Tracking app usage

`track_currently_installed_apps` of `service/app_usage_reporting.py`, which a cron task calls every hour, next to
`report_app_usage` and to the installation worker, which adds and removes apps in between. -/

namespace Freeshard.UsageTracking
open AppUsage Calendar Coroutine
set_option autoImplicit false

inductive Op where
  /-- An operation of `report_app_usage`. -/
  | reporting (op : AppUsage.Op)
  -- `db_installed_apps.get_all` and `db_app_usage.insert` in a `db_conn` block each
  | getAll
  | insert (track : Track)
  /-- `datetime.utcnow()`. -/
  | utcnow
  -- what the installation worker does to the table
  | insertApp (app : InstalledApp)
  | removeApp (name : String)
  deriving DecidableEq

@[reducible] def Ans : Op → Type
  | .reporting op => AppUsage.Ans op
  | .getAll => List InstalledApp
  | .utcnow => DateTime
  | _ => Unit

abbrev Answer (op : Op) : Type := Except Exn (Ans op)

abbrev Coro (α : Type) : Type := Prog Op Ans Exn α

abbrev awaitOp (op : Op) : Coro (Ans op) := Prog.perform op

/-- `track_currently_installed_apps`. -/
def trackCurrentlyInstalledApps : Coro Unit := do
  let allApps ← awaitOp .getAll
  let timestamp ← awaitOp .utcnow
  awaitOp (.insert ⟨timestamp, allApps.map (·.name)⟩)

/-- A coroutine of `report_app_usage` as part of a task. -/
def reporting {α : Type} : AppUsage.Coro α → Coro α
  | .ret a => .ret a
  | .raise e => .raise e
  | .await op next => .await (.reporting op) fun (r : Answer (.reporting op)) => reporting (next r)

/-! ## What the operations do -/

structure World where
  installedApps : InstalledApps
  /-- The table `app_usage_tracks`. -/
  tracks : List Track

/-- `search_by_time_range`. -/
def World.searchByTimeRange (w : World) (start stop : DateTime) : List Track :=
  w.tracks.filter fun t => start.instant ≤ t.timestamp.instant ∧ t.timestamp.instant < stop.instant

/-- What an operation answers and leaves that needs nothing from outside. -/
def World.effect (w : World) : (op : Op) → Option (Answer op × World)
  | .getAll => some (.ok w.installedApps.rows, w)
  | .insert track => some (.ok (), { w with tracks := w.tracks ++ [track] })
  | .insertApp app =>
    match w.installedApps.insert app with
    | some installedApps => some (.ok (), { w with installedApps })
    | none => some (.error (.uniqueViolation app.name), w)
  | .removeApp name => some (.ok (), { w with installedApps := w.installedApps.remove name })
  | .reporting (.searchByTimeRange start stop) => some (.ok (w.searchByTimeRange start stop), w)
  | .reporting (.sleep _) => some (.ok (), w)
  | _ => none

inductive Choice where
  | proceed
  | clock (time : DateTime)
  | day (today : Date)
  | status (code : ℕ)
  /-- The operation fails without effect. -/
  | raise (e : Exn)
  /-- The operation takes effect, then an exception surfaces. -/
  | proceedRaise (e : Exn)

def World.exec (w : World) (op : Op) : Choice → Option (Answer op × World)
  | .proceed => w.effect op
  | .clock time =>
    match op with
    | .utcnow => some (.ok time, w)
    | _ => none
  | .day today =>
    match op with
    | .reporting .today => some (.ok today, w)
    | _ => none
  | .status code =>
    match op with
    | .reporting (.post _) => some (.ok code, w)
    | _ => none
  | .raise e => some (.error e, w)
  | .proceedRaise e => (w.effect op).map fun rw => (.error e, rw.2)

/-! ## Runs -/

inductive Task where
  | track (id : ℕ)
  | report (id : ℕ)
  | install (id : ℕ) (app : InstalledApp)
  | uninstall (id : ℕ) (name : String)
  deriving DecidableEq

def Task.program : Task → Coro Unit
  | .track _ => trackCurrentlyInstalledApps
  | .report _ => reporting reportAppUsage
  | .install _ app => awaitOp (.insertApp app)
  | .uninstall _ name => awaitOp (.removeApp name)

/-- What an operation may answer and leave. -/
def Act (_ : Task) (w : World) (op : Op) (r : Answer op) (w' : World) : Prop :=
  ∃ choice, w.exec op choice = some (r, w')

abbrev Log : Type := List (Entry Op Ans Exn World Task)

abbrev State : Type := Recorded Op Ans Exn World Task

/-- Trackings, reports, installations and removals, interleaved in any way. -/
abbrev Runs (w : World) (c : Config Op Ans Exn State Task) : Prop :=
  Recorded.Runs Act Recorded.anyway Task.program w c

/-- A run of a script. -/
theorem exists_run (w : World) (turns : List (Turn Task Choice)) (F : Config Op Ans Exn State Task → Bool)
    (h : ((Config.idle ⟨w, []⟩).play (Recorded.exec (fun _ => World.exec) Recorded.anyway)
      (turns.map (Turn.move Task.program))).any F = true) :
    ∃ c, Runs w c ∧ F c = true := by
  have hanswer (i : Task) (w : World) (op : Op) (choice : Choice) (r : Answer op) (w' : World)
      (he : w.exec op choice = some (r, w')) : Act i w op r w' := ⟨choice, he⟩
  obtain ⟨c, hrun, hF, -⟩ := Recorded.Runs.exists (fun _ => World.exec) Recorded.anyway Task.program
    hanswer w turns F h
  exact ⟨c, hrun, hF⟩

end Freeshard.UsageTracking

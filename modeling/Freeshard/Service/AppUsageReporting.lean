import Freeshard.Calendar.Gregorian
import Freeshard.Coroutine.Execution
import Freeshard.DataModel.AppMeta
import Freeshard.Util.PyDict

/-! # Reporting app usage

`report_app_usage` of `service/app_usage_reporting.py` and the query `search_by_time_range` of `database/app_usage.py`.
Timestamps and query bounds are points in time of one fixed time zone. -/

namespace Freeshard.AppUsage
open Calendar Coroutine
set_option autoImplicit false

/-- `AppUsageTrack`. -/
structure Track where
  timestamp : DateTime
  installedApps : List String
  deriving DecidableEq

/-- `AppUsageReport`. -/
structure Report where
  year : ℕ
  month : ℕ
  usage : PyDict ℕ
  deriving DecidableEq

inductive Op where
  /-- `date.today()`. -/
  | today
  | searchByTimeRange (start stop : DateTime)
  /-- `signed_request("POST", url, json=...)`, which answers with the status code. -/
  | post (report : Report)
  | sleep (seconds : ℕ)
  deriving DecidableEq

@[reducible] def Ans : Op → Type
  | .today => Date
  | .searchByTimeRange _ _ => List Track
  | .post _ => ℕ
  | .sleep _ => Unit

abbrev Answer (op : Op) : Type := Except Exn (Ans op)

abbrev Coro (α : Type) : Type := Prog Op Ans Exn α

abbrev awaitOp (op : Op) : Coro (Ans op) := Prog.perform op

/-! ## The report -/

/-- `start` and `end`. The first day of year 1 has no day before. -/
def reportedMonth (today : Date) : Except Exn (DateTime × DateTime) :=
  let firstDayOfCurrentMonth := today.firstOfMonth
  match firstDayOfCurrentMonth.yesterday with
  | some lastDayOfLastMonth => .ok (lastDayOfLastMonth.firstOfMonth.midnight, firstDayOfCurrentMonth.midnight)
  | none => .error (.other "OverflowError: date value out of range")

/-- One listing of an app. -/
def countListing (usage : PyDict ℕ) (app : String) : PyDict ℕ :=
  let usage := if usage.get app = none then usage.set app 0 else usage
  usage.set app ((usage.get app).getD 0 + 1)

/-- The loop over the tracks. -/
def usageOf (tracks : List Track) : PyDict ℕ :=
  tracks.foldl (fun usage t => t.installedApps.foldl countListing usage) .empty

/-- The attempts to send a report from the `i`-th on. -/
def send (report : Report) (i : ℕ) : (attempts : ℕ) → Coro Unit
  | 0 => return ()
  | attempts + 1 => do
    let statusCode : ℕ ← awaitOp (.post report)
    if statusCode = 409 then return ()
    else if 400 ≤ statusCode ∧ statusCode < 600 then do
      awaitOp (.sleep (i * 10))
      send report (i + 1) attempts
    else return ()

/-- `report_app_usage`. -/
def reportAppUsage : Coro Unit := do
  let today : Date ← awaitOp .today
  let (start, stop) ← match reportedMonth today with
    | .ok month => (pure month : Coro (DateTime × DateTime))
    | .error e => throw e
  let relevantTracks : List Track ← awaitOp (.searchByTimeRange start stop)
  if relevantTracks.isEmpty then return ()
  else send { year := start.date.year, month := start.date.month, usage := usageOf relevantTracks } 0 10

/-! ## What the operations do -/

/-- What a run finds; the answer to a request depends on how many have been sent before. -/
structure World where
  today : Date
  appUsageTracks : List Track
  respond : ℕ → Except Exn ℕ
  sleep : ℕ → Except Exn Unit := fun _ => .ok ()

/-- `timestamp >= start AND timestamp < end`. -/
def World.searchByTimeRange (w : World) (start stop : DateTime) : List Track :=
  w.appUsageTracks.filter fun t => start.instant ≤ t.timestamp.instant ∧ t.timestamp.instant < stop.instant

/-- A request is added to the reports that have been sent before. -/
def World.effect (w : World) (sent : List Report) : (op : Op) → Answer op × List Report
  | .today => (.ok w.today, sent)
  | .searchByTimeRange start stop => (.ok (w.searchByTimeRange start stop), sent)
  | .post report => (w.respond sent.length, sent ++ [report])
  | .sleep _ => (w.sleep sent.length, sent)

/-- The reports that a run sends. -/
def World.sent (w : World) : List Report := (reportAppUsage.eval w.effect []).2

end Freeshard.AppUsage

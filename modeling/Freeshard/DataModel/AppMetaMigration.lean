import Freeshard.DataModel.AppMeta
import Freeshard.Sql.Table
import Freeshard.Util.PyDict
import Freeshard.Util.Text

/-! # Migrations of app metadata

`data_model/app_meta_migration.py` and the loop of `AppMeta.migrate` that applies it, one version after the other. -/

namespace Freeshard
open Sql (Json)
set_option autoImplicit false

/-! ## JSON in Python -/

/-- An object of JSON that has been read. -/
abbrev Values : Type := PyDict Json

/-- Whether `bool(json)` holds. -/
def truthy : Json → Bool
  | .null => false
  | .bool b => b
  | .number n => n ≠ 0
  | .string s => s ≠ ""
  | .array elements => !elements.isEmpty
  | .object members => !members.isEmpty

/-- `values[key]`. -/
def Values.item (values : Values) (key : String) : Except Rejection Json :=
  match values.get key with
  | some value => .ok value
  | none => .error (.keyError key)

/-! ## The migrations -/

variable (unicode : CaseTables)

def migrate_1_0_to_1_1 (values : Values) : Except Rejection Values := do
  let values := values.set "v" (.string "1.1")
  match ← Values.item values "name" with
  | .string name => return values.set "pretty_name" (.string (unicode.title name))
  | _ => throw (.other "AttributeError: no attribute 'title'")

def migrate_1_1_to_1_2 (values : Values) : Except Rejection Values :=
  return values.set "v" (.string "1.2")

/-- `values.get("lifecycle") or {}`; what is no `dict` has no attribute `get`. -/
def lifecycleOf (values : Values) : Except Rejection Values :=
  match values.get "lifecycle" with
  | none => .ok .empty
  | some (.object members) => .ok (.ofPairs members)
  | some json => if truthy json then .error (.other "AttributeError: no attribute 'get'") else .ok .empty

def migrateLifecycle (lifecycle : Values) : Values :=
  if (lifecycle.get "always_on").any truthy then lifecycle
  else
    match lifecycle.get "idle_time_for_shutdown" with
    | none => lifecycle
    | some .null => lifecycle.pop "idle_time_for_shutdown"
    | some idleTimeForShutdown =>
      (lifecycle.pop "idle_time_for_shutdown").set "idle_for_pause" idleTimeForShutdown

def migrate_1_2_to_1_3 (values : Values) : Except Rejection Values := do
  let lifecycle := migrateLifecycle (← lifecycleOf values)
  let values := values.set "lifecycle" (.object lifecycle.entries)
  return values.set "v" (.string "1.3")

/-- A table of migration functions by the version they start from. -/
abbrev Migrations : Type := PyDict (Values → Except Rejection Values)

def migrations : Migrations where
  entries := [("1.0", migrate_1_0_to_1_1 unicode), ("1.1", migrate_1_1_to_1_2), ("1.2", migrate_1_2_to_1_3)]
  nodup := by
    change ["1.0", "1.1", "1.2"].Nodup
    decide

/-! ## The loop -/

/-- `CURRENT_VERSION`. -/
def currentVersion : String := "1.3"

/-- `values["v"] == CURRENT_VERSION`. -/
def isCurrent : Json → Bool
  | .string version => version = currentVersion
  | _ => false

/-- `migrations[version]`. -/
def Migrations.item (table : Migrations) : Json → Except Rejection (Values → Except Rejection Values)
  | .string version =>
    match table.get version with
    | some migrate => .ok migrate
    | none => .error (.keyError version)
  | .null => .error (.keyError "None")
  | .bool b => .error (.keyError (if b then "True" else "False"))
  | .number n => .error (.keyError (toString n))
  | _ => .error (.other "TypeError: unhashable type")

def stuck : Rejection :=
  .other "migration seems to be stuck, perhaps a migration does not increment the version number?"

/-- What one round of the loop comes to: its end, or the values for the next round. -/
inductive Round where
  | ends (outcome : Except Rejection Values)
  | again (values : Values)

/-- The condition and the body of the loop. -/
def round (table : Migrations) (migrationCount : ℕ) (values : Values) : Round :=
  match Values.item values "v" with
  | .error e => .ends (.error e)
  | .ok version =>
    if isCurrent version then .ends (.ok values)
    else if table.entries.length < migrationCount then .ends (.error stuck)
    else
      match table.item version >>= fun migrate => migrate values with
      | .ok values => .again values
      | .error e => .ends (.error e)

/-- The loop: `migration_count` at its end, and its outcome. -/
def migrateLoop (table : Migrations) : (fuel migrationCount : ℕ) → Values → Option (ℕ × Except Rejection Values)
  | 0, _, _ => none
  | fuel + 1, migrationCount, values =>
    match round table migrationCount values with
    | .ends outcome => some (migrationCount, outcome)
    | .again values => migrateLoop table fuel (migrationCount + 1) values

theorem migrateLoop_mono {table : Migrations} {fuel fuel' migrationCount : ℕ} {values : Values}
    {r : ℕ × Except Rejection Values} (h : migrateLoop table fuel migrationCount values = some r)
    (hle : fuel ≤ fuel') : migrateLoop table fuel' migrationCount values = some r := by
  induction fuel generalizing fuel' migrationCount values with
  | zero => cases h
  | succ fuel ih =>
    obtain ⟨more, rfl⟩ := Nat.exists_eq_add_of_le hle
    rw [Nat.succ_add]
    unfold migrateLoop at h ⊢
    cases hround : round table migrationCount values with
    | ends outcome =>
      rw [hround] at h
      exact h
    | again values' =>
      rw [hround] at h
      exact ih h (Nat.le_add_right fuel more)

end Freeshard

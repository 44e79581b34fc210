import Freeshard.Database.Schema
import Freeshard.Util.Text

/-! # The migration from TinyDB

`database/tinydb_migration.py`: on the first boot the records of a JSON file are inserted into the tables, in one
transaction, and then the file is renamed. What the driver makes of a parameter is left open. -/

namespace Freeshard.Db
open Sql
set_option autoImplicit false

variable {T : Type}

/-! ## Values -/

/-- A value that Python has read. -/
inductive PyValue (T : Type) where
  | none
  | bool (b : Bool)
  | number (n : ℚ)
  | str (s : String)
  | datetime (t : T)
  | list (elements : List (PyValue T))
  | dict (members : List (String × PyValue T))

def tinydatePrefix : String := "\x7bTinyDate\x7d:"

section Parse
variable (iso : IsoFormat T)

mutual

/-- `_parse_tinydate`. -/
def parseTinydate : Json → PyValue T
  | .null => .none
  | .bool b => .bool b
  | .number n => .number n
  | .string s =>
    if startsWith s tinydatePrefix then
      match iso.fromisoformat (String.ofList (s.toList.drop tinydatePrefix.length)) with
      | some t => .datetime t
      | none => .str s
    else .str s
  | .array elements => .list (parseElements elements)
  | .object members => .dict (parseMembers members)

def parseElements : List Json → List (PyValue T)
  | [] => []
  | json :: elements => parseTinydate json :: parseElements elements

def parseMembers : List (String × Json) → List (String × PyValue T)
  | [] => []
  | (key, json) :: members => (key, parseTinydate json) :: parseMembers members

end

mutual

/-- `json.dumps` with `_DateTimeEncoder`, by which `_jsonb` encodes. -/
def jsonb : PyValue T → Json
  | .none => .null
  | .bool b => .bool b
  | .number n => .number n
  | .str s => .string s
  | .datetime t => .string (iso.isoformat t)
  | .list elements => .array (jsonbElements elements)
  | .dict members => .object (jsonbMembers members)

def jsonbElements : List (PyValue T) → List Json
  | [] => []
  | value :: elements => jsonb value :: jsonbElements elements

def jsonbMembers : List (String × PyValue T) → List (String × Json)
  | [] => []
  | (key, value) :: members => (key, jsonb value) :: jsonbMembers members

end
end Parse

/-! ## Statements -/

abbrev Record (T : Type) : Type := List (String × PyValue T)

/-- The tables of the file, with the records of each under their document ids. -/
abbrev TinyDb : Type := List (String × List (String × List (String × Json)))

/-- What a parameter becomes in a column of a type; `none` is an error of the driver or the database. -/
abbrev Driver (T : Type) : Type := ColumnType → PyValue T → Option (Value T)

inductive MigrationError where
  | keyError (key : String)
  | parameterMissing (name : String)
  | dataError (column : String)
  | sql (e : Sql.Error)
  deriving DecidableEq, Repr

/-- `INSERT INTO … VALUES …`, for most tables with `ON CONFLICT DO NOTHING`. -/
structure Statement (T : Type) where
  table : TableName
  doNothing : Bool
  values : List (String × Value T)

section Statements
variable (iso : IsoFormat T) (driver : Driver T)

/-- `record[key]`. -/
def getItem (record : Record T) (key : String) : Except MigrationError (PyValue T) :=
  match record.lookup key with
  | some value => .ok value
  | none => .error (.keyError key)

/-- The column of a statement with the value of its parameter. -/
def convert (column : String) (type : ColumnType) (value : PyValue T) :
    Except MigrationError (String × Value T) :=
  match driver type value with
  | some converted => .ok (column, converted)
  | none => .error (.dataError column)

/-- The columns of a statement whose parameters are fields of the record. -/
def fields (record : Record T) (columns : List (String × ColumnType)) :
    Except MigrationError (List (String × Value T)) :=
  columns.mapM fun (column, type) =>
    match record.lookup column with
    | some value => convert driver column type value
    | none => .error (.parameterMissing column)

/-- `_filter_keys`. -/
def filterKeys (record : Record T) (allowedKeys : List String) : Record T :=
  record.filter (·.1 ∈ allowedKeys)

/-- `record.setdefault(key, value)`. -/
def setDefault (record : Record T) (key value : String) : Record T :=
  match record.lookup key with
  | some _ => record
  | none => record ++ [(key, .str value)]

def identityColumns : List String :=
  ["id", "name", "email", "description", "private_key", "is_default"]

def installedAppColumns : List String := ["name", "installation_reason", "status", "last_access"]

def terminalColumns : List String := ["id", "name", "icon", "last_connection"]

def peerColumns : List String := ["id", "name", "public_bytes_b64", "is_reachable"]

/-- The loop body of `_migrate_kv_store`. -/
def kvStoreStatement (record : Record T) : Except MigrationError (Statement T) := do
  let key ← getItem record "key"
  let value ← getItem record "value"
  let key ← convert driver "key" .text key
  return ⟨.kvStore, true, [key, ("value", .jsonb (jsonb iso value))]⟩

/-- The loop body of `_migrate_identities`. -/
def identityStatement (record : Record T) : Except MigrationError (Statement T) := do
  let filtered := filterKeys record identityColumns
  let values ← fields driver filtered [("id", .text), ("name", .text), ("email", .text),
    ("description", .text), ("private_key", .text), ("is_default", .boolean)]
  return ⟨.identities, true, values⟩

/-- The loop body of `_migrate_installed_apps`. -/
def installedAppStatement (record : Record T) : Except MigrationError (Statement T) := do
  let filtered := filterKeys record installedAppColumns
  let filtered := setDefault filtered "installation_reason" "unknown"
  let filtered := setDefault filtered "status" "unknown"
  let values ← fields driver filtered [("name", .text), ("installation_reason", .text),
    ("status", .text), ("last_access", .timestamptz)]
  return ⟨.installedApps, true, values⟩

/-- The loop body of `_migrate_terminals`. -/
def terminalStatement (record : Record T) : Except MigrationError (Statement T) := do
  let filtered := filterKeys record terminalColumns
  let filtered := setDefault filtered "icon" "unknown"
  let values ← fields driver filtered [("id", .text), ("name", .text), ("icon", .text),
    ("last_connection", .timestamptz)]
  return ⟨.terminals, true, values⟩

/-- The loop body of `_migrate_peers`. -/
def peerStatement (record : Record T) : Except MigrationError (Statement T) := do
  let filtered := filterKeys record peerColumns
  let values ← fields driver filtered [("id", .text), ("name", .text), ("public_bytes_b64", .text),
    ("is_reachable", .boolean)]
  return ⟨.peers, true, values⟩

/-- The loop body of `_migrate_backups`. -/
def backupStatement (record : Record T) : Except MigrationError (Statement T) := do
  let directories := (record.lookup "directories").getD (.list [])
  let startTime ← convert driver "start_time" .timestamptz ((record.lookup "startTime").getD .none)
  let endTime ← convert driver "end_time" .timestamptz ((record.lookup "endTime").getD .none)
  return ⟨.backups, false, [("directories", .jsonb (jsonb iso directories)), startTime, endTime]⟩

/-- The loop body of `_migrate_tours`. -/
def tourStatement (record : Record T) : Except MigrationError (Statement T) := do
  let values ← fields driver record [("name", .text), ("status", .text)]
  return ⟨.tours, true, values⟩

/-- The loop body of `_migrate_app_usage_tracks`. -/
def appUsageTrackStatement (record : Record T) : Except MigrationError (Statement T) := do
  let timestamp ← getItem record "timestamp"
  let installedApps ← getItem record "installed_apps"
  let timestamp ← convert driver "timestamp" .timestamptz timestamp
  return ⟨.appUsageTracks, false,
    [timestamp, ("installed_apps", .jsonb (jsonb iso installedApps))]⟩

/-- The parsed records of one table of the file. -/
def records (data : TinyDb) (table : String) : List (Record T) :=
  ((data.lookup table).getD []).map fun document => parseMembers iso document.2

/-- The names the tables have in the file. -/
def fileTable : TableName → String
  | .kvStore => "_default"
  | .identities => "identities"
  | .installedApps => "installed_apps"
  | .terminals => "terminals"
  | .peers => "peers"
  | .backups => "backups"
  | .tours => "tours"
  | .appUsageTracks => "app_usage_track"

def migrateRecord : TableName → Record T → Except MigrationError (Statement T)
  | .kvStore => kvStoreStatement iso driver
  | .identities => identityStatement driver
  | .installedApps => installedAppStatement driver
  | .terminals => terminalStatement driver
  | .peers => peerStatement driver
  | .backups => backupStatement iso driver
  | .tours => tourStatement driver
  | .appUsageTracks => appUsageTrackStatement iso driver

/-- The order in which `migrate_tinydb_data` migrates the tables. -/
def migrationOrder : List TableName :=
  [.kvStore, .identities, .installedApps, .terminals, .peers, .backups, .tours, .appUsageTracks]

/-- The statements of `migrate_tinydb_data` in their order. -/
def statements (data : TinyDb) : List (Except MigrationError (Statement T)) :=
  migrationOrder.flatMap fun table =>
    (records iso data (fileTable table)).map (migrateRecord iso driver table)

/-! ## The migration -/

/-- One statement, if its parameters could be built. -/
def executeStatement (db : Database T) (statement : Except MigrationError (Statement T)) :
    Except MigrationError (Database T) := do
  let statement ← statement
  match (db statement.table).insert statement.doNothing statement.values with
  | .ok t => return Function.update db statement.table t
  | .error e => throw (.sql e)

def execute (list : List (Except MigrationError (Statement T))) (db : Database T) :
    Except MigrationError (Database T) := list.foldlM executeStatement db

/-- The file under its two names, and the database. -/
structure Disk (T : Type) where
  file : Option TinyDb
  backup : Option TinyDb
  db : Database T

/-- `migrate_tinydb_data`, when nothing stops it. -/
def migrateTinydbData (disk : Disk T) : Except MigrationError (Disk T) :=
  match disk.file with
  | none => .ok disk
  | some file => do
    let db ← execute (statements iso driver file) disk.db
    return { file := none, backup := some file, db }

/-- Where the process stops. -/
inductive Stop where
  | inTransaction (executed : ℕ)
  | afterCommit
  deriving DecidableEq, Repr

/-- What a migration leaves that is stopped: within the transaction nothing but advanced sequences, between the
commit and the renaming the new rows and the file under its old name. -/
inductive Stopped (disk : Disk T) : Stop → Disk T → Prop where
  | inTransaction {file : TinyDb} {executed : ℕ} {db : Database T} (hfile : disk.file = some file)
      (hdb : execute ((statements iso driver file).take executed) disk.db = .ok db) :
      Stopped disk (.inTransaction executed)
        { disk with db := fun table => { disk.db table with sequence := (db table).sequence } }
  | afterCommit {file : TinyDb} {db : Database T} (hfile : disk.file = some file)
      (hdb : execute (statements iso driver file) disk.db = .ok db) :
      Stopped disk .afterCommit { disk with db }

end Statements
end Freeshard.Db

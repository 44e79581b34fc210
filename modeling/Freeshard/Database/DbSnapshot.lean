import Freeshard.DataModel.Identity
import Freeshard.Database.Schema

/-! # The snapshot of the database

`database/db_snapshot.py`: every application table is written to a JSON file, from which a fresh shard restores
its rows. The restore is one transaction, so after an exception the database is as before. -/

namespace Freeshard.Db
open Sql
set_option autoImplicit false

variable {T : Type}

/-! ## Writing -/

/-- A value of a row as Python sees it; `NULL` and a JSON `null` are both `None`. -/
inductive Cell (T : Type) where
  | json (json : Json)
  | datetime (t : T)

def toPython : Value T → Cell T
  | .null => .json .null
  | .text s => .json (.string s)
  | .boolean b => .json (.bool b)
  | .integer n => .json (.number n)
  | .timestamptz t => .datetime t
  | .jsonb json => .json json

/-- `json.dumps` with `_DateTimeEncoder`. -/
def dumps (iso : IsoFormat T) : Cell T → Json
  | .json json => json
  | .datetime t => .string (iso.isoformat t)

/-- For each table its rows, each with its columns. -/
abbrev Snapshot : Type := List (TableName × List (List (String × Json)))

def dumpRow (iso : IsoFormat T) {s : Schema} (row : Row s T) : List (String × Json) :=
  s.columns.map fun c => (c.name, dumps iso (toPython (row.value c.name)))

/-- `write_db_snapshot`. -/
def writeDbSnapshot (iso : IsoFormat T) (db : Database T) : Snapshot :=
  TableName.all.map fun table => (table, (db table).rows.map (dumpRow iso))

/-! ## Restoring -/

inductive RestoreError where
  | sql (e : Sql.Error)
  | valueError (text : String)
  | programmingError (text : String)
  deriving DecidableEq, Repr

def sqlResult {α : Type} : Except Sql.Error α → Except RestoreError α
  | .ok a => .ok a
  | .error e => .error (.sql e)

/-- `_db_already_populated`. -/
def dbAlreadyPopulated (db : Database T) : Bool := !(db .identities).rows.isEmpty

/-- `_column_types`. -/
def columnTypes (s : Schema) : List (String × ColumnType) := s.columns.map fun c => (c.name, c.type)

/-- `_adapt_value`, and what a value without its own treatment is for the database. -/
def adaptValue (iso : IsoFormat T) (value : Json) (dataType : Option ColumnType) :
    Except RestoreError (Value T) :=
  match value, dataType with
  | .null, _ => .ok .null
  | value, some .jsonb => .ok (.jsonb value)
  | .string s, some .timestamptz =>
    match iso.fromisoformat s with
    | some t => .ok (.timestamptz t)
    | none => .error (.valueError s)
  | _, some .timestamptz => .error (.valueError "fromisoformat: argument must be str")
  | .string s, _ => .ok (.text s)
  | .bool b, _ => .ok (.boolean b)
  | .number n, _ =>
    if n.den = 1 then .ok (.integer n.num) else .error (.programmingError "cannot adapt type 'float'")
  | .array _, _ => .error (.programmingError "cannot adapt type 'list'")
  | .object _, _ => .error (.programmingError "cannot adapt type 'dict'")

/-- `_insert_row`. -/
def insertRow (iso : IsoFormat T) {s : Schema} (colTypes : List (String × ColumnType))
    (row : List (String × Json)) (t : Table s T) : Except RestoreError (Table s T) := do
  let values ← row.mapM fun (column, value) => do
    let adapted ← adaptValue iso value (colTypes.lookup column)
    return (column, adapted)
  sqlResult (t.insert true values)

/-- `MAX` of an integer column. -/
def maxOf {s : Schema} (t : Table s T) (column : String) : Option ℤ :=
  (t.rows.filterMap fun row =>
    match row.value column with
    | .integer n => some n
    | _ => none).max?

/-- `setval`; sequences start at 1. -/
def setval {s : Schema} (t : Table s T) (n : ℤ) : Except RestoreError (Table s T) :=
  if n < 1 then .error (.sql (.valueOutOfRange n)) else .ok { t with sequence := ⟨n, true⟩ }

/-- The body of the loop in `_reset_sequences`. -/
def resetSequence {s : Schema} (t : Table s T) (c : Column) : Except RestoreError (Table s T) :=
  match c.default with
  | .nextval => setval t ((maxOf t c.name).getD 1)
  | _ => .ok t

/-- `_reset_sequences`. -/
def resetSequences {s : Schema} (t : Table s T) : Except RestoreError (Table s T) :=
  s.columns.foldlM resetSequence t

/-- The rows of one table. -/
def restoreTable (iso : IsoFormat T) {s : Schema} (rows : List (List (String × Json)))
    (t : Table s T) : Except RestoreError (Table s T) :=
  if rows.isEmpty then .ok t
  else do
    let t ← rows.foldlM (fun t row => insertRow iso (columnTypes s) row t) t
    resetSequences t

/-- `restore_db_snapshot`, where `none` stands for a missing file. -/
def restoreDbSnapshot (iso : IsoFormat T) (snapshot : Option Snapshot) (db : Database T) :
    Except RestoreError (Database T) :=
  match snapshot with
  | none => .ok db
  | some snapshot =>
    if dbAlreadyPopulated db then .ok db
    else snapshot.foldlM (fun db entry => do
      let t ← restoreTable iso entry.2 (db entry.1)
      return Function.update db entry.1 t) db

/-! ## The default identity -/

inductive IdentityError where
  | sql (e : Sql.Error)
  | typeError (text : String)
  | validationError (field : String)
  deriving DecidableEq, Repr

def textOf : Value T → Option String
  | .text s => some s
  | _ => none

def flagOf : Value T → Bool
  | .boolean b => b
  | _ => false

/-- A row of `identities` as `dict_row` gives it. -/
def identityRow (row : Sql.Row (schema .identities) T) : IdentityRow where
  id := (textOf (row.value "id")).getD ""
  name := textOf (row.value "name")
  email := textOf (row.value "email")
  description := textOf (row.value "description")
  privateKey := textOf (row.value "private_key")
  isDefault := flagOf (row.value "is_default")

/-- `get_default` and `Identity(**row)`, where `validate_email` accepts these addresses. -/
def loadDefault (accepts : String → Bool) (db : Database T) : Except IdentityError Identity :=
  match ((db .identities).rows.map identityRow).find? (·.isDefault) with
  | none => .error (.typeError "argument after ** must be a mapping, not NoneType")
  | some row => (row.load accepts).mapError .validationError

/-- `init_default_identity`, where `created` are the columns of the identity it would create. -/
def initDefaultIdentity (accepts : String → Bool) (created : List (String × Value T)) (db : Database T) :
    Except IdentityError (Database T) :=
  if (db .identities).rows.isEmpty then
    match (db .identities).insert false created with
    | .ok t => .ok (Function.update db .identities t)
    | .error e => .error (.sql e)
  else (loadDefault accepts db).map fun _ => db

end Freeshard.Db

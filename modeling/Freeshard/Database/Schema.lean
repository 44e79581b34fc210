import Freeshard.Sql.Table

/-! # The tables of the shard

`migrations/shard-core-0001-init.sql`. The bookkeeping tables of the migration tool are left out. -/

namespace Freeshard.Db
open Sql
set_option autoImplicit false

/-- The application tables, in the order of their names. -/
inductive TableName where
  | appUsageTracks
  | backups
  | identities
  | installedApps
  | kvStore
  | peers
  | terminals
  | tours
  deriving DecidableEq, Repr

def TableName.all : List TableName :=
  [.appUsageTracks, .backups, .identities, .installedApps, .kvStore, .peers, .terminals, .tours]

theorem TableName.mem_all (table : TableName) : table ∈ TableName.all := by
  cases table <;> decide

theorem TableName.all_nodup : TableName.all.Nodup := by decide

/-- `SERIAL PRIMARY KEY`. -/
def serialId : Column := { name := "id", type := .integer, notNull := true, default := .nextval }

/-- `TEXT PRIMARY KEY`. -/
def textKey (name : String) : Column := { name, type := .text, notNull := true }

def schema : TableName → Schema
  | .installedApps =>
    { name := "installed_apps"
      columns := [textKey "name",
        { name := "installation_reason", type := .text, notNull := true, default := .text "unknown" },
        { name := "status", type := .text, notNull := true, default := .text "unknown" },
        { name := "last_access", type := .timestamptz }]
      primaryKey := "name"
      columns_nodup := by decide }
  | .identities =>
    { name := "identities"
      columns := [textKey "id", { name := "name", type := .text }, { name := "email", type := .text },
        { name := "description", type := .text }, { name := "private_key", type := .text },
        { name := "is_default", type := .boolean, notNull := true, default := .boolean false }]
      primaryKey := "id"
      columns_nodup := by decide }
  | .terminals =>
    { name := "terminals"
      columns := [textKey "id", { name := "name", type := .text, notNull := true },
        { name := "icon", type := .text, notNull := true, default := .text "unknown" },
        { name := "last_connection", type := .timestamptz }]
      primaryKey := "id"
      columns_nodup := by decide }
  | .peers =>
    { name := "peers"
      columns := [textKey "id", { name := "name", type := .text },
        { name := "public_bytes_b64", type := .text },
        { name := "is_reachable", type := .boolean, default := .boolean true }]
      primaryKey := "id"
      columns_nodup := by decide }
  | .backups =>
    { name := "backups"
      columns := [serialId, { name := "directories", type := .jsonb },
        { name := "start_time", type := .timestamptz }, { name := "end_time", type := .timestamptz }]
      primaryKey := "id"
      columns_nodup := by decide }
  | .tours =>
    { name := "tours"
      columns := [textKey "name", { name := "status", type := .text, notNull := true }]
      primaryKey := "name"
      columns_nodup := by decide }
  | .appUsageTracks =>
    { name := "app_usage_tracks"
      columns := [serialId, { name := "timestamp", type := .timestamptz, notNull := true },
        { name := "installed_apps", type := .jsonb, notNull := true }]
      primaryKey := "id"
      columns_nodup := by decide }
  | .kvStore =>
    { name := "kv_store"
      columns := [textKey "key", { name := "value", type := .jsonb }]
      primaryKey := "key"
      columns_nodup := by decide }

/-- The contents of the database; `T` are the points in time. -/
abbrev Database (T : Type) : Type := (table : TableName) → Table (schema table) T

/-- The database after the migrations have run for the first time. -/
def Database.fresh (T : Type) : Database T := fun table => Table.empty (schema table) T

/-- `datetime.isoformat` and `datetime.fromisoformat`, where `none` is a `ValueError`. -/
structure IsoFormat (T : Type) where
  isoformat : T → String
  fromisoformat : String → Option T

/-- Parsing reads back what formatting writes. -/
def IsoFormat.Lawful {T : Type} (iso : IsoFormat T) : Prop :=
  ∀ t, iso.fromisoformat (iso.isoformat t) = some t

/-- Points in time are their ISO texts. -/
def plainIso : IsoFormat String := ⟨id, some⟩

end Freeshard.Db

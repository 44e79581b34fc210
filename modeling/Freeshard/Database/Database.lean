import Freeshard.Database.DbSnapshot
import Freeshard.Database.TinydbMigration

/-! # `database/database.py`

`init_database` and, as `lifespan` calls it right after, `init_default_identity`: the records of the old file, then the
snapshot, then a default identity if there is none. The migration, the restore and the insertion of the identity have a
transaction each, and the process may stop between and within them. -/

namespace Freeshard.Db
open Sql
set_option autoImplicit false

variable {T : Type} (iso : IsoFormat T) (driver : Driver T)

/-- What a boot works on. -/
structure Volume (T : Type) extends Disk T where
  snapshot : Option Snapshot

inductive InitError where
  | migration (e : MigrationError)
  | restore (e : RestoreError)
  | identity (e : IdentityError)
  deriving DecidableEq, Repr

def migrateVolume (v : Volume T) : Except InitError (Volume T) :=
  match migrateTinydbData iso driver v.toDisk with
  | .ok disk => .ok { v with toDisk := disk }
  | .error e => .error (.migration e)

/-- What becomes of a volume by a transaction that ends in this. -/
def Volume.commit {ε : Type} (raise : ε → InitError) (v : Volume T) :
    Except ε (Database T) → Except InitError (Volume T)
  | .ok db => .ok { v with db }
  | .error e => .error (raise e)

/-- `init_database`. -/
def initDatabase (v : Volume T) : Except InitError (Volume T) := do
  let v ← migrateVolume iso driver v
  v.commit .restore (restoreDbSnapshot iso v.snapshot v.db)

/-- `lifespan` as far as the database goes, where `created` are the columns of the identity it would create and
`validate_email` accepts these addresses. -/
def boot (accepts : String → Bool) (created : List (String × Value T)) (v : Volume T) :
    Except InitError (Volume T) := do
  let v ← initDatabase iso driver v
  v.commit .identity (initDefaultIdentity accepts created v.db)

/-! ## Boots that stop -/

/-- Where a boot stops that has not created an identity. One that cannot load the default identity stops `restored`. -/
inductive Halt where
  | migrating (stop : Stop)
  | migrated
  | restoring
  | restored
  deriving DecidableEq, Repr

/-- What is left of such a boot. Of the restore's transaction nothing is left but the sequences it has set. -/
inductive Halted (v : Volume T) : Halt → Volume T → Prop where
  | migrating {stop : Stop} {disk : Disk T} (hstop : Stopped iso driver v.toDisk stop disk) :
      Halted v (.migrating stop) { v with toDisk := disk }
  | migrated {v' : Volume T} (hmigrate : migrateVolume iso driver v = .ok v') : Halted v .migrated v'
  | restoring {v' : Volume T} {sequences : TableName → Sequence} (hmigrate : migrateVolume iso driver v = .ok v')
      (hrestore : v'.snapshot ≠ none) (hfresh : dbAlreadyPopulated v'.db = false) :
      Halted v .restoring { v' with db := fun table => { v'.db table with sequence := sequences table } }
  | restored {v' : Volume T} (hinit : initDatabase iso driver v = .ok v') : Halted v .restored v'

/-- Boots that have stopped, latest first. -/
inductive Attempts (v₀ : Volume T) : List Halt → Volume T → Prop where
  | none : Attempts v₀ [] v₀
  | halted {halts : List Halt} {v v' : Volume T} {halt : Halt} (h : Attempts v₀ halts v)
      (hhalt : Halted iso driver v halt v') : Attempts v₀ (halt :: halts) v'

/-! ## A shard's life -/

/-- What the running shard does: no statement deletes an identity, and nothing brings the old file back. -/
inductive Works (v : Volume T) : Volume T → Prop where
  | insert {table : TableName} {doNothing : Bool} {values : List (String × Value T)} {t : Table (schema table) T}
      (hinsert : (v.db table).insert doNothing values = .ok t) :
      Works v { v with db := Function.update v.db table t }
  | update {table : TableName} {t : Table (schema table) T} (hrows : t.rows.length = (v.db table).rows.length) :
      Works v { v with db := Function.update v.db table t }
  | delete {table : TableName} {t : Table (schema table) T} (hidentities : table ≠ .identities)
      (hrows : t.rows.Sublist (v.db table).rows) : Works v { v with db := Function.update v.db table t }
  | backup : Works v { v with snapshot := some (writeDbSnapshot iso v.db) }

/-- Boots that stop, boots that complete, and what the shard does after these. The flag tells whether a boot has
completed. -/
inductive Life (v₀ : Volume T) : Bool → Volume T → Prop where
  | new : Life v₀ false v₀
  | halted {booted : Bool} {v v' : Volume T} {halt : Halt} (h : Life v₀ booted v)
      (hhalt : Halted iso driver v halt v') : Life v₀ booted v'
  | booted {booted : Bool} {v v' : Volume T} {accepts : String → Bool} {created : List (String × Value T)}
      (h : Life v₀ booted v) (hboot : boot iso driver accepts created v = .ok v') : Life v₀ true v'
  | works {v v' : Volume T} (h : Life v₀ true v) (hworks : Works iso v v') : Life v₀ true v'

end Freeshard.Db

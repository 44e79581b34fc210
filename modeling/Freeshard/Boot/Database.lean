import Freeshard.Database.Database
import Freeshard.Migration.ExactlyOnce
import Freeshard.Snapshot.RoundTrip

/-! # Boots that stop are not noticed later

However often and wherever the first boots of a shard have stopped, the one that completes leaves the rows that a single
boot leaves on an empty database. And once a boot has completed, no later one changes anything: a snapshot is never
restored over what the shard has stored since. -/

namespace Freeshard.Db
open Sql
set_option autoImplicit false

variable {T : Type} {iso : IsoFormat T} {driver : Driver T}

/-! ## Restoring a table -/

section Tables

variable {s : Schema}

theorem drawless_restoredValues (row : Sql.Row s T) : Drawless s (restoredValues row) :=
  fun _ hc _ => ⟨_, lookup_columns _ hc⟩

theorem valuesKey_restoredValues (row : Sql.Row s T) : valuesKey s (restoredValues row) = row.key := by
  rw [valuesKey, fill_restoredValues, key_restoredValue, Sql.Row.key]

theorem map_sqlResult {α β : Type} (f : α → β) (result : Except Sql.Error α) :
    (sqlResult result).map f = sqlResult (result.map f) := by
  cases result <;> rfl

theorem insertRows_dump (hiso : iso.Lawful) (rows : List (Sql.Row s T)) (t : Table s T) :
    (rows.map (dumpRow iso)).foldlM (fun t row => insertRow iso (columnTypes s) row t) t =
      sqlResult (insertAll true (rows.map restoredValues) t) := by
  induction rows generalizing t with
  | nil => rfl
  | cons row rows ih =>
    unfold insertAll
    rw [List.map_cons, List.foldlM_cons, insertRow_dumpRow hiso, List.map_cons, List.foldlM_cons]
    cases t.insert true (restoredValues row) with
    | error e => rfl
    | ok t₁ => exact ih t₁

/-- Rows that are there are not inserted. -/
theorem insertAll_present {rows : List (Sql.Row s T)} {t : Table s T} (hrestorable : ∀ row ∈ rows, Restorable row)
    (hkeys : ∀ row ∈ rows, row.key ∈ t.rows.map Sql.Row.key) :
    insertAll true (rows.map restoredValues) t = .ok t := by
  induction rows with
  | nil => rfl
  | cons row rows ih =>
    obtain ⟨row', hrow⟩ := mk?_of_restorable (hrestorable row List.mem_cons_self) t.sequence.next
    have hkey : row'.key ∈ t.rows.map Sql.Row.key := by
      rw [(mk?_restoredValues hrow).1.key]
      exact hkeys row List.mem_cons_self
    have hinsert : t.insert true (restoredValues row) = .ok t := by
      unfold Table.insert
      rw [find?_restoredValues, hrow]
      dsimp only
      rw [dif_pos hkey, if_pos rfl, afterInsert_restoredValues]
    unfold insertAll
    rw [List.map_cons, List.foldlM_cons, hinsert]
    exact ih (fun row hrow => hrestorable row (List.mem_cons_of_mem _ hrow))
      fun row hrow => hkeys row (List.mem_cons_of_mem _ hrow)

variable {table : TableName} {origin t u t' : Table (schema table) T}

theorem resetSequences_rows (hrows : t.rows = u.rows) :
    (resetSequences t).map Table.rows = (resetSequences u).map Table.rows := by
  have hids : ids t = ids u := by rw [ids, ids, hrows]
  rw [resetSequences_eq, resetSequences_eq, hids]
  split
  · unfold setval
    split
    · rfl
    · exact congrArg Except.ok hrows
  · exact congrArg Except.ok hrows

theorem rows_of_resetSequences (h : resetSequences t = .ok t') : t'.rows = t.rows := by
  rw [resetSequences_eq] at h
  split at h
  · unfold setval at h
    split at h
    · cases h
    · cases h
      rfl
  · cases h
    rfl

/-- What a restore does to the rows does not depend on the sequence. -/
theorem restoreTable_rows (hiso : iso.Lawful) (hrows : t.rows = u.rows) :
    (restoreTable iso (origin.rows.map (dumpRow iso)) t).map Table.rows =
      (restoreTable iso (origin.rows.map (dumpRow iso)) u).map Table.rows := by
  unfold restoreTable
  split
  · exact congrArg Except.ok hrows
  · rw [insertRows_dump hiso, insertRows_dump hiso]
    have hdrawless : ∀ values ∈ origin.rows.map restoredValues, Drawless (schema table) values := by
      intro values hvalues
      obtain ⟨row, -, rfl⟩ := List.mem_map.mp hvalues
      exact drawless_restoredValues row
    refine map_bind_congr ?_ fun t₁ u₁ hrows₁ => resetSequences_rows hrows₁
    rw [map_sqlResult, map_sqlResult, insertAll_drawless hdrawless hrows true]

/-- A second restore leaves the rows as they are. -/
theorem restoreTable_again (hiso : iso.Lawful)
    (h : restoreTable iso (origin.rows.map (dumpRow iso)) t = .ok t') :
    (restoreTable iso (origin.rows.map (dumpRow iso)) t').map Table.rows = .ok t'.rows := by
  unfold restoreTable at h ⊢
  split at h
  · next hempty =>
    rw [if_pos hempty]
    rfl
  · next hempty =>
    rw [if_neg hempty]
    cases hfold : (origin.rows.map (dumpRow iso)).foldlM
        (fun t row => insertRow iso (columnTypes (schema table)) row t) t with
    | error e =>
      rw [hfold] at h
      cases h
    | ok t₁ =>
      have hrestorable := restorable_of_restoreRows hiso hfold
      rw [hfold] at h
      have hreset : resetSequences t₁ = .ok t' := h
      have hinsert : insertAll true (origin.rows.map restoredValues) t = .ok t₁ := by
        rw [insertRows_dump hiso] at hfold
        cases hinsert : insertAll true (origin.rows.map restoredValues) t with
        | error e =>
          rw [hinsert] at hfold
          cases hfold
        | ok t₂ =>
          rw [hinsert] at hfold
          obtain rfl := Except.ok.inj hfold
          rfl
      have hkeys : ∀ row ∈ origin.rows, row.key ∈ t'.rows.map Sql.Row.key := by
        intro row hrow
        rw [rows_of_resetSequences hreset, ← valuesKey_restoredValues row]
        refine (insertAll_stored (fun values hvalues => ?_) hinsert).2 _ (List.mem_map_of_mem hrow)
        obtain ⟨row, -, rfl⟩ := List.mem_map.mp hvalues
        exact (drawless_restoredValues row).keyGiven
      rw [insertRows_dump hiso, insertAll_present hrestorable hkeys]
      change (resetSequences t').map Table.rows = _
      rw [resetSequences_rows (rows_of_resetSequences hreset), hreset]
      rfl

end Tables

/-! ## Restoring a database -/

def SameRows (db db' : Database T) : Prop := ∀ table, (db table).rows = (db' table).rows

theorem SameRows.populated {db db' : Database T} (h : SameRows db db') :
    dbAlreadyPopulated db = dbAlreadyPopulated db' := by
  rw [dbAlreadyPopulated, dbAlreadyPopulated, h]

section Snapshots
variable {origin : Option (Database T)} {db db' other : Database T}

theorem restoreDbSnapshot_written (origin db : Database T) :
    restoreDbSnapshot iso (some (writeDbSnapshot iso origin)) db =
      if dbAlreadyPopulated db then .ok db
      else restoreTables iso (fun table => (origin table).rows.map (dumpRow iso)) TableName.all db := rfl

theorem restoreDbSnapshot_rows (hiso : iso.Lawful) (hrows : SameRows db other)
    (h : restoreDbSnapshot iso (origin.map (writeDbSnapshot iso)) db = .ok db') :
    ∃ other', restoreDbSnapshot iso (origin.map (writeDbSnapshot iso)) other = .ok other' ∧ SameRows db' other' := by
  cases origin with
  | none =>
    obtain rfl := Except.ok.inj h
    exact ⟨other, rfl, hrows⟩
  | some origin =>
    rw [Option.map_some, restoreDbSnapshot_written] at h ⊢
    rw [← hrows.populated]
    split at h
    · next hpopulated =>
      obtain rfl := Except.ok.inj h
      exact ⟨other, if_pos hpopulated, hrows⟩
    · next hfresh =>
      rw [if_neg hfresh]
      have htables := (restoreTables_ok TableName.all_nodup h).1
      have hexists : ∀ table ∈ TableName.all, ∃ t,
          restoreTable iso ((origin table).rows.map (dumpRow iso)) (other table) = .ok t := by
        intro table htable
        obtain ⟨t, ht, -⟩ := exists_of_map_eq (restoreTable_rows hiso (hrows table)) (htables table htable)
        exact ⟨t, ht⟩
      obtain ⟨other', hother⟩ := restoreTables_exists TableName.all_nodup hexists
      refine ⟨other', hother, fun table => ?_⟩
      obtain ⟨t, ht, hsame⟩ := exists_of_map_eq (restoreTable_rows hiso (hrows table)) (htables table table.mem_all)
      obtain rfl := Except.ok.inj (ht.symm.trans ((restoreTables_ok TableName.all_nodup hother).1 table table.mem_all))
      exact hsame

theorem restoreDbSnapshot_again (hiso : iso.Lawful) (hrows : SameRows db' other)
    (h : restoreDbSnapshot iso (origin.map (writeDbSnapshot iso)) db = .ok db') :
    ∃ other', restoreDbSnapshot iso (origin.map (writeDbSnapshot iso)) other = .ok other' ∧
      SameRows other other' := by
  suffices hagain : ∃ db'', restoreDbSnapshot iso (origin.map (writeDbSnapshot iso)) db' = .ok db'' ∧
      SameRows db' db'' by
    obtain ⟨db'', hrestore, hsame⟩ := hagain
    obtain ⟨other', hother, hsame'⟩ := restoreDbSnapshot_rows hiso hrows hrestore
    exact ⟨other', hother, fun table => ((hrows table).symm.trans (hsame table)).trans (hsame' table)⟩
  cases origin with
  | none => exact ⟨db', rfl, fun _ => rfl⟩
  | some origin =>
    rw [Option.map_some, restoreDbSnapshot_written] at h ⊢
    split at h
    · next hpopulated =>
      obtain rfl := Except.ok.inj h
      exact ⟨db, if_pos hpopulated, fun _ => rfl⟩
    · by_cases hpopulated : dbAlreadyPopulated db' = true
      · exact ⟨db', if_pos hpopulated, fun _ => rfl⟩
      · rw [if_neg hpopulated]
        have htables := (restoreTables_ok TableName.all_nodup h).1
        have hagain : ∀ table, ∃ t, restoreTable iso ((origin table).rows.map (dumpRow iso)) (db' table) = .ok t ∧
            (db' table).rows = t.rows := by
          intro table
          have hsecond := restoreTable_again hiso (htables table table.mem_all)
          exact exists_of_map_eq (x := .ok (db' table)) hsecond.symm rfl
        have hexists : ∀ table ∈ TableName.all, ∃ t,
            restoreTable iso ((origin table).rows.map (dumpRow iso)) (db' table) = .ok t :=
          fun table _ => (hagain table).imp fun _ ht => ht.1
        obtain ⟨db'', hrestore⟩ := restoreTables_exists TableName.all_nodup hexists
        refine ⟨db'', hrestore, fun table => ?_⟩
        obtain ⟨t, ht, hsame⟩ := hagain table
        obtain rfl := Except.ok.inj
          (ht.symm.trans ((restoreTables_ok TableName.all_nodup hrestore).1 table table.mem_all))
        exact hsame

end Snapshots

/-! ## The old file and the identity -/

/-- Where every table has its own keys, a second migration leaves the rows as they are. -/
theorem execute_again {file : TinyDb} {empty db other other' : Database T} (hserial : ¬hasSerialRecords iso file)
    (hfirst : execute (statements iso driver file) empty = .ok db) (hrows : SameRows db other)
    (hsecond : execute (statements iso driver file) other = .ok other') : SameRows other other' := by
  intro table
  have hinsert := execute_records hsecond table
  cases hkeys : (schema table).serial with
  | false =>
    have hkeyed := keyed_of_not_serial hkeys
    have hinsert₁ := execute_records hfirst table
    rw [hkeys] at hinsert hinsert₁
    refine (insertAll_again hkeyed (fun values hvalues => ?_) hinsert).symm
    rw [← hrows table]
    exact (insertAll_keys hkeyed hinsert₁).2 values hvalues
  | true =>
    have hrecords : records iso file (fileTable table) = [] := by
      by_contra hne
      exact hserial (hasSerialRecords_iff.mpr ⟨table, hkeys, hne⟩)
    have hvalues : recordValues iso driver file table = [] := by
      rw [recordValues, hrecords]
      rfl
    rw [hvalues] at hinsert
    rw [Except.ok.inj hinsert]

theorem loadDefault_rows {db other : Database T} (hrows : SameRows db other) (accepts : String → Bool) :
    loadDefault accepts db = loadDefault accepts other := by
  rw [loadDefault, loadDefault, hrows]

theorem initDefaultIdentity_rows {accepts : String → Bool} {created : List (String × Value T)}
    {db db' other : Database T} (hrows : SameRows db other) (h : initDefaultIdentity accepts created db = .ok db') :
    ∃ other', initDefaultIdentity accepts created other = .ok other' ∧ SameRows db' other' := by
  unfold initDefaultIdentity at h ⊢
  rw [← hrows]
  split at h
  · next hempty =>
    rw [if_pos hempty]
    cases ht : (db .identities).insert false created with
    | error e =>
      rw [ht] at h
      cases h
    | ok t =>
      rw [ht] at h
      obtain rfl := Except.ok.inj h
      obtain ⟨u, hu, hsame⟩ := exists_of_map_eq
        (Table.insert_drawless (drawless_of_not_serial rfl created) (hrows .identities) false) ht
      rw [hu]
      refine ⟨_, rfl, fun table => ?_⟩
      by_cases htable : table = .identities
      · subst htable
        rw [Function.update_self, Function.update_self, hsame]
      · rw [Function.update_of_ne htable, Function.update_of_ne htable, hrows table]
  · next hpopulated =>
    rw [if_neg hpopulated, ← loadDefault_rows hrows]
    cases hload : loadDefault accepts db with
    | error e =>
      rw [hload] at h
      cases h
    | ok identity =>
      rw [hload] at h
      obtain rfl := Except.ok.inj h
      exact ⟨other, rfl, hrows⟩

/-! ## Volumes -/

/-- The same but for the sequences. -/
structure Alike (v w : Volume T) : Prop where
  file : v.file = w.file
  backup : v.backup = w.backup
  snapshot : v.snapshot = w.snapshot
  rows : SameRows v.db w.db

theorem Alike.trans {u v w : Volume T} (h : Alike u v) (h' : Alike v w) : Alike u w :=
  ⟨h.file.trans h'.file, h.backup.trans h'.backup, h.snapshot.trans h'.snapshot,
    fun table => (h.rows table).trans (h'.rows table)⟩

/-- Before the first boot: perhaps an old file, perhaps a snapshot. -/
def Volume.unbooted (file : Option TinyDb) (snapshot : Option Snapshot) (db : Database T) : Volume T :=
  { file, backup := none, db, snapshot }

def Database.Empty (db : Database T) : Prop := ∀ table, (db table).rows = []

theorem migrateVolume_of_none {v : Volume T} (hfile : v.file = none) : migrateVolume iso driver v = .ok v := by
  unfold migrateVolume migrateTinydbData
  rw [hfile]

theorem migrateVolume_of_some {v v' : Volume T} {file : TinyDb} (hfile : v.file = some file) :
    migrateVolume iso driver v = .ok v' ↔ ∃ db, execute (statements iso driver file) v.db = .ok db ∧
      v' = { v with file := none, backup := some file, db } := by
  unfold migrateVolume migrateTinydbData
  rw [hfile]
  dsimp only
  cases execute (statements iso driver file) v.db with
  | error e =>
    constructor
    · intro h
      cases h
    · rintro ⟨db, hdb, -⟩
      cases hdb
  | ok db =>
    constructor
    · intro h
      cases h
      exact ⟨db, rfl, rfl⟩
    · rintro ⟨db', hdb, rfl⟩
      cases hdb
      rfl

theorem file_of_migrateVolume {v v' : Volume T} (h : migrateVolume iso driver v = .ok v') : v'.file = none := by
  cases hfile : v.file with
  | none =>
    rw [migrateVolume_of_none hfile] at h
    obtain rfl := Except.ok.inj h
    exact hfile
  | some file =>
    obtain ⟨db, -, rfl⟩ := (migrateVolume_of_some hfile).mp h
    rfl

theorem snapshot_of_migrateVolume {v v' : Volume T} (h : migrateVolume iso driver v = .ok v') :
    v'.snapshot = v.snapshot := by
  cases hfile : v.file with
  | none =>
    rw [migrateVolume_of_none hfile] at h
    obtain rfl := Except.ok.inj h
    rfl
  | some file =>
    obtain ⟨db, -, rfl⟩ := (migrateVolume_of_some hfile).mp h
    rfl

theorem Volume.commit_ok {ε : Type} {raise : ε → InitError} {v v' : Volume T} {result : Except ε (Database T)} :
    v.commit raise result = .ok v' ↔ ∃ db, result = .ok db ∧ v' = { v with db } := by
  cases result with
  | error e =>
    constructor
    · intro h
      cases h
    · rintro ⟨db, hdb, -⟩
      cases hdb
  | ok db =>
    constructor
    · intro h
      cases h
      exact ⟨db, rfl, rfl⟩
    · rintro ⟨db', hdb, rfl⟩
      cases hdb
      rfl

theorem file_of_initDatabase {v v' : Volume T} (h : initDatabase iso driver v = .ok v') : v'.file = none := by
  obtain ⟨v₁, hmigrate, hrestore⟩ := bind_ok h
  obtain ⟨db, -, rfl⟩ := Volume.commit_ok.mp hrestore
  have hfile := file_of_migrateVolume hmigrate
  exact hfile

/-! ## What boots that have stopped have come to -/

section Stopping
variable {file : Option TinyDb} {origin : Option (Database T)} {v v' : Volume T}

/-- What this leaves on an empty database, but for the sequences. -/
def LeftBy (iso : IsoFormat T) (program : Volume T → Except InitError (Volume T)) (file : Option TinyDb)
    (origin : Option (Database T)) (v : Volume T) : Prop :=
  ∃ empty w, Database.Empty empty ∧ program (.unbooted file (origin.map (writeDbSnapshot iso)) empty) = .ok w ∧
    Alike w v

theorem LeftBy.alike {program : Volume T → Except InitError (Volume T)} (h : LeftBy iso program file origin v)
    (hv : Alike v v') : LeftBy iso program file origin v' := by
  obtain ⟨empty, w, hempty, hprogram, hw⟩ := h
  exact ⟨empty, w, hempty, hprogram, hw.trans hv⟩

/-- A transaction more, if the rows it leaves depend on nothing but the rows it finds. -/
theorem LeftBy.commit {ε : Type} {raise : ε → InitError} {program : Volume T → Except InitError (Volume T)}
    (h : LeftBy iso program file origin v) (transaction : Volume T → Except ε (Database T))
    (htransaction : ∀ w db, Alike w v → transaction v = .ok db →
      ∃ other, transaction w = .ok other ∧ SameRows db other)
    (hv : v.commit raise (transaction v) = .ok v') :
    LeftBy iso (fun v => program v >>= fun v => v.commit raise (transaction v)) file origin v' := by
  obtain ⟨empty, w, hempty, hprogram, hw⟩ := h
  obtain ⟨db, hdb, rfl⟩ := Volume.commit_ok.mp hv
  obtain ⟨other, hother, hsame⟩ := htransaction w db hw hdb
  refine ⟨empty, { w with db := other }, hempty, ?_, hw.file, hw.backup, hw.snapshot, fun table => (hsame table).symm⟩
  change program _ >>= _ = _
  rw [hprogram]
  exact Volume.commit_ok.mpr ⟨other, hother, rfl⟩

/-- Nothing is there yet; the records are committed and the file has its old name; it is renamed; the snapshot is
restored. -/
inductive Stage (iso : IsoFormat T) (driver : Driver T) (file : Option TinyDb) (origin : Option (Database T))
    (v : Volume T) : Prop where
  | empty (hfile : v.file = file) (hbackup : v.backup = none) (hempty : v.db.Empty)
  | committed {old : TinyDb} {empty db : Database T} (hold : file = some old) (hfile : v.file = file)
      (hbackup : v.backup = none) (hempty : empty.Empty) (hserial : ¬hasSerialRecords iso old)
      (hexecute : execute (statements iso driver old) empty = .ok db) (hrows : SameRows db v.db)
  | migrated (h : LeftBy iso (migrateVolume iso driver) file origin v)
  | restored (h : LeftBy iso (initDatabase iso driver) file origin v)

structure Reached (iso : IsoFormat T) (driver : Driver T) (file : Option TinyDb) (origin : Option (Database T))
    (v : Volume T) : Prop where
  snapshot : v.snapshot = origin.map (writeDbSnapshot iso)
  stage : Stage iso driver file origin v

/-- The migration of a boot after boots that have stopped. -/
theorem Reached.migrate (h : Reached iso driver file origin v) (hmigrate : migrateVolume iso driver v = .ok v') :
    v'.snapshot = origin.map (writeDbSnapshot iso) ∧
      (LeftBy iso (migrateVolume iso driver) file origin v' ∨ LeftBy iso (initDatabase iso driver) file origin v') := by
  refine ⟨(snapshot_of_migrateVolume hmigrate).trans h.snapshot, ?_⟩
  cases h.stage with
  | empty hfile hbackup hempty =>
    refine .inl ⟨v.db, v', hempty, ?_, ⟨rfl, rfl, rfl, fun _ => rfl⟩⟩
    have hv : Volume.unbooted file (origin.map (writeDbSnapshot iso)) v.db = v := by
      rw [← hfile, ← h.snapshot, Volume.unbooted, ← hbackup]
    rw [hv]
    exact hmigrate
  | committed hold hfile hbackup hempty hserial hexecute hrows =>
    obtain ⟨db, hsecond, rfl⟩ := (migrateVolume_of_some (hfile.trans hold)).mp hmigrate
    refine .inl ⟨_, _, hempty, (migrateVolume_of_some hold).mpr ⟨_, hexecute, rfl⟩, rfl, rfl, h.snapshot.symm,
      fun table => ?_⟩
    exact (hrows table).trans (execute_again hserial hexecute hrows hsecond table)
  | migrated hleft =>
    obtain ⟨empty, w, hempty, hfirst, hw⟩ := hleft
    rw [migrateVolume_of_none (hw.file.symm.trans (file_of_migrateVolume hfirst))] at hmigrate
    obtain rfl := Except.ok.inj hmigrate
    exact .inl ⟨empty, w, hempty, hfirst, hw⟩
  | restored hleft =>
    obtain ⟨empty, w, hempty, hinit, hw⟩ := hleft
    rw [migrateVolume_of_none (hw.file.symm.trans (file_of_initDatabase hinit))] at hmigrate
    obtain rfl := Except.ok.inj hmigrate
    exact .inr ⟨empty, w, hempty, hinit, hw⟩

/-- `init_database` after boots that have stopped. -/
theorem Reached.init (hiso : iso.Lawful) (h : Reached iso driver file origin v)
    (hinit : initDatabase iso driver v = .ok v') :
    v'.snapshot = origin.map (writeDbSnapshot iso) ∧ LeftBy iso (initDatabase iso driver) file origin v' := by
  obtain ⟨v₁, hmigrate, hrestore⟩ := bind_ok hinit
  obtain ⟨hsnapshot, hleft⟩ := h.migrate hmigrate
  obtain ⟨db, hdb, rfl⟩ := Volume.commit_ok.mp hrestore
  refine ⟨hsnapshot, ?_⟩
  rw [hsnapshot] at hdb
  obtain hleft | ⟨empty, w, hempty, hfirst, hw⟩ := hleft
  · refine hleft.commit (fun v => restoreDbSnapshot iso v.snapshot v.db) ?_ hrestore
    intro w db hw hdb
    rw [hw.snapshot]
    rw [hsnapshot] at hdb ⊢
    exact restoreDbSnapshot_rows hiso (fun table => (hw.rows table).symm) hdb
  · refine ⟨empty, w, hempty, hfirst, hw.file, hw.backup, hw.snapshot, ?_⟩
    obtain ⟨w₀, -, hcommit⟩ := bind_ok hfirst
    obtain ⟨first, hfirst', rfl⟩ := Volume.commit_ok.mp hcommit
    rw [show w₀.snapshot = v₁.snapshot from hw.snapshot, hsnapshot] at hfirst'
    obtain ⟨other, hother, hsame⟩ := restoreDbSnapshot_again hiso hw.rows hfirst'
    obtain rfl := Except.ok.inj (hother.symm.trans hdb)
    exact fun table => (hw.rows table).trans (hsame table)

theorem Reached.halt (hiso : iso.Lawful) (h : Reached iso driver file origin v) {halt : Halt}
    (hserial : halt = .migrating .afterCommit → ∀ old, file = some old → ¬hasSerialRecords iso old)
    (hhalt : Halted iso driver v halt v') : Reached iso driver file origin v' := by
  cases hhalt with
  | migrating hstop =>
    refine ⟨h.snapshot, ?_⟩
    cases hstop with
    | inTransaction hfile hdb =>
      cases h.stage with
      | empty hfile hbackup hempty => exact .empty hfile hbackup hempty
      | committed hold hfile hbackup hempty hserial hexecute hrows =>
        exact .committed hold hfile hbackup hempty hserial hexecute hrows
      | migrated hleft => exact .migrated (hleft.alike ⟨rfl, rfl, rfl, fun _ => rfl⟩)
      | restored hleft => exact .restored (hleft.alike ⟨rfl, rfl, rfl, fun _ => rfl⟩)
    | afterCommit hfile' hdb =>
      cases h.stage with
      | empty hfile hbackup hempty =>
        have hold := hfile.symm.trans hfile'
        exact .committed hold hfile hbackup hempty (hserial rfl _ hold) hdb fun _ => rfl
      | committed hold hfile hbackup hempty hserial' hexecute hrows =>
        obtain rfl := Option.some.inj ((hold.symm.trans hfile.symm).trans hfile')
        refine .committed hold hfile hbackup hempty hserial' hexecute fun table => ?_
        exact (hrows table).trans (execute_again hserial' hexecute hrows hdb table)
      | migrated hleft =>
        obtain ⟨empty, w, -, hmigrate, hw⟩ := hleft
        cases (hw.file.symm.trans (file_of_migrateVolume hmigrate)).symm.trans hfile'
      | restored hleft =>
        obtain ⟨empty, w, -, hinit, hw⟩ := hleft
        cases (hw.file.symm.trans (file_of_initDatabase hinit)).symm.trans hfile'
  | migrated hmigrate =>
    obtain ⟨hsnapshot, hleft⟩ := h.migrate hmigrate
    exact ⟨hsnapshot, hleft.elim .migrated .restored⟩
  | restoring hmigrate =>
    obtain ⟨hsnapshot, hleft⟩ := h.migrate hmigrate
    refine ⟨hsnapshot, ?_⟩
    obtain hleft | hleft := hleft
    · exact .migrated (hleft.alike ⟨rfl, rfl, rfl, fun _ => rfl⟩)
    · exact .restored (hleft.alike ⟨rfl, rfl, rfl, fun _ => rfl⟩)
  | restored hinit =>
    obtain ⟨hsnapshot, hleft⟩ := h.init hiso hinit
    exact ⟨hsnapshot, .restored hleft⟩

theorem Attempts.reached (hiso : iso.Lawful) {db : Database T} (hempty : db.Empty) {halts : List Halt}
    (hserial : .migrating .afterCommit ∈ halts → ∀ old, file = some old → ¬hasSerialRecords iso old)
    (h : Attempts iso driver (.unbooted file (origin.map (writeDbSnapshot iso)) db) halts v) :
    Reached iso driver file origin v := by
  induction h with
  | none => exact ⟨rfl, .empty rfl rfl hempty⟩
  | halted _ hhalt ih =>
    refine (ih fun hmem => hserial (List.mem_cons_of_mem _ hmem)).halt hiso (fun heq => hserial ?_) hhalt
    rw [heq]
    exact List.mem_cons_self

/-- However many boots have stopped before, and wherever, the boot that completes leaves the rows that a single boot
leaves on an empty database, unless one was stopped between the commit and the renaming of a file with records of tables
that draw their keys. -/
theorem boot_as_undisturbed (hiso : iso.Lawful) {halts : List Halt} {accepts : String → Bool}
    {created : List (String × Value T)}
    (hattempts : Attempts iso driver (.unbooted file (origin.map (writeDbSnapshot iso)) (Database.fresh T)) halts v)
    (hserial : .migrating .afterCommit ∈ halts → ∀ old, file = some old → ¬hasSerialRecords iso old)
    (hboot : boot iso driver accepts created v = .ok v') :
    LeftBy iso (boot iso driver accepts created) file origin v' := by
  obtain ⟨v₁, hinit, hcreate⟩ := bind_ok hboot
  have hleft := ((hattempts.reached hiso (fun _ => rfl) hserial).init hiso hinit).2
  refine hleft.commit (fun v => initDefaultIdentity accepts created v.db) ?_ hcreate
  exact fun w db hw hdb => initDefaultIdentity_rows (fun table => (hw.rows table).symm) hdb

end Stopping

/-! ## Two shards -/

theorem exists_of_isOk {ε α : Type} {x : Except ε α} (h : x.isOk = true) : ∃ a, x = .ok a := by
  cases x with
  | error e => cases h
  | ok a => exact ⟨a, rfl⟩

/-- An old file with one tour. -/
def welcomeTour : TinyDb := [("tours", [("1", [("name", .string "welcome"), ("status", .string "seen")])])]

/-- What the migration of that file commits. -/
def toured : Database String :=
  match execute (statements plainIso plainDriver welcomeTour) (Database.fresh String) with
  | .ok db => db
  | .error _ => Database.fresh String

theorem execute_toured :
    execute (statements plainIso plainDriver welcomeTour) (Database.fresh String) = .ok toured := by
  have hok : (execute (statements plainIso plainDriver welcomeTour) (Database.fresh String)).isOk = true := by
    decide +kernel
  obtain ⟨db, hdb⟩ := exists_of_isOk hok
  rw [toured, hdb]

/-- The snapshot of another shard next to the old file. -/
def upgraded (db : Database String) : Volume String :=
  .unbooted (some welcomeTour) ((some (trackedShard (.array [.string "notes"]))).map (writeDbSnapshot plainIso)) db

/-- The first boot stops before it renames the file, the second one before it looks for an identity. -/
theorem boot_as_undisturbed_upgraded : ∃ v v',
    Attempts plainIso plainDriver (upgraded (Database.fresh String)) [.restored, .migrating .afterCommit] v ∧
      boot plainIso plainDriver (fun _ => true) [] v = .ok v' ∧
      LeftBy plainIso (boot plainIso plainDriver (fun _ => true) []) (some welcomeTour)
        (some (trackedShard (.array [.string "notes"]))) v' := by
  have hok : (initDatabase plainIso plainDriver (upgraded toured) >>=
      boot plainIso plainDriver (fun _ => true) []).isOk = true := by
    decide +kernel
  obtain ⟨v', hv'⟩ := exists_of_isOk hok
  obtain ⟨v, hinit, hboot⟩ := bind_ok hv'
  have hattempts : Attempts plainIso plainDriver (upgraded (Database.fresh String))
      [.restored, .migrating .afterCommit] v :=
    .halted (.halted .none (.migrating (.afterCommit rfl execute_toured))) (.restored hinit)
  refine ⟨v, v', hattempts, hboot, boot_as_undisturbed (fun _ => rfl) hattempts ?_ hboot⟩
  rintro - old hold
  obtain rfl := Option.some.inj hold
  rintro (h | h) <;> exact h rfl

/-! ## After the first boot -/

/-- The old file is gone and there is an identity. -/
structure Settled (v : Volume T) : Prop where
  file : v.file = none
  identity : (v.db .identities).rows ≠ []

theorem Settled.populated {v : Volume T} (h : Settled v) : dbAlreadyPopulated v.db = true := by
  rw [dbAlreadyPopulated, Bool.not_eq_true', List.isEmpty_eq_false_iff]
  exact h.identity

theorem Settled.initDatabase {v : Volume T} (h : Settled v) : initDatabase iso driver v = .ok v := by
  have hrestore : restoreDbSnapshot iso v.snapshot v.db = .ok v.db := by
    unfold restoreDbSnapshot
    cases v.snapshot with
    | none => rfl
    | some snapshot => exact if_pos h.populated
  unfold Db.initDatabase
  rw [migrateVolume_of_none h.file]
  exact Volume.commit_ok.mpr ⟨v.db, hrestore, rfl⟩

theorem Settled.boot {v : Volume T} (h : Settled v) (accepts : String → Bool) (created : List (String × Value T)) :
    Db.boot iso driver accepts created v = v.commit .identity ((loadDefault accepts v.db).map fun _ => v.db) := by
  unfold Db.boot initDefaultIdentity
  rw [h.initDatabase]
  change v.commit .identity (if (v.db .identities).rows.isEmpty = true then _ else _) = _
  rw [if_neg (by simpa using h.identity)]

/-- A later boot completes exactly if the default identity can be loaded, and leaves everything as it is. -/
theorem Settled.boot_ok {v v' : Volume T} (h : Settled v) (accepts : String → Bool) (created : List (String × Value T)) :
    Db.boot iso driver accepts created v = .ok v' ↔
      (∃ identity, loadDefault accepts v.db = .ok identity) ∧ v' = v := by
  rw [h.boot, Volume.commit_ok]
  cases loadDefault accepts v.db with
  | error e =>
    constructor
    · rintro ⟨db, hdb, -⟩
      cases hdb
    · rintro ⟨⟨identity, hidentity⟩, -⟩
      cases hidentity
  | ok identity =>
    constructor
    · rintro ⟨db, hdb, rfl⟩
      obtain rfl := Except.ok.inj hdb
      exact ⟨⟨identity, rfl⟩, rfl⟩
    · rintro ⟨-, rfl⟩
      exact ⟨v'.db, rfl, rfl⟩

theorem Settled.halted {v v' : Volume T} {halt : Halt} (h : Settled v) (hhalt : Halted iso driver v halt v') :
    v' = v := by
  cases hhalt with
  | migrating hstop =>
    cases hstop with
    | inTransaction hfile | afterCommit hfile => cases h.file.symm.trans hfile
  | migrated hmigrate => exact (Except.ok.inj ((migrateVolume_of_none h.file).symm.trans hmigrate)).symm
  | restoring hmigrate hrestore hfresh =>
    obtain rfl := Except.ok.inj ((migrateVolume_of_none h.file).symm.trans hmigrate)
    cases h.populated.symm.trans hfresh
  | restored hinit => exact (Except.ok.inj (h.initDatabase.symm.trans hinit)).symm

theorem settled_of_boot {v v' : Volume T} {accepts : String → Bool} {created : List (String × Value T)}
    (h : boot iso driver accepts created v = .ok v') : Settled v' := by
  obtain ⟨v₁, hinit, hcreate⟩ := bind_ok h
  obtain ⟨db, hdb, rfl⟩ := Volume.commit_ok.mp hcreate
  have hfile := file_of_initDatabase hinit
  refine ⟨hfile, ?_⟩
  unfold initDefaultIdentity at hdb
  split at hdb
  · cases ht : (v₁.db .identities).insert false created with
    | error e =>
      rw [ht] at hdb
      cases hdb
    | ok t =>
      rw [ht] at hdb
      obtain rfl := Except.ok.inj hdb
      obtain ⟨row, -, -, ⟨-, hdo, -⟩ | ⟨-, hrows⟩⟩ := Table.insert_cases ht
      · cases hdo
      · change (Function.update v₁.db .identities t .identities).rows ≠ []
        rw [Function.update_self, hrows]
        exact List.append_ne_nil_of_right_ne_nil _ (List.cons_ne_nil _ _)
  · next hidentity =>
    cases hload : loadDefault accepts v₁.db with
    | error e =>
      rw [hload] at hdb
      cases hdb
    | ok identity =>
      rw [hload] at hdb
      obtain rfl := Except.ok.inj hdb
      simpa using hidentity

theorem Settled.works {v v' : Volume T} (h : Settled v) (hworks : Works iso v v') : Settled v' := by
  have hkeep : ∀ {table : TableName} {t : Table (schema table) T},
      (table = .identities → t.rows ≠ []) → (Function.update v.db table t .identities).rows ≠ [] := by
    intro table t hrows
    by_cases htable : table = .identities
    · subst htable
      rw [Function.update_self]
      exact hrows rfl
    · rw [Function.update_of_ne (Ne.symm htable)]
      exact h.identity
  cases hworks with
  | insert hinsert =>
    refine ⟨h.file, hkeep ?_⟩
    rintro rfl
    obtain ⟨row, -, -, ⟨-, -, hrows⟩ | ⟨-, hrows⟩⟩ := Table.insert_cases hinsert
    · rw [hrows]
      exact h.identity
    · rw [hrows]
      exact List.append_ne_nil_of_right_ne_nil _ (List.cons_ne_nil _ _)
  | update hrows =>
    refine ⟨h.file, hkeep ?_⟩
    rintro rfl hnil
    rw [hnil] at hrows
    exact h.identity (List.length_eq_zero_iff.mp hrows.symm)
  | delete hidentities hrows => exact ⟨h.file, hkeep fun htable => absurd htable hidentities⟩
  | backup => exact ⟨h.file, h.identity⟩

/-- Once a boot has completed, no later one changes anything, whether it completes, stops or cannot load the default
identity: whatever the shard has stored in the meantime, no snapshot is restored over it and no record of the old file
comes back. A later boot completes exactly if the default identity can be loaded. -/
theorem restart_changes_nothing {v₀ v : Volume T} (h : Life iso driver v₀ true v) :
    (∀ accepts created v', boot iso driver accepts created v = .ok v' ↔
      (∃ identity, loadDefault accepts v.db = .ok identity) ∧ v' = v) ∧
    ∀ halt v', Halted iso driver v halt v' → v' = v := by
  have hsettled : Settled v := by
    generalize hbooted : true = booted at h
    induction h with
    | new => cases hbooted
    | halted _ hhalt ih => exact (ih hbooted).halted hhalt ▸ ih hbooted
    | booted _ hboot _ => exact settled_of_boot hboot
    | works _ hworks ih => exact (ih rfl).works hworks
  exact ⟨fun accepts created v' => hsettled.boot_ok accepts created, fun halt v' hhalt => hsettled.halted hhalt⟩

/-- The shard is backed up after its first boot, and boots again. -/
theorem restart_changes_nothing_upgraded : ∃ v, Life plainIso plainDriver (upgraded (Database.fresh String)) true v ∧
    v.snapshot = some (writeDbSnapshot plainIso v.db) ∧
    (∀ created, boot plainIso plainDriver (fun _ => true) created v = .ok v) ∧
    ∀ halt v', Halted plainIso plainDriver v halt v' → v' = v := by
  have hok : ((boot plainIso plainDriver (fun _ => true) [] (upgraded (Database.fresh String))).bind fun v =>
      boot plainIso plainDriver (fun _ => true) [] v).isOk = true := by decide +kernel
  obtain ⟨v', hv'⟩ := exists_of_isOk hok
  obtain ⟨v, hboot, hagain⟩ := bind_ok hv'
  have hlife : Life plainIso plainDriver (upgraded (Database.fresh String)) true
      { v with snapshot := some (writeDbSnapshot plainIso v.db) } := .works (.booted .new hboot) .backup
  have hload : ∃ identity, loadDefault (fun _ => true) v.db = .ok identity :=
    (((settled_of_boot hboot).boot_ok _ _).mp hagain).1
  obtain ⟨hboots, hhalts⟩ := restart_changes_nothing hlife
  exact ⟨_, hlife, rfl, fun created => (hboots _ created _).mpr ⟨hload, rfl⟩, hhalts⟩

end Freeshard.Db

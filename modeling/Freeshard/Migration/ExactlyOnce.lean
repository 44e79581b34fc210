import Freeshard.Database.TinydbMigration
import Freeshard.Sql.Inserts

/-! # Every record once

A migration that is stopped after its commit is repeated on the next boot. Then the tables whose rows have keys
of their own stay as they are, and the records of the others are inserted once more. -/

namespace Freeshard.Db
open Sql
set_option autoImplicit false

variable {T : Type} {iso : IsoFormat T} {driver : Driver T}

/-! ## Statements of one table -/

section Kinds
variable {record : Record T} {st : Statement T}

theorem bind_ok {ε α β : Type} {x : Except ε α} {f : α → Except ε β} {b : β}
    (h : (x >>= f) = .ok b) : ∃ a, x = .ok a ∧ f a = .ok b := by
  cases x with
  | error e => cases h
  | ok a => exact ⟨a, rfl, h⟩

/-- A record becomes a statement for its table, with a conflict clause unless the table draws its keys. -/
theorem migrateRecord_ok {table : TableName} (h : migrateRecord iso driver table record = .ok st) :
    st.table = table ∧ st.doNothing = !(schema table).serial := by
  cases table with
  | kvStore =>
    obtain ⟨key, -, h⟩ := bind_ok h
    obtain ⟨value, -, h⟩ := bind_ok h
    obtain ⟨converted, -, h⟩ := bind_ok h
    cases h
    exact ⟨rfl, rfl⟩
  | backups =>
    obtain ⟨startTime, -, h⟩ := bind_ok h
    obtain ⟨endTime, -, h⟩ := bind_ok h
    cases h
    exact ⟨rfl, rfl⟩
  | appUsageTracks =>
    obtain ⟨timestamp, -, h⟩ := bind_ok h
    obtain ⟨installedApps, -, h⟩ := bind_ok h
    obtain ⟨converted, -, h⟩ := bind_ok h
    cases h
    exact ⟨rfl, rfl⟩
  | _ =>
    obtain ⟨values, -, h⟩ := bind_ok h
    cases h
    exact ⟨rfl, rfl⟩

end Kinds

/-- The columns of a statement for this table. -/
def valuesFor (table : TableName) : Except MigrationError (Statement T) → Option (List (String × Value T))
  | .ok st => if st.table = table then some st.values else none
  | .error _ => none

/-- What becomes of the records of a file for a table: the columns that their rows are to hold. -/
def recordValues (iso : IsoFormat T) (driver : Driver T) (file : TinyDb) (table : TableName) :
    List (List (String × Value T)) :=
  (records iso file (fileTable table)).filterMap fun record =>
    valuesFor table (migrateRecord iso driver table record)

theorem valuesFor_migrateRecord_ne {table other : TableName} (h : other ≠ table) (record : Record T) :
    valuesFor table (migrateRecord iso driver other record) = none := by
  cases hst : migrateRecord iso driver other record with
  | error e => rfl
  | ok st =>
    rw [valuesFor, if_neg]
    rw [(migrateRecord_ok hst).1]
    exact h

theorem statements_valuesFor (file : TinyDb) (table : TableName) :
    (statements iso driver file).filterMap (valuesFor table) = recordValues iso driver file table := by
  have hone : ∀ other, ((records iso file (fileTable other)).map (migrateRecord iso driver other)).filterMap
      (valuesFor table) = if other = table then recordValues iso driver file table else [] := by
    intro other
    rw [List.filterMap_map]
    split_ifs with hother
    · subst hother
      rfl
    · rw [List.filterMap_eq_nil_iff]
      exact fun record _ => valuesFor_migrateRecord_ne hother record
  unfold statements
  rw [List.filterMap_flatMap]
  simp only [hone, migrationOrder, List.flatMap_cons, List.flatMap_nil]
  cases table <;> simp

/-- All flags are those of the tables. -/
def Flagged (list : List (Except MigrationError (Statement T))) : Prop :=
  ∀ st, .ok st ∈ list → st.doNothing = !(schema st.table).serial

theorem flagged_statements (file : TinyDb) : Flagged (statements iso driver file) := by
  intro st hst
  obtain ⟨table, -, hst⟩ := List.mem_flatMap.mp hst
  obtain ⟨record, -, hrecord⟩ := List.mem_map.mp hst
  obtain ⟨htable, hflag⟩ := migrateRecord_ok hrecord
  rw [htable]
  exact hflag

theorem execute_table {list : List (Except MigrationError (Statement T))} (hflagged : Flagged list)
    {db db' : Database T} (h : execute list db = .ok db') (table : TableName) :
    insertAll (!(schema table).serial) (list.filterMap (valuesFor table)) (db table) = .ok (db' table) := by
  induction list generalizing db with
  | nil =>
    obtain rfl := Except.ok.inj h
    rfl
  | cons statement list ih =>
    unfold execute at h
    rw [List.foldlM_cons] at h
    obtain ⟨db₁, hstep, hrest⟩ := bind_ok h
    obtain ⟨st, rfl, hinsert⟩ := bind_ok hstep
    have hflags : Flagged list := fun st hst => hflagged st (List.mem_cons_of_mem _ hst)
    have hflag := hflagged st List.mem_cons_self
    split at hinsert
    · next t ht =>
      obtain rfl := Except.ok.inj hinsert
      have hrest := ih hflags hrest
      by_cases hst : st.table = table
      · subst hst
        rw [Function.update_self] at hrest
        rw [List.filterMap_cons_some (b := st.values) (by rw [valuesFor, if_pos rfl])]
        unfold insertAll at hrest ⊢
        rw [List.foldlM_cons, ← hflag, ht, hflag]
        exact hrest
      · rw [Function.update_of_ne (Ne.symm hst)] at hrest
        rw [List.filterMap_cons_none (by rw [valuesFor, if_neg hst])]
        exact hrest
    · cases hinsert

theorem execute_records {file : TinyDb} {db db' : Database T}
    (h : execute (statements iso driver file) db = .ok db') (table : TableName) :
    insertAll (!(schema table).serial) (recordValues iso driver file table) (db table) =
      .ok (db' table) := by
  rw [← statements_valuesFor]
  exact execute_table (flagged_statements file) h table

theorem keyed_of_not_serial {table : TableName} (h : (schema table).serial = false) :
    (schema table).Keyed := by
  intro c hc
  cases table with
  | backups | appUsageTracks => exact absurd h (by decide)
  | _ =>
    obtain rfl := Option.some.inj hc
    decide

/-- How often a boot was stopped after its commit. -/
def commits (stops : List Stop) : ℕ := stops.count .afterCommit

/-- What a table holds after so many commits of the migration. -/
structure Holdings (iso : IsoFormat T) (driver : Driver T) (file : TinyDb) (table : TableName)
    (n : ℕ) (rows : List (Sql.Row (schema table) T)) : Prop where
  before : n = 0 → rows = []
  keyed : (schema table).serial = false → n ≠ 0 →
    (∀ values ∈ recordValues iso driver file table,
      valuesKey (schema table) values ∈ rows.map Sql.Row.key) ∧
    (rows.length = (recordValues iso driver file table).length ↔
      ((recordValues iso driver file table).map (valuesKey (schema table))).Nodup) ∧
    (rows.length = (recordValues iso driver file table).length →
      List.Forall₂ Sql.Row.Holds (recordValues iso driver file table) rows)
  serial : (schema table).serial = true →
    rows.length = n * (recordValues iso driver file table).length ∧
    (n = 1 → List.Forall₂ Sql.Row.Holds (recordValues iso driver file table) rows)

theorem Holdings.commit {file : TinyDb} {table : TableName} {n : ℕ} {t t' : Table (schema table) T}
    (h : Holdings iso driver file table n t.rows)
    (hinsert : insertAll (!(schema table).serial) (recordValues iso driver file table) t = .ok t') :
    Holdings iso driver file table (n + 1) t'.rows where
  before hn := by cases hn
  keyed hserial _ := by
    have hkeyed := keyed_of_not_serial hserial
    rw [hserial, Bool.not_false] at hinsert
    by_cases hn : n = 0
    · have hempty := h.before hn
      obtain ⟨added, hrows, -, hiff, hall⟩ := insertAll_keyed hkeyed hinsert
      rw [hempty, List.nil_append] at hrows
      rw [hempty, List.map_nil, List.nil_append] at hiff
      rw [hrows]
      refine ⟨?_, hiff, hall⟩
      rw [← hrows]
      exact (insertAll_keys hkeyed hinsert).2
    · have hkeys := h.keyed hserial hn
      rw [insertAll_again hkeyed hkeys.1 hinsert]
      exact hkeys
  serial hserial := by
    rw [hserial, Bool.not_true] at hinsert
    obtain ⟨hlength, -⟩ := h.serial hserial
    obtain ⟨added, hrows, hall⟩ := insertAll_plain hinsert
    rw [hrows]
    refine ⟨?_, fun hn => ?_⟩
    · rw [List.length_append, hlength, ← hall.length_eq, Nat.succ_mul]
    · rw [h.before (by omega), List.nil_append]
      exact hall

/-- Every record of the file has a row of its own, and there is no other row. -/
def ExactlyOnce (iso : IsoFormat T) (driver : Driver T) (file : TinyDb) (db : Database T) : Prop :=
  ∀ table, ∃ rows, rows.Perm (db table).rows ∧
    List.Forall₂ Sql.Row.Holds (recordValues iso driver file table) rows

/-- Records of the tables that draw their keys. -/
def hasSerialRecords (iso : IsoFormat T) (file : TinyDb) : Prop :=
  records iso file "backups" ≠ [] ∨ records iso file "app_usage_track" ≠ []

theorem hasSerialRecords_iff {file : TinyDb} : hasSerialRecords iso file ↔
    ∃ table, (schema table).serial = true ∧ records iso file (fileTable table) ≠ [] := by
  constructor
  · rintro (h | h)
    · exact ⟨.backups, rfl, h⟩
    · exact ⟨.appUsageTracks, rfl, h⟩
  · rintro ⟨table, hserial, h⟩
    cases table with
    | backups => exact .inl h
    | appUsageTracks => exact .inr h
    | _ => exact absurd hserial (by decide)

theorem ExactlyOnce.length {file : TinyDb} {db : Database T} (h : ExactlyOnce iso driver file db)
    (table : TableName) : (db table).rows.length = (recordValues iso driver file table).length := by
  obtain ⟨rows, hperm, hall⟩ := h table
  rw [← hperm.length_eq, hall.length_eq]

/-- The driver takes a value as it is if it has the type of the column. -/
def plainDriver : Driver String
  | _, .none => some .null
  | .text, .str s => some (.text s)
  | .boolean, .bool b => some (.boolean b)
  | .timestamptz, .datetime t => some (.timestamptz t)
  | _, _ => none

end Freeshard.Db

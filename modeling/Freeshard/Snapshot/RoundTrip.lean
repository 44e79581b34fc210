import Freeshard.Database.DbSnapshot
import Freeshard.Sql.Inserts

/-! # Restoring a snapshot

The snapshot of a database brings back its rows, up to JSON `null`s, which become `NULL`. So the restore fails
on the one column that holds JSON but no `NULL`, if there is a JSON `null` in it; and a sequence can only be set
to a positive number. -/

namespace Freeshard.Db
open Sql
set_option autoImplicit false

variable {T : Type} {iso : IsoFormat T} {s : Schema}

/-! ## Values -/

/-- What becomes of a value. -/
def restoredValue : Value T → Value T
  | .jsonb .null => .null
  | v => v

theorem restoredValue_cases (v : Value T) :
    restoredValue v = v ∨ v = .jsonb .null ∧ restoredValue v = .null := by
  cases v with
  | jsonb json => cases json <;> first | exact .inl rfl | exact .inr ⟨rfl, rfl⟩
  | _ => exact .inl rfl

theorem key_restoredValue (v : Value T) : (restoredValue v).key = v.key := by
  obtain heq | ⟨rfl, heq⟩ := restoredValue_cases v
  · rw [heq]
  · rw [heq]
    rfl

theorem adaptValue_dumps (hiso : iso.Lawful) {c : Column} {v : Value T} (h : c.accepts v = true) :
    adaptValue iso (dumps iso (toPython v)) (some c.type) = .ok (restoredValue v) := by
  unfold Column.accepts at h
  cases v with
  | null => rfl
  | text text =>
    have htype : ColumnType.text = c.type := by simpa [Value.type] using h
    rw [← htype]
    rfl
  | boolean b =>
    have htype : ColumnType.boolean = c.type := by simpa [Value.type] using h
    rw [← htype]
    rfl
  | integer n =>
    have htype : ColumnType.integer = c.type := by simpa [Value.type] using h
    rw [← htype]
    simp [toPython, dumps, adaptValue, restoredValue]
  | timestamptz t =>
    have htype : ColumnType.timestamptz = c.type := by simpa [Value.type] using h
    rw [← htype]
    simp [toPython, dumps, adaptValue, restoredValue, hiso t]
  | jsonb json =>
    have htype : ColumnType.jsonb = c.type := by simpa [Value.type] using h
    rw [← htype]
    cases json <;> rfl

/-! ## Rows -/

theorem lookup_columns {α : Type} (f : Column → α) {c : Column} (h : c ∈ s.columns) :
    (s.columns.map fun c => (c.name, f c)).lookup c.name = some (f c) := by
  have hnodup := s.columns_nodup
  generalize s.columns = columns at h hnodup
  induction columns with
  | nil => cases h
  | cons c' columns ih =>
    rw [List.map_cons, List.nodup_cons] at hnodup
    rw [List.map_cons, List.lookup_cons]
    obtain rfl | hmem := List.mem_cons.mp h
    · rw [beq_self_eq_true]
    · have hne : c.name ≠ c'.name := by
        intro heq
        rw [← heq] at hnodup
        exact hnodup.1 (List.mem_map_of_mem hmem)
      rw [beq_false_of_ne hne]
      exact ih hmem hnodup.2

def restoredValues (row : Row s T) : List (String × Value T) :=
  s.columns.map fun c => (c.name, restoredValue (row.value c.name))

theorem insertRow_dumpRow (hiso : iso.Lawful) (row : Row s T) (t : Table s T) :
    insertRow iso (columnTypes s) (dumpRow iso row) t =
      sqlResult (t.insert true (restoredValues row)) := by
  have hmap : ∀ columns ⊆ s.columns,
      (columns.map fun c => (c.name, dumps iso (toPython (row.value c.name)))).mapM
        (fun cell : String × Json => do
          let adapted ← adaptValue iso cell.2 ((columnTypes s).lookup cell.1)
          return (cell.1, adapted)) =
      (.ok (columns.map fun c => (c.name, restoredValue (row.value c.name))) :
        Except RestoreError (List (String × Value T))) := by
    intro columns hsub
    induction columns with
    | nil => rfl
    | cons c columns ih =>
      have hc : c ∈ s.columns := hsub List.mem_cons_self
      rw [List.map_cons, List.mapM_cons, ih (fun c hc => hsub (List.mem_cons_of_mem _ hc)), columnTypes,
        lookup_columns _ hc, adaptValue_dumps hiso (row.accepted c hc)]
      rfl
  unfold insertRow dumpRow
  rw [hmap s.columns (List.Subset.refl _)]
  rfl

/-- The row `row'` holds what is restored of `row`. -/
def Restores (row row' : Row s T) : Prop := ∀ name, row'.value name = restoredValue (row.value name)

theorem Restores.key {row row' : Row s T} (h : Restores row row') : row'.key = row.key := by
  rw [Row.key, h, key_restoredValue, Row.key]

/-- The columns admit what is restored. -/
def Restorable (row : Row s T) : Prop :=
  ∀ c ∈ s.columns, c.accepts (restoredValue (row.value c.name)) = true

theorem fill_restoredValues (row : Row s T) (id : ℤ) (name : String) :
    fill s (restoredValues row) id name = restoredValue (row.value name) := by
  by_cases hname : name ∈ s.columnNames
  · obtain ⟨c, hc, rfl⟩ := List.mem_map.mp hname
    rw [fill_column hc, restoredValues, lookup_columns _ hc]
    rfl
  · rw [fill_elsewhere name hname, row.elsewhere name hname]
    rfl

theorem mk?_restoredValues {row row' : Row s T} {id : ℤ}
    (h : Row.mk? s (restoredValues row) id = some row') : Restores row row' ∧ Restorable row := by
  unfold Row.mk? at h
  split at h
  · next haccepted =>
    obtain rfl := Option.some.inj h
    refine ⟨fun name => fill_restoredValues row id name, fun c hc => ?_⟩
    rw [← fill_restoredValues row id]
    exact haccepted c hc
  · cases h

theorem mk?_of_restorable {row : Row s T} (h : Restorable row) (id : ℤ) :
    ∃ row', Row.mk? s (restoredValues row) id = some row' := by
  unfold Row.mk?
  rw [dif_pos]
  · exact ⟨_, rfl⟩
  · intro c hc
    rw [fill_restoredValues]
    exact h c hc

theorem afterInsert_restoredValues (row : Row s T) (q : Sequence) :
    q.afterInsert s (restoredValues row) = q := by
  unfold Sequence.afterInsert
  rw [if_neg]
  simp only [List.any_eq_true, Bool.and_eq_true, Option.isNone_iff_eq_none, not_exists, not_and]
  intro c hc _ hnone
  rw [restoredValues, lookup_columns _ hc] at hnone
  cases hnone

/-! ## Rows of a table -/

theorem find?_restoredValues (row : Row s T) :
    (restoredValues row).find? (·.1 ∉ s.columnNames) = none := by
  rw [List.find?_eq_none]
  intro value hvalue
  obtain ⟨c, hc, rfl⟩ := List.mem_map.mp hvalue
  simpa [Schema.columnNames] using ⟨c, hc, rfl⟩

theorem insert_restoredValues {row : Row s T} {t : Table s T} (h : Restorable row)
    (hkey : row.key ∉ t.rows.map Row.key) :
    ∃ row' t', t.insert true (restoredValues row) = .ok t' ∧ Restores row row' ∧
      t'.rows = t.rows ++ [row'] ∧ t'.sequence = t.sequence := by
  obtain ⟨row', hrow⟩ := mk?_of_restorable h t.sequence.next
  have hrestores := (mk?_restoredValues hrow).1
  have hkey' : row'.key ∉ t.rows.map Row.key := by rwa [hrestores.key]
  unfold Table.insert
  rw [find?_restoredValues, hrow]
  dsimp only
  rw [dif_neg hkey']
  exact ⟨row', _, rfl, hrestores, rfl, afterInsert_restoredValues row t.sequence⟩

theorem restoreRows (hiso : iso.Lawful) {rows : List (Row s T)} {t : Table s T}
    (h : ∀ row ∈ rows, Restorable row) (hkeys : (t.rows.map Row.key ++ rows.map Row.key).Nodup) :
    ∃ t' rows', (rows.map (dumpRow iso)).foldlM
        (fun t row => insertRow iso (columnTypes s) row t) t = .ok t' ∧
      List.Forall₂ Restores rows rows' ∧ t'.rows = t.rows ++ rows' ∧ t'.sequence = t.sequence := by
  induction rows generalizing t with
  | nil => exact ⟨t, [], rfl, .nil, (List.append_nil _).symm, rfl⟩
  | cons row rows ih =>
    rw [List.map_cons] at hkeys
    have hkey : row.key ∉ t.rows.map Row.key := fun hmem =>
      (List.nodup_append.mp hkeys).2.2 _ hmem _ List.mem_cons_self rfl
    obtain ⟨row', t₁, hinsert, hrestores, hrows, hsequence⟩ :=
      insert_restoredValues (h row List.mem_cons_self) hkey
    have hkeys₁ : (t₁.rows.map Row.key ++ rows.map Row.key).Nodup := by
      rw [hrows, List.map_append, List.map_singleton, hrestores.key, List.append_assoc]
      exact hkeys
    obtain ⟨t', rows', hfold, hall, hrows', hsequence'⟩ :=
      ih (fun row hrow => h row (List.mem_cons_of_mem _ hrow)) hkeys₁
    refine ⟨t', row' :: rows', ?_, .cons hrestores hall, ?_, hsequence'.trans hsequence⟩
    · rw [List.map_cons, List.foldlM_cons, insertRow_dumpRow hiso, hinsert]
      exact hfold
    · rw [hrows', hrows, List.append_assoc]
      rfl

theorem restorable_of_restoreRows (hiso : iso.Lawful) {rows : List (Row s T)} {t t' : Table s T}
    (h : (rows.map (dumpRow iso)).foldlM
      (fun t row => insertRow iso (columnTypes s) row t) t = .ok t') :
    ∀ row ∈ rows, Restorable row := by
  induction rows generalizing t with
  | nil => exact fun _ hrow => by cases hrow
  | cons row rows ih =>
    rw [List.map_cons, List.foldlM_cons, insertRow_dumpRow hiso] at h
    cases hinsert : t.insert true (restoredValues row) with
    | error e =>
      rw [hinsert] at h
      cases h
    | ok t₁ =>
      rw [hinsert] at h
      obtain ⟨row', hrow', -⟩ := Table.insert_cases hinsert
      intro other hother
      obtain rfl | hother := List.mem_cons.mp hother
      · exact (mk?_restoredValues hrow').2
      · exact ih h other hother

/-! ## Sequences -/

def rowId (row : Row s T) : Option ℤ :=
  match row.value "id" with
  | .integer n => some n
  | _ => none

/-- The ids of a table. -/
def ids (t : Table s T) : List ℤ := t.rows.filterMap rowId

theorem resetSequences_eq (table : TableName) (t : Table (schema table) T) :
    resetSequences t =
      if (schema table).serial then setval t ((ids t).max?.getD 1) else .ok t := by
  cases table with
  | appUsageTracks | backups =>
    change ((setval t ((ids t).max?.getD 1)) >>= fun t' => .ok t') = setval t ((ids t).max?.getD 1)
    cases setval t ((ids t).max?.getD 1) <;> rfl
  | _ => rfl

theorem rowId_eq_some {row : Row s T} {n : ℤ} : rowId row = some n ↔ row.value "id" = .integer n := by
  unfold rowId
  cases row.value "id" <;> simp

theorem Restores.rowId {row row' : Row s T} (h : Restores row row') : rowId row' = rowId row := by
  unfold Db.rowId
  rw [h "id"]
  obtain heq | ⟨hnull, heq⟩ := restoredValue_cases (row.value "id")
  · rw [heq]
  · rw [heq, hnull]

theorem ids_restored {t t' : Table s T} (h : List.Forall₂ Restores t.rows t'.rows) :
    ids t' = ids t := by
  unfold ids
  generalize t.rows = rows at h
  generalize t'.rows = rows' at h
  induction h with
  | nil => rfl
  | cons hrow _ ih => rw [List.filterMap_cons, List.filterMap_cons, ih, hrow.rowId]

theorem exists_id {table : TableName} (h : (schema table).serial = true) (row : Row (schema table) T) :
    ∃ n, row.value "id" = .integer n := by
  have hmem : serialId ∈ (schema table).columns := by
    cases table <;> first | exact List.mem_cons_self | exact absurd h (by decide)
  have haccepts : serialId.accepts (row.value "id") = true := row.accepted serialId hmem
  cases hvalue : row.value "id" with
  | integer n => exact ⟨n, rfl⟩
  | _ =>
    rw [hvalue] at haccepts
    cases haccepts

theorem max_ids {t : Table s T} {n : ℤ} (h : n ∈ ids t) :
    n ≤ (ids t).max?.getD 1 ∧ (ids t).max?.getD 1 ∈ ids t := by
  cases hmax : (ids t).max? with
  | none =>
    rw [List.max?_eq_none_iff] at hmax
    rw [hmax] at h
    cases h
  | some m =>
    obtain ⟨hmem, hle⟩ := List.max?_eq_some_iff.mp hmax
    exact ⟨hle n h, hmem⟩

/-! ## Tables -/

/-- What the restore needs of the rows of a table: columns that admit what is restored, and a positive id to set
the sequence to. -/
def TableRestorable {table : TableName} (t : Table (schema table) T) : Prop :=
  (∀ row ∈ t.rows, Restorable row) ∧
    ((schema table).serial = true → t.rows ≠ [] → ∃ n ∈ ids t, 1 ≤ n)

theorem restoreTable_dump (hiso : iso.Lawful) {table : TableName} {t : Table (schema table) T}
    (h : TableRestorable t) :
    ∃ t', restoreTable iso (t.rows.map (dumpRow iso)) (Table.empty (schema table) T) = .ok t' ∧
      List.Forall₂ Restores t.rows t'.rows ∧
      ((schema table).serial = true → ∀ n ∈ ids t', n < t'.sequence.next) := by
  have hkeys : ((Table.empty (schema table) T).rows.map Row.key ++ t.rows.map Row.key).Nodup :=
    t.keys_nodup
  obtain ⟨t₁, rows', hfold, hall, hrows, -⟩ := restoreRows hiso h.1 hkeys
  have hall₁ : List.Forall₂ Restores t.rows t₁.rows := by
    rw [hrows]
    exact hall
  by_cases hempty : t.rows = []
  · refine ⟨Table.empty _ T, ?_, ?_, fun _ n hn => by cases hn⟩
    · rw [hempty]
      rfl
    · rw [hempty]
      exact .nil
  · have hrestore : restoreTable iso (t.rows.map (dumpRow iso)) (Table.empty (schema table) T) =
        resetSequences t₁ := by
      unfold restoreTable
      rw [if_neg (by simpa using hempty), hfold]
      rfl
    rw [hrestore, resetSequences_eq]
    by_cases hserial : (schema table).serial = true
    · obtain ⟨n, hn, hpos⟩ := h.2 hserial hempty
      rw [← ids_restored hall₁] at hn
      have hmax : ¬ (ids t₁).max?.getD 1 < 1 := by
        have hle := (max_ids hn).1
        omega
      rw [if_pos hserial, setval, if_neg hmax]
      refine ⟨_, rfl, hall₁, fun _ m hm => ?_⟩
      change m < (ids t₁).max?.getD 1 + 1
      have hle := (max_ids (t := t₁) hm).1
      omega
    · rw [if_neg hserial]
      exact ⟨t₁, rfl, hall₁, fun h' => absurd h' hserial⟩

theorem restorable_of_restoreTable (hiso : iso.Lawful) {table : TableName}
    {t t₀ t' : Table (schema table) T} (ht₀ : t₀.rows = [])
    (h : restoreTable iso (t.rows.map (dumpRow iso)) t₀ = .ok t') : TableRestorable t := by
  by_cases hempty : t.rows = []
  · refine ⟨?_, fun _ hne => absurd hempty hne⟩
    rw [hempty]
    exact fun _ hrow => by cases hrow
  · unfold restoreTable at h
    rw [if_neg (by simpa using hempty)] at h
    cases hfold : (t.rows.map (dumpRow iso)).foldlM
        (fun t row => insertRow iso (columnTypes (schema table)) row t) t₀ with
    | error e =>
      rw [hfold] at h
      cases h
    | ok t₁ =>
      have hrestorable := restorable_of_restoreRows hiso hfold
      rw [hfold] at h
      refine ⟨hrestorable, fun hserial _ => ?_⟩
      have hkeys : (t₀.rows.map Row.key ++ t.rows.map Row.key).Nodup := by
        rw [ht₀]
        exact t.keys_nodup
      obtain ⟨t₂, rows', hfold', hall, hrows, -⟩ := restoreRows hiso hrestorable hkeys
      obtain rfl := Except.ok.inj (hfold.symm.trans hfold')
      rw [ht₀, List.nil_append] at hrows
      rw [← hrows] at hall
      have hreset : resetSequences t₁ = .ok t' := h
      rw [resetSequences_eq, if_pos hserial, setval] at hreset
      split at hreset
      · cases hreset
      · next hmax =>
        obtain ⟨row, hrow⟩ := List.exists_mem_of_ne_nil t.rows hempty
        obtain ⟨n, hn⟩ := exists_id hserial row
        have hmem : n ∈ ids t := List.mem_filterMap.mpr ⟨row, hrow, rowId_eq_some.mpr hn⟩
        rw [ids_restored hall] at hmax
        exact ⟨_, (max_ids hmem).2, by omega⟩

/-! ## All tables -/

section Tables
variable (iso) (rows : TableName → List (List (String × Json)))

/-- The loop of the restore for these tables. -/
def restoreTables (tables : List TableName) (db : Database T) : Except RestoreError (Database T) :=
  (tables.map fun table => (table, rows table)).foldlM (fun db entry => do
    let t ← restoreTable iso entry.2 (db entry.1)
    return Function.update db entry.1 t) db

variable {iso rows}

theorem restoreTables_cons (table : TableName) (tables : List TableName) (db : Database T) :
    restoreTables iso rows (table :: tables) db =
      (restoreTable iso (rows table) (db table)).bind fun t =>
        restoreTables iso rows tables (Function.update db table t) := by
  unfold restoreTables
  rw [List.map_cons, List.foldlM_cons]
  cases restoreTable iso (rows table) (db table) <;> rfl

theorem restoreTables_ok {tables : List TableName} (hnodup : tables.Nodup) {db db' : Database T}
    (h : restoreTables iso rows tables db = .ok db') :
    (∀ table ∈ tables, restoreTable iso (rows table) (db table) = .ok (db' table)) ∧
      ∀ table ∉ tables, db' table = db table := by
  induction tables generalizing db with
  | nil =>
    obtain rfl := Except.ok.inj h
    exact ⟨fun _ htable => (by cases htable), fun _ _ => rfl⟩
  | cons table tables ih =>
    rw [List.nodup_cons] at hnodup
    rw [restoreTables_cons] at h
    cases ht : restoreTable iso (rows table) (db table) with
    | error e =>
      rw [ht] at h
      cases h
    | ok t =>
      rw [ht] at h
      obtain ⟨hin, hout⟩ := ih hnodup.2 h
      constructor
      · intro other hother
        obtain rfl | hother := List.mem_cons.mp hother
        · rw [ht, hout other hnodup.1, Function.update_self]
        · have hne : other ≠ table := fun heq => hnodup.1 (heq ▸ hother)
          rw [← hin other hother, Function.update_of_ne hne]
      · intro other hother
        rw [List.mem_cons, not_or] at hother
        rw [hout other hother.2, Function.update_of_ne hother.1]

theorem restoreTables_exists {tables : List TableName} (hnodup : tables.Nodup) {db : Database T}
    (h : ∀ table ∈ tables, ∃ t, restoreTable iso (rows table) (db table) = .ok t) :
    ∃ db', restoreTables iso rows tables db = .ok db' := by
  induction tables generalizing db with
  | nil => exact ⟨db, rfl⟩
  | cons table tables ih =>
    rw [List.nodup_cons] at hnodup
    obtain ⟨t, ht⟩ := h table List.mem_cons_self
    have hrest : ∀ other ∈ tables, ∃ t', restoreTable iso (rows other)
        (Function.update db table t other) = .ok t' := by
      intro other hother
      have hne : other ≠ table := fun heq => hnodup.1 (heq ▸ hother)
      rw [Function.update_of_ne hne]
      exact h other (List.mem_cons_of_mem _ hother)
    obtain ⟨db', hdb'⟩ := ih hnodup.2 hrest
    refine ⟨db', ?_⟩
    rw [restoreTables_cons, ht]
    exact hdb'

end Tables

theorem restoreDbSnapshot_fresh (db : Database T) :
    restoreDbSnapshot iso (some (writeDbSnapshot iso db)) (Database.fresh T) =
      restoreTables iso (fun table => (db table).rows.map (dumpRow iso)) TableName.all
        (Database.fresh T) := rfl

/-! ## Later inserts -/

/-- Every insert still to come draws an id that is none of these. -/
def FreshIds {table : TableName} (t : Table (schema table) T) (restored : List ℤ) : Prop :=
  ∀ t', Later t t' → ∀ values t'', values.lookup "id" = none → t'.insert false values = .ok t'' →
    ∃ row n, t''.rows = t'.rows ++ [row] ∧ row.value "id" = .integer n ∧ n ∉ restored

theorem mk?_id {table : TableName} (hserial : (schema table).serial = true)
    {values : List (String × Value T)} {id : ℤ} {row : Row (schema table) T}
    (hid : values.lookup "id" = none) (h : Row.mk? (schema table) values id = some row) :
    row.value "id" = .integer id := by
  unfold Row.mk? at h
  split at h
  · obtain rfl := Option.some.inj h
    change fill (schema table) values id "id" = .integer id
    have hcolumn : (schema table).column "id" = some serialId := by
      cases table <;> first | rfl | exact absurd hserial (by decide)
    rw [fill, hcolumn]
    dsimp only
    rw [hid]
    rfl
  · cases h

theorem freshIds {table : TableName} (hserial : (schema table).serial = true)
    {t : Table (schema table) T} {restored : List ℤ} (h : ∀ n ∈ restored, n < t.sequence.next) :
    FreshIds t restored := by
  intro t' hlater values t'' hid hinsert
  obtain ⟨row, hrow, -, ⟨-, hdo, -⟩ | ⟨-, hrows⟩⟩ := Table.insert_cases hinsert
  · cases hdo
  · refine ⟨row, t'.sequence.next, hrows, mk?_id hserial hid hrow, fun hmem => ?_⟩
    have hlt := h _ hmem
    have hle := hlater.next_le
    omega

/-! ## Main result -/

/-- Equal, or a JSON `null` and a `NULL`. -/
def SameValue (v v' : Value T) : Prop :=
  v = v' ∨ (v = .jsonb .null ∨ v = .null) ∧ (v' = .jsonb .null ∨ v' = .null)

def SameRow (row row' : Row s T) : Prop := ∀ name, SameValue (row.value name) (row'.value name)

theorem Restores.same {row row' : Row s T} (h : Restores row row') : SameRow row row' := by
  intro name
  rw [h name]
  obtain heq | ⟨hnull, heq⟩ := restoredValue_cases (row.value name)
  · exact .inl heq.symm
  · exact .inr ⟨.inl hnull, .inr heq⟩

/-- An identity comes back as it was. -/
theorem identityRow_restored {row row' : Sql.Row (schema .identities) T} (h : Restores row row') :
    identityRow row' = identityRow row := by
  have htext : ∀ name, textOf (row'.value name) = textOf (row.value name) := by
    intro name
    rw [h name]
    obtain heq | ⟨hnull, heq⟩ := restoredValue_cases (row.value name)
    · rw [heq]
    · rw [heq, hnull]
      rfl
  have hflag : ∀ name, flagOf (row'.value name) = flagOf (row.value name) := by
    intro name
    rw [h name]
    obtain heq | ⟨hnull, heq⟩ := restoredValue_cases (row.value name)
    · rw [heq]
    · rw [heq, hnull]
      rfl
  simp only [identityRow, htext, hflag]

theorem identityRows_restored {rows rows' : List (Sql.Row (schema .identities) T)}
    (h : List.Forall₂ Restores rows rows') : rows'.map identityRow = rows.map identityRow := by
  induction h with
  | nil => rfl
  | cons hrow _ ih => rw [List.map_cons, List.map_cons, identityRow_restored hrow, ih]

/-- What is promised of a snapshot: restored to a fresh database it brings back the rows, later inserts draw new
ids, a second restore changes nothing, and `init_default_identity` creates no identity but loads the default one, which
succeeds or fails as it did before. -/
def RoundTrips (iso : IsoFormat T) (db : Database T) : Prop :=
  ∃ db', restoreDbSnapshot iso (some (writeDbSnapshot iso db)) (Database.fresh T) = .ok db' ∧
    (∀ table, List.Forall₂ SameRow (db table).rows (db' table).rows) ∧
    (∀ table ∈ [TableName.backups, .appUsageTracks], FreshIds (db' table) (ids (db' table))) ∧
    restoreDbSnapshot iso (some (writeDbSnapshot iso db)) db' = .ok db' ∧
    ∀ accepts created, initDefaultIdentity accepts created db' = (loadDefault accepts db).map fun _ => db'

/-- There is no JSON `null` in the column that admits no `NULL`, and the tables with a sequence have a positive
id, if any. -/
def Portable (db : Database T) : Prop :=
  (∀ row ∈ (db .appUsageTracks).rows, row.value "installed_apps" ≠ .jsonb .null) ∧
    ∀ table ∈ [TableName.backups, .appUsageTracks], (db table).rows ≠ [] →
      ∃ row ∈ (db table).rows, ∃ n, row.value "id" = .integer n ∧ 1 ≤ n

theorem serial_iff (table : TableName) :
    (schema table).serial = true ↔ table ∈ [TableName.backups, .appUsageTracks] := by
  cases table <;> decide

/-- A column admits a value and not what is restored of it only if it holds JSON and no `NULL`. -/
theorem accepts_restoredValue {c : Column} {v : Value T} (h : c.accepts v = true) :
    c.accepts (restoredValue v) = true ↔ (c.type = .jsonb → c.notNull = true → v ≠ .jsonb .null) := by
  obtain heq | ⟨rfl, heq⟩ := restoredValue_cases v
  · rw [heq]
    refine ⟨fun _ _ hnotNull hnull => ?_, fun _ => h⟩
    rw [hnull] at heq
    cases heq
  · have htype : ColumnType.jsonb = c.type := by simpa [Column.accepts, Value.type] using h
    rw [heq, Column.accepts, ← htype]
    simp [Value.type]

theorem restorable_iff {table : TableName} (row : Row (schema table) T) :
    Restorable row ↔ (table = .appUsageTracks → row.value "installed_apps" ≠ .jsonb .null) := by
  have hcolumns : Restorable row ↔ ∀ c ∈ (schema table).columns, c.type = .jsonb →
      c.notNull = true → row.value c.name ≠ .jsonb .null :=
    forall₂_congr fun c hc => accepts_restoredValue (row.accepted c hc)
  rw [hcolumns]
  cases table <;> simp [schema, textKey, serialId]

theorem portable_iff (db : Database T) :
    Portable db ↔ ∀ table, TableRestorable (db table) := by
  have hids : ∀ {table : TableName} (t : Table (schema table) T),
      (∃ n ∈ ids t, 1 ≤ n) ↔ ∃ row ∈ t.rows, ∃ n, row.value "id" = .integer n ∧ 1 ≤ n := by
    intro table t
    simp only [ids, List.mem_filterMap, rowId_eq_some]
    constructor
    · rintro ⟨n, ⟨row, hrow, hn⟩, hpos⟩
      exact ⟨row, hrow, n, hn, hpos⟩
    · rintro ⟨row, hrow, n, hn, hpos⟩
      exact ⟨n, ⟨row, hrow, hn⟩, hpos⟩
  constructor
  · rintro ⟨hnull, hpos⟩ table
    refine ⟨fun row hrow => (restorable_iff row).mpr ?_, fun hserial hne => ?_⟩
    · rintro rfl
      exact hnull row hrow
    · exact (hids _).mpr (hpos table ((serial_iff table).mp hserial) hne)
  · intro h
    refine ⟨fun row hrow => (restorable_iff row).mp ((h .appUsageTracks).1 row hrow) rfl,
      fun table htable hne => ?_⟩
    exact (hids _).mp ((h table).2 ((serial_iff table).mpr htable) hne)

theorem portable_of_restored (hiso : iso.Lawful) {db db' : Database T}
    (h : restoreDbSnapshot iso (some (writeDbSnapshot iso db)) (Database.fresh T) = .ok db') :
    Portable db := by
  rw [restoreDbSnapshot_fresh] at h
  have htables := (restoreTables_ok TableName.all_nodup h).1
  rw [portable_iff]
  exact fun table => restorable_of_restoreTable hiso rfl (htables table table.mem_all)

/-- The snapshot of a database with an identity round-trips exactly if the database is portable. -/
theorem snapshot_round_trips_iff (hiso : iso.Lawful) (db : Database T)
    (hidentity : (db .identities).rows ≠ []) : RoundTrips iso db ↔ Portable db := by
  constructor
  · rintro ⟨db', hrestore, -⟩
    exact portable_of_restored hiso hrestore
  · intro hportable
    rw [portable_iff] at hportable
    have hexists : ∀ table ∈ TableName.all, ∃ t, restoreTable iso
        ((db table).rows.map (dumpRow iso)) (Database.fresh T table) = .ok t := by
      intro table _
      obtain ⟨t', ht', -⟩ := restoreTable_dump hiso (hportable table)
      exact ⟨t', ht'⟩
    obtain ⟨db', hrestore⟩ := restoreTables_exists TableName.all_nodup hexists
    have htables := (restoreTables_ok TableName.all_nodup hrestore).1
    have hspec : ∀ table, List.Forall₂ Restores (db table).rows (db' table).rows ∧
        ((schema table).serial = true → ∀ n ∈ ids (db' table), n < (db' table).sequence.next) := by
      intro table
      obtain ⟨t', ht', hrows, hids⟩ := restoreTable_dump hiso (hportable table)
      have htable := htables table table.mem_all
      obtain rfl := Except.ok.inj (ht'.symm.trans htable)
      exact ⟨hrows, hids⟩
    have hpopulated : (db' .identities).rows.isEmpty = false := by
      have hlength := (hspec .identities).1.length_eq
      cases hrows : (db' .identities).rows with
      | nil =>
        rw [hrows, List.length_nil, List.length_eq_zero_iff] at hlength
        exact absurd hlength hidentity
      | cons row rows => rfl
    refine ⟨db', hrestore, fun table => ?_, fun table htable => ?_, ?_, fun accepts created => ?_⟩
    · exact (hspec table).1.imp fun _ _ => Restores.same
    · have hserial := (serial_iff table).mpr htable
      exact freshIds hserial ((hspec table).2 hserial)
    · unfold restoreDbSnapshot dbAlreadyPopulated
      rw [hpopulated]
      rfl
    · unfold initDefaultIdentity loadDefault
      rw [hpopulated, identityRows_restored (hspec .identities).1]
      rfl

/-! ## One shard -/

/-- A usage track with these installed apps. -/
def usageTrack (installedApps : Json) : Row (schema .appUsageTracks) String where
  value := fill _ [("timestamp", .timestamptz "2026-04-01T00:00:00+00:00"),
    ("installed_apps", .jsonb installedApps)] 1
  accepted c hc := by
    simp only [schema, List.mem_cons, List.not_mem_nil, or_false] at hc
    obtain rfl | rfl | rfl := hc <;> rfl
  elsewhere := fill_elsewhere

/-- One identity and one usage track. -/
def trackedShard (installedApps : Json) : Database String
  | .identities =>
    { rows := [⟨fill _ [("id", .text "abcdef"), ("name", .text "Shard Owner"),
        ("private_key", .text "key"), ("is_default", .boolean true)] 0, by decide, fill_elsewhere⟩]
      keys_nodup := List.nodup_singleton _
      sequence := {} }
  | .appUsageTracks =>
    { rows := [usageTrack installedApps]
      keys_nodup := List.nodup_singleton _
      sequence := ⟨1, true⟩ }
  | table => Table.empty (schema table) String

theorem snapshot_round_trips_shard : plainIso.Lawful ∧
    (trackedShard (.array [.string "notes"]) .identities).rows ≠ [] ∧
    (RoundTrips plainIso (trackedShard (.array [.string "notes"])) ↔
      Portable (trackedShard (.array [.string "notes"]))) := by
  have hiso : plainIso.Lawful := fun _ => rfl
  have hidentity : (trackedShard (.array [.string "notes"]) .identities).rows ≠ [] :=
    List.cons_ne_nil _ _
  exact ⟨hiso, hidentity, snapshot_round_trips_iff hiso _ hidentity⟩

/-- A JSON `null` comes back as a `NULL`, which the column does not admit. -/
theorem snapshot_lost : ¬ ∀ (T : Type) (iso : IsoFormat T) (db : Database T), iso.Lawful →
    (db .identities).rows ≠ [] → RoundTrips iso db := by
  intro h
  have hiso : plainIso.Lawful := fun _ => rfl
  obtain ⟨db', hrestore, -⟩ := h String plainIso (trackedShard .null) hiso (List.cons_ne_nil _ _)
  exact (portable_of_restored hiso hrestore).1 (usageTrack .null) List.mem_cons_self rfl

end Freeshard.Db

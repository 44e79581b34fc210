import Mathlib.Data.Int.Notation
import Mathlib.Data.List.Nodup
import Mathlib.Data.Rat.Init
import Mathlib.Tactic.Common

/-! # Tables of a database

Rows that keep the constraints of their table: every column holds a value of its type, or `NULL` where that is
allowed, and no two rows share a primary key. `INSERT`, with or without `ON CONFLICT DO NOTHING`, and the
sequence from which a `SERIAL` column takes its values; the range of integers is not modelled. -/

namespace Sql
set_option autoImplicit false

/-! ## Values -/

/-- A JSON document. -/
inductive Json where
  | null
  | bool (b : Bool)
  | number (n : ℚ)
  | string (s : String)
  | array (elements : List Json)
  | object (members : List (String × Json))

inductive ColumnType where
  | text
  | boolean
  | integer
  | timestamptz
  | jsonb
  deriving DecidableEq, Repr

/-- A value of a column; `T` are the points in time. -/
inductive Value (T : Type) where
  | null
  | text (s : String)
  | boolean (b : Bool)
  | integer (n : ℤ)
  | timestamptz (t : T)
  | jsonb (json : Json)

variable {T : Type}

/-- `NULL` has no type of its own. -/
def Value.type : Value T → Option ColumnType
  | .null => none
  | .text _ => some .text
  | .boolean _ => some .boolean
  | .integer _ => some .integer
  | .timestamptz _ => some .timestamptz
  | .jsonb _ => some .jsonb

/-- A value of a primary key. -/
inductive Key where
  | text (s : String)
  | integer (n : ℤ)
  deriving DecidableEq, Repr

def Value.key : Value T → Option Key
  | .text s => some (.text s)
  | .integer n => some (.integer n)
  | _ => none

/-! ## Schemas -/

/-- What a column holds in a row that is inserted without it. -/
inductive Default where
  | null
  | text (s : String)
  | boolean (b : Bool)
  | nextval
  deriving DecidableEq, Repr

def Default.value (id : ℤ) : Default → Value T
  | .null => .null
  | .text s => .text s
  | .boolean b => .boolean b
  | .nextval => .integer id

structure Column where
  name : String
  type : ColumnType
  notNull : Bool := false
  default : Default := .null
  deriving DecidableEq, Repr

def Column.accepts (c : Column) (v : Value T) : Bool :=
  match v.type with
  | none => !c.notNull
  | some type => type == c.type

structure Schema where
  name : String
  columns : List Column
  primaryKey : String
  columns_nodup : (columns.map (·.name)).Nodup

def Schema.columnNames (s : Schema) : List String := s.columns.map (·.name)

/-- The column with this name. -/
def Schema.column (s : Schema) (name : String) : Option Column := s.columns.find? (·.name == name)

/-- The table draws ids from a sequence. -/
def Schema.serial (s : Schema) : Bool := s.columns.any (·.default == .nextval)

theorem Schema.column_of_mem {s : Schema} {c : Column} (h : c ∈ s.columns) :
    s.column c.name = some c := by
  have hsome : (s.column c.name).isSome = true := by
    rw [Schema.column, List.find?_isSome]
    exact ⟨c, h, beq_self_eq_true _⟩
  obtain ⟨c', hc'⟩ := Option.isSome_iff_exists.mp hsome
  have hfind : s.columns.find? (·.name == c.name) = some c' := hc'
  have hmem := List.mem_of_find?_eq_some hfind
  have hname : c'.name = c.name := by simpa using List.find?_some hfind
  rw [hc', List.inj_on_of_nodup_map s.columns_nodup hmem h hname]

theorem Schema.column_of_not_mem {s : Schema} {name : String} (h : name ∉ s.columnNames) :
    s.column name = none := by
  rw [Schema.column, List.find?_eq_none]
  intro c hc hname
  exact h (List.mem_map.mpr ⟨c, hc, beq_iff_eq.mp hname⟩)

/-! ## Rows and tables -/

variable {s : Schema}

structure Row (s : Schema) (T : Type) where
  value : String → Value T
  accepted : ∀ c ∈ s.columns, c.accepts (value c.name) = true
  elsewhere : ∀ name ∉ s.columnNames, value name = .null

def Row.key (row : Row s T) : Option Key := (row.value s.primaryKey).key

structure Sequence where
  lastValue : ℤ := 1
  isCalled : Bool := false
  deriving DecidableEq, Repr

/-- The value that `nextval` returns; afterwards it is the last one. -/
def Sequence.next (q : Sequence) : ℤ := if q.isCalled then q.lastValue + 1 else q.lastValue

def Sequence.advance (q : Sequence) : Sequence := ⟨q.next, true⟩

theorem Sequence.next_advance (q : Sequence) : q.advance.next = q.next + 1 := rfl

structure Table (s : Schema) (T : Type) where
  rows : List (Row s T)
  keys_nodup : (rows.map Row.key).Nodup
  sequence : Sequence

/-- A table after its creation. -/
def Table.empty (s : Schema) (T : Type) : Table s T := ⟨[], List.nodup_nil, {}⟩

/-! ## INSERT -/

inductive Error where
  | undefinedColumn (name : String)
  | constraintViolation (table : String)
  | uniqueViolation (table : String)
  | valueOutOfRange (n : ℤ)
  deriving DecidableEq, Repr

/-- What a row holds that is inserted with some of its columns given. -/
def fill (s : Schema) (values : List (String × Value T)) (id : ℤ) (name : String) : Value T :=
  match s.column name with
  | none => .null
  | some c => (values.lookup name).getD (c.default.value id)

theorem fill_elsewhere {values : List (String × Value T)} {id : ℤ} :
    ∀ name ∉ s.columnNames, fill s values id name = .null := by
  intro name hname
  rw [fill, Schema.column_of_not_mem hname]

theorem fill_column {values : List (String × Value T)} {id : ℤ} {c : Column} (h : c ∈ s.columns) :
    fill s values id c.name = (values.lookup c.name).getD (c.default.value id) := by
  rw [fill, Schema.column_of_mem h]

/-- The row, if it meets the constraints on its columns. -/
def Row.mk? (s : Schema) (values : List (String × Value T)) (id : ℤ) : Option (Row s T) :=
  if h : ∀ c ∈ s.columns, c.accepts (fill s values id c.name) = true then
    some ⟨fill s values id, h, fill_elsewhere⟩
  else none

/-- The sequence after an insert: it advances if its value is needed. -/
def Sequence.afterInsert (s : Schema) (values : List (String × Value T)) (q : Sequence) : Sequence :=
  if s.columns.any fun c => c.default == .nextval && (values.lookup c.name).isNone then q.advance else q

/-- `INSERT INTO … VALUES …`, with `ON CONFLICT DO NOTHING` or without. -/
def Table.insert (t : Table s T) (doNothing : Bool) (values : List (String × Value T)) :
    Except Error (Table s T) :=
  match values.find? (·.1 ∉ s.columnNames) with
  | some (name, _) => .error (.undefinedColumn name)
  | none =>
    match Row.mk? s values t.sequence.next with
    | none => .error (.constraintViolation s.name)
    | some row =>
      if h : row.key ∈ t.rows.map Row.key then
        if doNothing then .ok { t with sequence := t.sequence.afterInsert s values }
        else .error (.uniqueViolation s.name)
      else .ok
        { rows := t.rows ++ [row]
          keys_nodup := by
            rw [List.map_append, List.map_singleton, List.nodup_append]
            exact ⟨t.keys_nodup, List.nodup_singleton _, fun key hkey key' hkey' heq =>
              h (by rwa [← List.mem_singleton.mp hkey', ← heq])⟩
          sequence := t.sequence.afterInsert s values }

/-- What a successful insert does. -/
theorem Table.insert_cases {t t' : Table s T} {doNothing : Bool} {values : List (String × Value T)}
    (h : t.insert doNothing values = .ok t') :
    ∃ row, Row.mk? s values t.sequence.next = some row ∧
      t'.sequence = t.sequence.afterInsert s values ∧
      (row.key ∈ t.rows.map Row.key ∧ doNothing = true ∧ t'.rows = t.rows ∨
        row.key ∉ t.rows.map Row.key ∧ t'.rows = t.rows ++ [row]) := by
  unfold Table.insert at h
  split at h
  · cases h
  · split at h
    · cases h
    · next row hrow =>
      refine ⟨row, hrow, ?_⟩
      split at h
      · next hkey =>
        split at h
        · next hdo =>
          cases h
          exact ⟨rfl, .inl ⟨hkey, hdo, rfl⟩⟩
        · cases h
      · next hkey =>
        cases h
        exact ⟨rfl, .inr ⟨hkey, rfl⟩⟩

end Sql

import Freeshard.Sql.Table
import Mathlib.Data.List.Forall2

/-! # Many inserts

What a list of inserts leaves in a table: with `ON CONFLICT DO NOTHING` the first row of each key, which a second
pass does not change; without it one row for each. And which ids are still to come. -/

namespace Sql
set_option autoImplicit false

variable {T : Type} {s : Schema}

/-! ## Rows -/

/-- The row holds the given columns. -/
def Row.Holds (values : List (String × Value T)) (row : Row s T) : Prop :=
  ∀ name v, values.lookup name = some v → row.value name = v

/-- The key under which the columns are stored, in a table that draws no keys. -/
def valuesKey (s : Schema) (values : List (String × Value T)) : Option Key :=
  (fill s values 0 s.primaryKey).key

/-- No key comes from the sequence. -/
def Schema.Keyed (s : Schema) : Prop := ∀ c, s.column s.primaryKey = some c → c.default ≠ .nextval

theorem Row.mk?_value {values : List (String × Value T)} {id : ℤ} {row : Row s T}
    (h : Row.mk? s values id = some row) : row.value = fill s values id := by
  unfold Row.mk? at h
  split at h
  · obtain rfl := Option.some.inj h
    rfl
  · cases h

theorem Row.mk?_key (hkeyed : s.Keyed) {values : List (String × Value T)} {id : ℤ} {row : Row s T}
    (h : Row.mk? s values id = some row) : row.key = valuesKey s values := by
  rw [Row.key, Row.mk?_value h, valuesKey, fill, fill]
  cases hc : s.column s.primaryKey with
  | none => rfl
  | some c =>
    have hdefault : c.default.value (T := T) id = c.default.value 0 := by
      cases hd : c.default with
      | nextval => exact absurd hd (hkeyed c hc)
      | _ => rfl
    dsimp only
    rw [hdefault]

theorem Table.insert_columns {t t' : Table s T} {doNothing : Bool} {values : List (String × Value T)}
    (h : t.insert doNothing values = .ok t') : ∀ c ∈ values, c.1 ∈ s.columnNames := by
  unfold Table.insert at h
  split at h
  · cases h
  · next hnone =>
    rw [List.find?_eq_none] at hnone
    intro c hc
    simpa using hnone c hc

theorem mem_of_lookup {values : List (String × Value T)} {name : String} {v : Value T}
    (h : values.lookup name = some v) : (name, v) ∈ values := by
  induction values with
  | nil => cases h
  | cons c values ih =>
    rw [List.lookup_cons] at h
    by_cases hname : name = c.1
    · subst hname
      rw [beq_self_eq_true] at h
      obtain rfl := Option.some.inj h
      exact List.mem_cons_self
    · rw [beq_false_of_ne hname] at h
      exact List.mem_cons_of_mem _ (ih h)

/-- An inserted row holds the columns given for it. -/
theorem Row.mk?_holds {values : List (String × Value T)} {id : ℤ} {row : Row s T}
    (hcolumns : ∀ c ∈ values, c.1 ∈ s.columnNames) (h : Row.mk? s values id = some row) :
    row.Holds values := by
  intro name v hv
  obtain ⟨c, hc, rfl⟩ := List.mem_map.mp (hcolumns _ (mem_of_lookup hv))
  rw [Row.mk?_value h, fill_column hc, hv]
  rfl

/-! ## Lists of inserts -/

def insertAll (doNothing : Bool) (list : List (List (String × Value T))) (t : Table s T) :
    Except Error (Table s T) := list.foldlM (fun t values => t.insert doNothing values) t

theorem insertAll_cons {doNothing : Bool} {values : List (String × Value T)}
    {list : List (List (String × Value T))} {t t' : Table s T}
    (h : insertAll doNothing (values :: list) t = .ok t') :
    ∃ t₁, t.insert doNothing values = .ok t₁ ∧ insertAll doNothing list t₁ = .ok t' := by
  unfold insertAll at h
  rw [List.foldlM_cons] at h
  cases hinsert : t.insert doNothing values with
  | error e =>
    rw [hinsert] at h
    cases h
  | ok t₁ =>
    rw [hinsert] at h
    exact ⟨t₁, rfl, h⟩

/-- Without a conflict clause there is one row more for each insert. -/
theorem insertAll_plain {list : List (List (String × Value T))} {t t' : Table s T}
    (h : insertAll false list t = .ok t') :
    ∃ added, t'.rows = t.rows ++ added ∧ List.Forall₂ Row.Holds list added := by
  induction list generalizing t with
  | nil =>
    obtain rfl := Except.ok.inj h
    exact ⟨[], (List.append_nil _).symm, .nil⟩
  | cons values list ih =>
    obtain ⟨t₁, hinsert, hrest⟩ := insertAll_cons h
    obtain ⟨added, hrows, hall⟩ := ih hrest
    obtain ⟨row, hrow, -, ⟨-, hdo, -⟩ | ⟨-, hrows₁⟩⟩ := Table.insert_cases hinsert
    · cases hdo
    · refine ⟨row :: added, ?_, .cons (Row.mk?_holds (Table.insert_columns hinsert) hrow) hall⟩
      rw [hrows, hrows₁, List.append_assoc]
      rfl

/-- The key does not come from the sequence. -/
def KeyGiven (s : Schema) (values : List (String × Value T)) : Prop :=
  ∀ id row, Row.mk? s values id = some row → row.key = valuesKey s values

theorem Schema.Keyed.keyGiven (h : s.Keyed) {values : List (String × Value T)} : KeyGiven s values :=
  fun _ _ hrow => Row.mk?_key h hrow

/-- Afterwards every given key is there. -/
theorem insertAll_stored {list : List (List (String × Value T))} {t t' : Table s T}
    (hgiven : ∀ values ∈ list, KeyGiven s values) (h : insertAll true list t = .ok t') :
    (∀ key ∈ t.rows.map Row.key, key ∈ t'.rows.map Row.key) ∧
      ∀ values ∈ list, valuesKey s values ∈ t'.rows.map Row.key := by
  induction list generalizing t with
  | nil =>
    obtain rfl := Except.ok.inj h
    exact ⟨fun _ hkey => hkey, fun _ hvalues => by cases hvalues⟩
  | cons values list ih =>
    obtain ⟨t₁, hinsert, hrest⟩ := insertAll_cons h
    obtain ⟨hold, hlist⟩ := ih (fun values hvalues => hgiven values (List.mem_cons_of_mem _ hvalues)) hrest
    obtain ⟨row, hrow, -, hcases⟩ := Table.insert_cases hinsert
    have hrowKey := hgiven values List.mem_cons_self _ _ hrow
    have hfirst : valuesKey s values ∈ t₁.rows.map Row.key ∧
        ∀ key ∈ t.rows.map Row.key, key ∈ t₁.rows.map Row.key := by
      obtain ⟨hkey, -, hrows₁⟩ | ⟨-, hrows₁⟩ := hcases
      · rw [hrows₁, ← hrowKey]
        exact ⟨hkey, fun _ hkey => hkey⟩
      · rw [hrows₁, List.map_append, ← hrowKey]
        exact ⟨List.mem_append_right _ List.mem_cons_self, fun _ hkey => List.mem_append_left _ hkey⟩
    refine ⟨fun key hkey => hold key (hfirst.2 key hkey), fun other hother => ?_⟩
    obtain rfl | hother := List.mem_cons.mp hother
    · exact hold _ hfirst.1
    · exact hlist other hother

section Keyed
variable (hkeyed : s.Keyed) {list : List (List (String × Value T))} {t t' : Table s T}
include hkeyed

/-- With a conflict clause there is one row for each insert exactly if no two share a key, with each other or
with a row that is there. -/
theorem insertAll_keyed (h : insertAll true list t = .ok t') :
    ∃ added, t'.rows = t.rows ++ added ∧ added.length ≤ list.length ∧
      (added.length = list.length ↔ (t.rows.map Row.key ++ list.map (valuesKey s)).Nodup) ∧
      (added.length = list.length → List.Forall₂ Row.Holds list added) := by
  induction list generalizing t with
  | nil =>
    obtain rfl := Except.ok.inj h
    refine ⟨[], (List.append_nil _).symm, Nat.le_refl _, ⟨fun _ => ?_, fun _ => rfl⟩, fun _ => .nil⟩
    rw [List.map_nil, List.append_nil]
    exact t.keys_nodup
  | cons values list ih =>
    obtain ⟨t₁, hinsert, hrest⟩ := insertAll_cons h
    obtain ⟨added, hrows, hle, hiff, hall⟩ := ih hrest
    obtain ⟨row, hrow, -, ⟨hkey, -, hrows₁⟩ | ⟨-, hrows₁⟩⟩ := Table.insert_cases hinsert
    · rw [Row.mk?_key hkeyed hrow] at hkey
      have hlt : added.length ≠ (values :: list).length := by
        rw [List.length_cons]
        omega
      refine ⟨added, hrows.trans (by rw [hrows₁]), by rw [List.length_cons]; omega,
        ⟨fun heq => absurd heq hlt, fun hnodup => ?_⟩, fun heq => absurd heq hlt⟩
      rw [List.map_cons] at hnodup
      exact absurd rfl ((List.nodup_append.mp hnodup).2.2 _ hkey _ List.mem_cons_self)
    · have hkeys : t₁.rows.map Row.key ++ list.map (valuesKey s) =
          t.rows.map Row.key ++ (values :: list).map (valuesKey s) := by
        rw [hrows₁, List.map_append, List.map_singleton, Row.mk?_key hkeyed hrow, List.append_assoc]
        rfl
      rw [hkeys] at hiff
      refine ⟨row :: added, ?_, by rw [List.length_cons, List.length_cons]; omega, ?_, fun heq => ?_⟩
      · rw [hrows, hrows₁, List.append_assoc]
        rfl
      · rw [List.length_cons, List.length_cons, Nat.add_right_cancel_iff]
        exact hiff
      · rw [List.length_cons, List.length_cons, Nat.add_right_cancel_iff] at heq
        exact .cons (Row.mk?_holds (Table.insert_columns hinsert) hrow) (hall heq)

/-- Afterwards every key is there. -/
theorem insertAll_keys (h : insertAll true list t = .ok t') :
    (∀ key ∈ t.rows.map Row.key, key ∈ t'.rows.map Row.key) ∧
      ∀ values ∈ list, valuesKey s values ∈ t'.rows.map Row.key :=
  insertAll_stored (fun _ _ => hkeyed.keyGiven) h

/-- A second pass changes nothing. -/
theorem insertAll_again (hkeys : ∀ values ∈ list, valuesKey s values ∈ t.rows.map Row.key)
    (h : insertAll true list t = .ok t') : t'.rows = t.rows := by
  induction list generalizing t with
  | nil =>
    obtain rfl := Except.ok.inj h
    rfl
  | cons values list ih =>
    obtain ⟨t₁, hinsert, hrest⟩ := insertAll_cons h
    obtain ⟨row, hrow, -, ⟨-, -, hrows₁⟩ | ⟨hkey, -⟩⟩ := Table.insert_cases hinsert
    · rw [← hrows₁] at hkeys ⊢
      exact ih (fun values hvalues => hkeys values (List.mem_cons_of_mem _ hvalues)) hrest
    · rw [Row.mk?_key hkeyed hrow] at hkey
      exact absurd (hkeys values List.mem_cons_self) hkey

end Keyed

/-! ## Inserts that draw nothing

What they do to the rows does not depend on the sequence. -/

/-- What goes on alike after alike results ends alike. -/
theorem map_bind_congr {ε α β γ δ : Type} {f : α → γ} {g : β → δ} {x y : Except ε α} {next : α → Except ε β}
    (h : x.map f = y.map f) (hnext : ∀ a b, f a = f b → (next a).map g = (next b).map g) :
    (x >>= next).map g = (y >>= next).map g := by
  cases x with
  | error e =>
    cases y with
    | error e' =>
      cases h
      rfl
    | ok b => cases h
  | ok a =>
    cases y with
    | error e' => cases h
    | ok b => exact hnext a b (Except.ok.inj h)

theorem exists_of_map_eq {ε α β : Type} {f : α → β} {x y : Except ε α} {a : α} (h : x.map f = y.map f)
    (hx : x = .ok a) : ∃ b, y = .ok b ∧ f a = f b := by
  subst hx
  cases y with
  | error e => cases h
  | ok b => exact ⟨b, rfl, Except.ok.inj h⟩

/-- No column is left to the sequence. -/
def Drawless (s : Schema) (values : List (String × Value T)) : Prop :=
  ∀ c ∈ s.columns, c.default = .nextval → ∃ v, values.lookup c.name = some v

section Drawless
variable {values : List (String × Value T)} {t u : Table s T}

theorem drawless_of_not_serial (h : s.serial = false) (values : List (String × Value T)) : Drawless s values := by
  intro c hc hdefault
  refine absurd h (Bool.not_eq_false _ ▸ List.any_eq_true.mpr ⟨c, hc, ?_⟩)
  rw [hdefault]
  rfl

theorem fill_drawless (h : Drawless s values) (id id' : ℤ) : fill s values id = fill s values id' := by
  funext name
  unfold fill
  split
  · rfl
  · next c hc =>
    have hmem : c ∈ s.columns := List.mem_of_find?_eq_some hc
    have hname : c.name = name := by simpa using List.find?_some hc
    cases hdefault : c.default with
    | nextval =>
      obtain ⟨v, hv⟩ := h c hmem hdefault
      rw [← hname, hv]
      rfl
    | _ => rfl

theorem Drawless.keyGiven (h : Drawless s values) : KeyGiven s values := by
  intro id row hrow
  rw [Row.key, Row.mk?_value hrow, valuesKey, fill_drawless h id 0]

theorem Row.mk?_drawless (h : Drawless s values) (id id' : ℤ) : Row.mk? s values id = Row.mk? s values id' := by
  unfold Row.mk?
  simp only [fill_drawless h id id']

theorem Table.insert_drawless (h : Drawless s values) (hrows : t.rows = u.rows) (doNothing : Bool) :
    (t.insert doNothing values).map Table.rows = (u.insert doNothing values).map Table.rows := by
  unfold Table.insert
  rw [Row.mk?_drawless h t.sequence.next u.sequence.next]
  split
  · rfl
  · split
    · rfl
    · next row _ =>
      by_cases hkey : row.key ∈ t.rows.map Row.key
      · rw [dif_pos hkey, dif_pos (hrows ▸ hkey)]
        cases doNothing with
        | false => rfl
        | true => exact congrArg Except.ok hrows
      · rw [dif_neg hkey, dif_neg (hrows ▸ hkey)]
        exact congrArg Except.ok (congrArg (· ++ [row]) hrows)

/-- The same inserts into tables with the same rows. -/
theorem insertAll_drawless {list : List (List (String × Value T))} (h : ∀ values ∈ list, Drawless s values)
    (hrows : t.rows = u.rows) (doNothing : Bool) :
    (insertAll doNothing list t).map Table.rows = (insertAll doNothing list u).map Table.rows := by
  induction list generalizing t u with
  | nil => exact congrArg Except.ok hrows
  | cons values list ih =>
    unfold insertAll
    rw [List.foldlM_cons, List.foldlM_cons]
    refine map_bind_congr (Table.insert_drawless (h values List.mem_cons_self) hrows doNothing) fun t₁ u₁ hrows₁ => ?_
    exact ih (fun values hvalues => h values (List.mem_cons_of_mem _ hvalues)) hrows₁

end Drawless

/-! ## Ids to come -/

/-- Inserts that leave the id to the sequence, and deletions, have led from one table to the other. -/
inductive Later (t : Table s T) : Table s T → Prop where
  | refl : Later t t
  | insert {t' t'' : Table s T} {values : List (String × Value T)} (h : Later t t')
      (hid : values.lookup "id" = none) (hinsert : t'.insert false values = .ok t'') : Later t t''
  | delete {t' t'' : Table s T} (h : Later t t') (hrows : t''.rows.Sublist t'.rows)
      (hsequence : t''.sequence = t'.sequence) : Later t t''

theorem Sequence.next_afterInsert (values : List (String × Value T)) (q : Sequence) :
    q.next ≤ (q.afterInsert s values).next := by
  unfold Sequence.afterInsert
  split
  · rw [Sequence.next_advance]
    omega
  · exact Int.le_refl _

/-- Sequences only grow. -/
theorem Later.next_le {t t' : Table s T} (h : Later t t') : t.sequence.next ≤ t'.sequence.next := by
  induction h with
  | refl => exact Int.le_refl _
  | insert _ _ hinsert ih =>
    obtain ⟨row, -, hsequence, -⟩ := Table.insert_cases hinsert
    rw [hsequence]
    exact Int.le_trans ih (Sequence.next_afterInsert _ _)
  | delete _ _ hsequence ih =>
    rw [hsequence]
    exact ih

end Sql

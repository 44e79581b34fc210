import Freeshard.Util.Text
import Mathlib.Data.List.Basic
import Mathlib.Data.List.Nodup
import Mathlib.Logic.Function.Basic
import Mathlib.Tactic.Common

/-! # The `peers` table

`database/peers.py` over a list of rows whose ids, the primary key, are distinct. Prefixes are matched by
SQL's `LIKE`, in which `%`, `_` and the backslash of an id keep their special meaning. -/

namespace Freeshard.Peers
set_option autoImplicit false

/-! ## Patterns -/

/-- SQL's `LIKE`. -/
def like : List Char → List Char → Bool
  | [], text => text.isEmpty
  | '%' :: pattern, text => text.tails.any (like pattern)
  | '_' :: pattern, _ :: text => like pattern text
  | '\\' :: c :: pattern, d :: text => c == d && like pattern text
  | c :: pattern, d :: text => c == d && like pattern text
  | _ :: _, [] => false

/-- `id LIKE '<idPrefix>%'`. -/
def matchesPrefix (idPrefix id : String) : Bool := like (idPrefix.toList ++ ['%']) id.toList

/-! ## Rows -/

structure Row where
  id : String
  name : Option String
  publicBytesB64 : Option String
  isReachable : Option Bool
  deriving DecidableEq, Repr

/-- The columns an `UPDATE` sets. -/
structure UpdateData where
  name : Option (Option String) := none
  publicBytesB64 : Option (Option String) := none
  isReachable : Option (Option Bool) := none
  deriving DecidableEq, Repr

def UpdateData.apply (data : UpdateData) (row : Row) : Row where
  id := row.id
  name := data.name.getD row.name
  publicBytesB64 := data.publicBytesB64.getD row.publicBytesB64
  isReachable := data.isReachable.getD row.isReachable

/-! ## The table -/

structure Table where
  rows : List Row
  nodup : (rows.map (·.id)).Nodup

namespace Table

def empty : Table := ⟨[], List.nodup_nil⟩

/-- `insert`; `none` is the violated primary key. -/
def insert (t : Table) (row : Row) : Option Table :=
  if h : row.id ∈ t.rows.map (·.id) then none
  else some
    { rows := t.rows ++ [row]
      nodup := by
        rw [List.map_append, List.map_singleton]
        exact List.nodup_append.mpr ⟨t.nodup, List.nodup_singleton _, by
          rintro a ha b hb rfl
          rw [List.mem_singleton.mp hb] at ha
          exact h ha⟩ }

/-- `UPDATE peers SET … WHERE …`. -/
def update (t : Table) (condition : String → Bool) (data : UpdateData) : Table where
  rows := t.rows.map fun row => if condition row.id then data.apply row else row
  nodup := by
    have h : (t.rows.map fun row => if condition row.id then data.apply row else row).map (·.id) =
        t.rows.map (·.id) := by
      rw [List.map_map]
      refine List.map_congr_left fun row _ => ?_
      dsimp only [Function.comp_apply]
      split <;> rfl
    rw [h]
    exact t.nodup

/-- `update_by_id`. -/
def updateById (t : Table) (id : String) (data : UpdateData) : Table := t.update (· == id) data

/-- `update_by_id_prefix`. -/
def updateByIdPrefix (t : Table) (idPrefix : String) (data : UpdateData) : Table :=
  t.update (matchesPrefix idPrefix) data

/-- `remove_by_id_prefix`. -/
def removeByIdPrefix (t : Table) (idPrefix : String) : Table where
  rows := t.rows.filter fun row => !matchesPrefix idPrefix row.id
  nodup := t.nodup.sublist (List.filter_sublist.map _)

theorem mem_insert {t t' : Table} {row new : Row} (h : t.insert new = some t') :
    row ∈ t'.rows ↔ row ∈ t.rows ∨ row = new := by
  unfold insert at h
  split at h
  · cases h
  · cases h
    simp

theorem mem_update {t : Table} {condition : String → Bool} {data : UpdateData} {row : Row} :
    row ∈ (t.update condition data).rows ↔
      ∃ old ∈ t.rows, row = if condition old.id then data.apply old else old := by
  unfold update
  rw [List.mem_map]
  exact exists_congr fun old => and_congr_right fun _ => eq_comm

theorem mem_removeByIdPrefix {t : Table} {idPrefix : String} {row : Row}
    (h : row ∈ (t.removeByIdPrefix idPrefix).rows) : row ∈ t.rows :=
  (List.mem_filter.mp h).1

end Table
end Freeshard.Peers

import Freeshard.DataModel.AppMeta
import Mathlib.Data.List.Nodup

/-! # The `installed_apps` table

`database/installed_apps.py` over a list of rows whose names, the primary key, are distinct. -/

namespace Freeshard
set_option autoImplicit false

structure InstalledApps where
  rows : List InstalledApp
  nodup : (rows.map (·.name)).Nodup

namespace InstalledApps

@[ext] theorem ext {t u : InstalledApps} (h : t.rows = u.rows) : t = u := by
  cases t; cases u; congr

def empty : InstalledApps := ⟨[], List.nodup_nil⟩

/-- `get_by_name`. -/
def getByName (t : InstalledApps) (name : String) : Option InstalledApp :=
  t.rows.find? (·.name == name)

/-- `contains`. -/
def contains (t : InstalledApps) (name : String) : Bool := t.rows.any (·.name == name)

/-- The status column of the row with this name. -/
def status (t : InstalledApps) (name : String) : Option Status := (t.getByName name).map (·.status)

/-- One row of `UPDATE installed_apps SET status = … WHERE name = …`. -/
def setStatus (name : String) (status : Status) (row : InstalledApp) : InstalledApp :=
  if row.name = name then { row with status } else row

theorem setStatus_name (name : String) (status : Status) (row : InstalledApp) :
    (setStatus name status row).name = row.name := by
  unfold setStatus
  split <;> rfl

/-- `update_status`; its answer is `getByName` of the result. -/
def updateStatus (t : InstalledApps) (name : String) (status : Status) : InstalledApps where
  rows := t.rows.map (setStatus name status)
  nodup := by
    have h : (t.rows.map (setStatus name status)).map (·.name) = t.rows.map (·.name) := by
      rw [List.map_map]
      exact List.map_congr_left fun row _ => setStatus_name name status row
    rw [h]
    exact t.nodup

/-- `update_last_access`. -/
def updateLastAccess (t : InstalledApps) (name : String) (time : ℚ) : InstalledApps where
  rows := t.rows.map fun row => if row.name = name then { row with lastAccess := some time } else row
  nodup := by
    have h : (t.rows.map fun row =>
        if row.name = name then { row with lastAccess := some time } else row).map (·.name) =
        t.rows.map (·.name) := by
      rw [List.map_map]
      refine List.map_congr_left fun row _ => ?_
      dsimp only [Function.comp_apply]
      split <;> rfl
    rw [h]
    exact t.nodup

/-- `insert`; `none` is the violated primary key. -/
def insert (t : InstalledApps) (app : InstalledApp) : Option InstalledApps :=
  if h : app.name ∈ t.rows.map (·.name) then none
  else some
    { rows := t.rows ++ [app]
      nodup := by
        rw [List.map_append, List.map_singleton]
        exact List.nodup_append.mpr ⟨t.nodup, List.nodup_singleton _, by
          rintro a ha b hb rfl
          rw [List.mem_singleton.mp hb] at ha
          exact h ha⟩ }

/-- `remove`. -/
def remove (t : InstalledApps) (name : String) : InstalledApps where
  rows := t.rows.filter (·.name != name)
  nodup := t.nodup.sublist (List.filter_sublist.map _)

/-! ## What the operations do to the status column -/

theorem contains_eq (t : InstalledApps) (name : String) :
    t.contains name = (t.status name).isSome := by
  unfold contains status getByName
  rw [Option.isSome_map, List.isSome_find?]

theorem getByName_name {t : InstalledApps} {name : String} {row : InstalledApp}
    (h : t.getByName name = some row) : row.name = name := by
  simpa using List.find?_some h

@[simp] theorem getByName_updateStatus (t : InstalledApps) (name other : String)
    (status : Status) :
    (t.updateStatus name status).getByName other =
      (t.getByName other).map (setStatus name status) := by
  unfold getByName updateStatus
  rw [List.find?_map]
  congr 2
  funext row
  simp [setStatus_name]

@[simp] theorem status_updateStatus_self (t : InstalledApps) (name : String) (status : Status) :
    (t.updateStatus name status).status name = (t.status name).map fun _ => status := by
  unfold InstalledApps.status
  rw [getByName_updateStatus]
  cases h : t.getByName name with
  | none => rfl
  | some row => simp [setStatus, getByName_name h]

theorem status_updateStatus_ne (t : InstalledApps) {name other : String} (status : Status)
    (h : other ≠ name) : (t.updateStatus name status).status other = t.status other := by
  unfold InstalledApps.status
  rw [getByName_updateStatus]
  cases hr : t.getByName other with
  | none => rfl
  | some row => simp [setStatus, getByName_name hr, h]

@[simp] theorem status_remove_self (t : InstalledApps) (name : String) :
    (t.remove name).status name = none := by
  unfold status getByName remove
  simp [List.find?_filter]

theorem status_remove_ne (t : InstalledApps) {name other : String} (h : other ≠ name) :
    (t.remove name).status other = t.status other := by
  unfold status getByName remove
  rw [List.find?_filter]
  congr 2
  funext row
  by_cases hr : row.name = other
  · simp [hr, h]
  · simp [hr]

theorem remove_updateStatus (t : InstalledApps) (name : String) (status : Status) :
    (t.updateStatus name status).remove name = t.remove name := by
  apply InstalledApps.ext
  unfold remove updateStatus
  dsimp only
  rw [List.filter_map]
  have hfilter : ((fun row : InstalledApp => row.name != name) ∘ setStatus name status) =
      fun row => row.name != name := by
    funext row
    simp only [Function.comp_apply, setStatus_name]
  rw [hfilter]
  have hrows : ∀ row ∈ t.rows.filter (·.name != name), setStatus name status row = id row := by
    intro row hrow
    have hne : row.name ≠ name := by simpa using (List.mem_filter.mp hrow).2
    rw [setStatus, if_neg hne, id]
  rw [List.map_congr_left hrows, List.map_id]

@[simp] theorem contains_updateLastAccess (t : InstalledApps) (name other : String) (time : ℚ) :
    (t.updateLastAccess name time).contains other = t.contains other := by
  unfold contains updateLastAccess
  rw [List.any_map]
  congr 1
  funext row
  dsimp only [Function.comp_apply]
  split <;> rfl

theorem insert_eq_none {t : InstalledApps} {app : InstalledApp} :
    t.insert app = none ↔ (t.status app.name).isSome := by
  unfold insert
  rw [← contains_eq, contains]
  simp [List.any_eq_true]

theorem status_insert {t t' : InstalledApps} {app : InstalledApp} (h : t.insert app = some t')
    (name : String) :
    t'.status name = if app.name = name then some app.status else t.status name := by
  unfold insert at h
  split at h
  · cases h
  · next hnot =>
    obtain rfl := Option.some.inj h
    unfold status getByName
    rw [List.find?_append]
    by_cases hn : app.name = name
    · have hnone : t.rows.find? (·.name == name) = none := by
        rw [List.find?_eq_none]
        intro row hrow hr
        exact hnot (List.mem_map.mpr ⟨row, hrow, by rw [hn]; simpa using hr⟩)
      simp [hnone, hn]
    · simp [hn]

theorem mem_rows_iff {t : InstalledApps} {row : InstalledApp} :
    row ∈ t.rows ↔ t.getByName row.name = some row := by
  constructor
  · intro h
    unfold getByName
    cases hf : t.rows.find? (·.name == row.name) with
    | none => exact absurd (List.find?_eq_none.mp hf row h) (by simp)
    | some row' =>
      have hn : row'.name = row.name := by simpa using List.find?_some hf
      have hm := List.mem_of_find?_eq_some hf
      exact congrArg some (List.inj_on_of_nodup_map t.nodup hm h hn)
  · exact List.mem_of_find?_eq_some

end InstalledApps
end Freeshard

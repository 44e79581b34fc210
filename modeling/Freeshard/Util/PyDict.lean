import Mathlib.Data.List.Nodup
import Mathlib.Tactic.Common

/-! # Dictionaries in the order of insertion

A `dict` with string keys: assignment keeps the place of a key that is there and appends one that is not. -/

namespace Freeshard
set_option autoImplicit false

structure PyDict (β : Type) where
  entries : List (String × β)
  nodup : (entries.map (·.1)).Nodup
  deriving DecidableEq, Repr

namespace PyDict
variable {β : Type}

def empty : PyDict β := ⟨[], List.nodup_nil⟩

def keys (d : PyDict β) : List String := d.entries.map (·.1)

/-- `d.get(key)`. -/
def get (d : PyDict β) (key : String) : Option β := d.entries.lookup key

def assign (key : String) (value : β) : List (String × β) → List (String × β)
  | [] => [(key, value)]
  | entry :: entries => if entry.1 = key then (key, value) :: entries else entry :: assign key value entries

theorem keys_assign (key : String) (value : β) (entries : List (String × β)) :
    (assign key value entries).map (·.1) =
      if key ∈ entries.map (·.1) then entries.map (·.1) else entries.map (·.1) ++ [key] := by
  induction entries with
  | nil => rfl
  | cons entry entries ih =>
    unfold assign
    by_cases hkey : entry.1 = key
    · simp [hkey]
    · have hne : key ≠ entry.1 := fun h => hkey h.symm
      rw [if_neg hkey, List.map_cons, ih]
      by_cases hmem : key ∈ entries.map (·.1)
      · rw [if_pos hmem, List.map_cons, if_pos (List.mem_cons_of_mem _ hmem)]
      · rw [if_neg hmem, List.map_cons, if_neg (by rw [List.mem_cons, not_or]; exact ⟨hne, hmem⟩)]
        rfl

theorem nodup_assign (key : String) (value : β) {entries : List (String × β)} (h : (entries.map (·.1)).Nodup) :
    ((assign key value entries).map (·.1)).Nodup := by
  rw [keys_assign]
  split
  · exact h
  · next hmem => exact List.nodup_append.mpr ⟨h, List.nodup_singleton _, by
      intro a ha b hb hab
      rw [List.mem_singleton] at hb
      exact hmem (hb ▸ hab ▸ ha)⟩

/-- `d[key] = value`. -/
def set (d : PyDict β) (key : String) (value : β) : PyDict β :=
  ⟨assign key value d.entries, nodup_assign key value d.nodup⟩

/-- `d.pop(key, None)`, as far as the dictionary is concerned. -/
def pop (d : PyDict β) (key : String) : PyDict β where
  entries := d.entries.filter (·.1 != key)
  nodup := d.nodup.sublist (List.filter_sublist.map _)

/-- `dict(pairs)`. -/
def ofPairs (pairs : List (String × β)) : PyDict β := pairs.foldl (fun d pair => d.set pair.1 pair.2) empty

@[simp] theorem get_empty (key : String) : (empty : PyDict β).get key = none := rfl

theorem lookup_cons (key k : String) (v : β) (entries : List (String × β)) :
    List.lookup key ((k, v) :: entries) = if key = k then some v else List.lookup key entries := by
  rw [List.lookup_cons]
  by_cases hkey : key = k
  · rw [if_pos hkey, beq_iff_eq.mpr hkey]
  · rw [if_neg hkey, beq_eq_false_iff_ne.mpr hkey]

theorem mem_keys {d : PyDict β} {key : String} {value : β} (h : d.get key = some value) : key ∈ d.keys := by
  obtain ⟨entries, hnodup⟩ := d
  unfold get at h
  unfold keys
  dsimp only at h ⊢
  clear hnodup
  induction entries with
  | nil => cases h
  | cons entry entries ih =>
    obtain ⟨k, v⟩ := entry
    rw [lookup_cons] at h
    rw [List.map_cons, List.mem_cons]
    by_cases hkey : key = k
    · exact Or.inl hkey
    · rw [if_neg hkey] at h
      exact Or.inr (ih h)

theorem get_set (d : PyDict β) (key key' : String) (value : β) :
    (d.set key value).get key' = if key' = key then some value else d.get key' := by
  obtain ⟨entries, hnodup⟩ := d
  unfold get set
  dsimp only
  clear hnodup
  induction entries with
  | nil => exact lookup_cons key' key value []
  | cons entry entries ih =>
    obtain ⟨k, v⟩ := entry
    unfold assign
    rw [lookup_cons]
    by_cases hentry : k = key
    · subst hentry
      rw [if_pos rfl, lookup_cons]
      by_cases hkey : key' = k
      · rw [if_pos hkey, if_pos hkey]
      · rw [if_neg hkey, if_neg hkey, if_neg hkey]
    · rw [if_neg hentry, lookup_cons, ih]
      by_cases hkey : key' = k
      · have hne : key' ≠ key := fun h => hentry (hkey.symm.trans h)
        rw [if_pos hkey, if_pos hkey, if_neg hne]
      · rw [if_neg hkey, if_neg hkey]

@[simp] theorem get_set_self (d : PyDict β) (key : String) (value : β) : (d.set key value).get key = some value := by
  rw [get_set, if_pos rfl]

theorem get_set_of_ne (d : PyDict β) {key key' : String} (value : β) (h : key' ≠ key) :
    (d.set key value).get key' = d.get key' := by
  rw [get_set, if_neg h]

theorem get_pop (d : PyDict β) (key key' : String) :
    (d.pop key).get key' = if key' = key then none else d.get key' := by
  obtain ⟨entries, hnodup⟩ := d
  unfold get pop
  dsimp only
  clear hnodup
  induction entries with
  | nil => exact (ite_self none).symm
  | cons entry entries ih =>
    obtain ⟨k, v⟩ := entry
    rw [lookup_cons]
    by_cases hentry : k = key
    · subst hentry
      rw [List.filter_cons_of_neg (by simp), ih]
      by_cases hkey : key' = k
      · rw [if_pos hkey, if_pos hkey]
      · rw [if_neg hkey, if_neg hkey, if_neg hkey]
    · rw [List.filter_cons_of_pos (by simpa using hentry), lookup_cons, ih]
      by_cases hkey : key' = k
      · have hne : key' ≠ key := fun h => hentry (hkey.symm.trans h)
        rw [if_pos hkey, if_pos hkey, if_neg hne]
      · rw [if_neg hkey, if_neg hkey]

theorem foldl_set (pairs : List (String × β)) (d : PyDict β) (h : ((d.entries ++ pairs).map (·.1)).Nodup) :
    (pairs.foldl (fun d pair => d.set pair.1 pair.2) d).entries = d.entries ++ pairs := by
  have hassign : ∀ (entries : List (String × β)) (pair : String × β), pair.1 ∉ entries.map (·.1) →
      assign pair.1 pair.2 entries = entries ++ [pair] := by
    intro entries pair hnew
    induction entries with
    | nil => rfl
    | cons entry entries ih =>
      rw [List.map_cons, List.mem_cons, not_or] at hnew
      unfold assign
      rw [if_neg fun he => hnew.1 he.symm, ih hnew.2]
      rfl
  induction pairs generalizing d with
  | nil => exact (List.append_nil _).symm
  | cons pair pairs ih =>
    have hnew : pair.1 ∉ d.entries.map (·.1) := by
      intro hmem
      rw [List.map_append, List.nodup_append] at h
      exact h.2.2 _ hmem _ (List.mem_map_of_mem List.mem_cons_self) rfl
    have hset : (d.set pair.1 pair.2).entries = d.entries ++ [pair] := hassign _ _ hnew
    have happend : (d.set pair.1 pair.2).entries ++ pairs = d.entries ++ pair :: pairs := by
      rw [hset, List.append_assoc]
      rfl
    rw [List.foldl_cons, ih _ (by rw [happend]; exact h), happend]

@[simp] theorem ofPairs_entries (d : PyDict β) : ofPairs d.entries = d := by
  obtain ⟨entries, hnodup⟩ := d
  have h : (ofPairs entries).entries = entries := foldl_set entries empty hnodup
  unfold ofPairs at h ⊢
  dsimp only
  generalize List.foldl _ _ entries = d' at h
  cases d'
  cases h
  rfl

end PyDict
end Freeshard

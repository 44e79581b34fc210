import Mathlib.Data.List.AList

/-! # Dictionaries

A dictionary that is filled by one assignment after the other. -/

namespace Freeshard
set_option autoImplicit false

/-- A `dict`; the order of its keys does not matter. -/
abbrev Dict (α β : Type) : Type := AList fun _ : α => β

namespace Dict
variable {α β : Type} [DecidableEq α]

/-- `d[key] = value` for one pair after the other. -/
def setAll (d : Dict α β) (pairs : List (α × β)) : Dict α β :=
  pairs.foldl (fun d pair => d.insert pair.1 pair.2) d

theorem setAll_append (d : Dict α β) (pairs pairs' : List (α × β)) :
    setAll d (pairs ++ pairs') = setAll (setAll d pairs) pairs' := List.foldl_append

theorem lookup_setAll (d : Dict α β) (pairs : List (α × β)) (key : α) :
    (∃ value, (key, value) ∈ pairs ∧ (setAll d pairs).lookup key = some value) ∨
    ((∀ value, (key, value) ∉ pairs) ∧ (setAll d pairs).lookup key = d.lookup key) := by
  induction pairs generalizing d with
  | nil => exact .inr ⟨fun _ => List.not_mem_nil, rfl⟩
  | cons pair pairs ih =>
    obtain ⟨value, hmem, hlookup⟩ | ⟨hnone, hlookup⟩ := ih (d.insert pair.1 pair.2)
    · exact .inl ⟨value, List.mem_cons_of_mem _ hmem, hlookup⟩
    have hall : (setAll d (pair :: pairs)).lookup key = (d.insert pair.1 pair.2).lookup key := hlookup
    by_cases hkey : key = pair.1
    · subst hkey
      refine .inl ⟨pair.2, List.mem_cons_self, ?_⟩
      rw [hall, AList.lookup_insert]
    · refine .inr ⟨fun value hmem => ?_, ?_⟩
      · obtain heq | hmem := List.mem_cons.mp hmem
        · exact hkey (congrArg Prod.fst heq)
        · exact hnone value hmem
      · rw [hall, AList.lookup_insert_ne hkey]

theorem lookup_setAll_of_not_mem {d : Dict α β} {pairs : List (α × β)} {key : α}
    (h : ∀ value, (key, value) ∉ pairs) : (setAll d pairs).lookup key = d.lookup key := by
  obtain ⟨value, hmem, -⟩ | ⟨-, hlookup⟩ := lookup_setAll d pairs key
  · exact absurd hmem (h value)
  · exact hlookup

theorem lookup_setAll_of_mem {d : Dict α β} {pairs : List (α × β)} {key : α} {value : β}
    (h : (key, value) ∈ pairs) :
    ∃ value', (key, value') ∈ pairs ∧ (setAll d pairs).lookup key = some value' := by
  obtain hset | ⟨hnone, -⟩ := lookup_setAll d pairs key
  · exact hset
  · exact absurd h (hnone value)

theorem mem_of_lookup_setAll {d : Dict α β} {pairs : List (α × β)} {key : α} {value : β}
    (h : (setAll d pairs).lookup key = some value) :
    (key, value) ∈ pairs ∨ d.lookup key = some value := by
  obtain ⟨value', hmem, hlookup⟩ | ⟨-, hlookup⟩ := lookup_setAll d pairs key
  · rw [hlookup] at h
    obtain rfl := Option.some.inj h
    exact .inl hmem
  · rw [hlookup] at h
    exact .inr h

theorem mem_iff_lookup {d : Dict α β} {key : α} : key ∈ d ↔ ∃ value, d.lookup key = some value := by
  rw [← AList.lookup_isSome, Option.isSome_iff_exists]

theorem mem_setAll_of_mem {d : Dict α β} {pairs : List (α × β)} {key : α} {value : β}
    (h : (key, value) ∈ pairs) : key ∈ setAll d pairs := by
  obtain ⟨value', -, hlookup⟩ := lookup_setAll_of_mem (d := d) h
  exact mem_iff_lookup.mpr ⟨value', hlookup⟩

theorem lookup_setAll_eq_some {pairs : List (α × β)}
    (h : ∀ key value value', (key, value) ∈ pairs → (key, value') ∈ pairs → value = value') {key : α}
    {value : β} : (setAll (∅ : Dict α β) pairs).lookup key = some value ↔ (key, value) ∈ pairs := by
  constructor
  · intro hlookup
    obtain hmem | hempty := mem_of_lookup_setAll hlookup
    · exact hmem
    · cases hempty
  · intro hmem
    obtain ⟨value', hmem', hlookup⟩ := lookup_setAll_of_mem (d := (∅ : Dict α β)) hmem
    rw [hlookup, h key value value' hmem hmem']

theorem setAll_empty_keys {pairs : List (α × β)} :
    (setAll (∅ : Dict α β) pairs).keys = [] ↔ pairs = [] := by
  constructor
  · intro h
    cases pairs with
    | nil => rfl
    | cons pair pairs =>
      obtain ⟨value, -, hlookup⟩ := lookup_setAll_of_mem (d := (∅ : Dict α β))
        (List.mem_cons_self (a := pair) (l := pairs))
      have hmem : pair.1 ∈ (setAll (∅ : Dict α β) (pair :: pairs)).keys :=
        mem_iff_lookup.mpr ⟨value, hlookup⟩
      rw [h] at hmem
      cases hmem
  · rintro rfl
    rfl

end Dict
end Freeshard

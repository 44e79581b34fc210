import Mathlib.Data.List.Dedup
import Mathlib.Logic.Function.Basic
import Mathlib.Tactic.Common

/-! # Transactions under READ COMMITTED

A `Store` holds the committed rows and of each row at most one uncommitted version, together with the connection
that has written it: that version is the row lock. A connection sees the committed rows and its own versions. A
commit makes the connection's versions the committed rows and gives its locks back; a rollback only does the
latter. -/

namespace ReadCommitted
set_option autoImplicit false

variable {C K V : Type}

structure Store (C K V : Type) where
  /-- The keys of all rows there have been. -/
  keys : List K
  keys_nodup : keys.Nodup
  committed : K → Option V
  uncommitted : K → Option (C × V)
  mem_keys : ∀ k, committed k ≠ none ∨ uncommitted k ≠ none → k ∈ keys

namespace Store

/-- The row as a connection sees it. -/
def visible [DecidableEq C] (s : Store C K V) (c : C) (k : K) : Option V :=
  match s.uncommitted k with
  | none => s.committed k
  | some (c', v) => if c' = c then some v else s.committed k

/-- No other connection holds the lock of the row. -/
def free [DecidableEq C] (s : Store C K V) (c : C) (k : K) : Bool :=
  (s.uncommitted k).all fun version => version.1 = c

/-- The versions of the other connections. -/
def othersVersions [DecidableEq C] (s : Store C K V) (c : C) (k : K) : Option (C × V) :=
  (s.uncommitted k).filter fun version => version.1 ≠ c

section Operations
variable [DecidableEq C] (s : Store C K V) (c : C)

/-- All rows a connection sees. -/
def rows : List V := s.keys.filterMap (s.visible c)

def count : ℕ := (s.rows c).length

variable {s c} in
theorem uncommitted_ne_none {k : K} (h : s.othersVersions c k ≠ none) :
    s.uncommitted k ≠ none := by
  intro hnone
  rw [othersVersions, hnone] at h
  exact h rfl

variable {s c} in
theorem visible_ne_none {k : K} (h : s.visible c k ≠ none) :
    s.committed k ≠ none ∨ s.uncommitted k ≠ none := by
  unfold visible at h
  cases hk : s.uncommitted k with
  | none =>
    rw [hk] at h
    exact .inl h
  | some version => exact .inr nofun

def rollback : Store C K V where
  keys := s.keys
  keys_nodup := s.keys_nodup
  committed := s.committed
  uncommitted := s.othersVersions c
  mem_keys k h := s.mem_keys k (h.imp_right uncommitted_ne_none)

def commit : Store C K V where
  keys := s.keys
  keys_nodup := s.keys_nodup
  committed := s.visible c
  uncommitted := s.othersVersions c
  mem_keys k h := by
    obtain hvisible | hothers := h
    · exact s.mem_keys k (visible_ne_none hvisible)
    · exact s.mem_keys k (.inr (uncommitted_ne_none hothers))

end Operations

/-- A new version of a row, which locks it. -/
def write [DecidableEq K] (s : Store C K V) (c : C) (k : K) (v : V) : Store C K V where
  keys := if k ∈ s.keys then s.keys else k :: s.keys
  keys_nodup := by
    split
    · exact s.keys_nodup
    · next h => exact List.nodup_cons.mpr ⟨h, s.keys_nodup⟩
  committed := s.committed
  uncommitted := Function.update s.uncommitted k (some (c, v))
  mem_keys := by
    intro k' h
    by_cases hk : k' = k
    · subst hk
      split
      · next hmem => exact hmem
      · exact List.mem_cons_self
    · rw [Function.update_of_ne hk] at h
      split
      · exact s.mem_keys k' h
      · exact List.mem_cons_of_mem _ (s.mem_keys k' h)

/-- All connections are closed. -/
def restart (s : Store C K V) : Store C K V where
  keys := s.keys
  keys_nodup := s.keys_nodup
  committed := s.committed
  uncommitted := fun _ => none
  mem_keys k h := s.mem_keys k (.inl (h.resolve_right fun h => h rfl))

/-- The first row of each key, committed. -/
def ofRows [DecidableEq K] (key : V → K) (rows : List V) : Store C K V where
  keys := (rows.map key).dedup
  keys_nodup := List.nodup_dedup _
  committed := fun k => rows.find? fun v => key v = k
  uncommitted := fun _ => none
  mem_keys := by
    intro k h
    obtain ⟨v, hv⟩ := Option.ne_none_iff_exists'.mp (h.resolve_right fun h => h rfl)
    have hkey : key v = k := by simpa using List.find?_some hv
    rw [List.mem_dedup, ← hkey]
    exact List.mem_map_of_mem (List.mem_of_find?_eq_some hv)

/-! ## What a connection sees -/

section Lemmas
variable [DecidableEq C] {s : Store C K V} {c c' : C} {k k' : K} {v : V}

theorem visible_own (h : s.uncommitted k = some (c, v)) : s.visible c k = some v := by
  rw [visible, h]
  exact if_pos rfl

theorem visible_others (h : ∀ v, s.uncommitted k ≠ some (c, v)) :
    s.visible c k = s.committed k := by
  unfold visible
  cases hk : s.uncommitted k with
  | none => rfl
  | some version =>
    obtain ⟨c', v⟩ := version
    refine if_neg fun hc => ?_
    subst hc
    exact h v hk

theorem visible_cases (s : Store C K V) (c : C) (k : K) :
    (∃ v, s.uncommitted k = some (c, v) ∧ s.visible c k = some v) ∨
      (∀ v, s.uncommitted k ≠ some (c, v)) ∧ s.visible c k = s.committed k := by
  by_cases h : ∃ v, s.uncommitted k = some (c, v)
  · obtain ⟨v, hv⟩ := h
    exact .inl ⟨v, hv, visible_own hv⟩
  · have hnot := not_exists.mp h
    exact .inr ⟨hnot, visible_others hnot⟩

theorem free_iff : s.free c k = true ↔ ∀ c' v, s.uncommitted k = some (c', v) → c' = c := by
  unfold free
  cases s.uncommitted k with
  | none => simp
  | some version =>
    obtain ⟨c', v⟩ := version
    simp only [Option.all_some, decide_eq_true_eq, Option.some.injEq, Prod.mk.injEq]
    constructor
    · rintro rfl c'' v' ⟨rfl, -⟩
      rfl
    · intro h
      exact h c' v ⟨rfl, rfl⟩

theorem othersVersions_eq_some :
    s.othersVersions c k = some (c', v) ↔ s.uncommitted k = some (c', v) ∧ c' ≠ c := by
  rw [othersVersions, Option.filter_eq_some_iff]
  simp

theorem mem_rows : v ∈ s.rows c ↔ ∃ k, s.visible c k = some v := by
  rw [rows, List.mem_filterMap]
  constructor
  · rintro ⟨k, -, hk⟩
    exact ⟨k, hk⟩
  · rintro ⟨k, hk⟩
    refine ⟨k, s.mem_keys k (visible_ne_none (c := c) ?_), hk⟩
    rw [hk]
    exact nofun

theorem count_eq_zero : s.count c = 0 ↔ ∀ k, s.visible c k = none := by
  rw [count, List.length_eq_zero_iff, List.eq_nil_iff_forall_not_mem]
  constructor
  · intro h k
    cases hk : s.visible c k with
    | none => rfl
    | some v => exact absurd (mem_rows.mpr ⟨k, hk⟩) (h v)
  · intro h v hv
    obtain ⟨k, hk⟩ := mem_rows.mp hv
    rw [h k] at hk
    cases hk

@[simp] theorem rollback_committed : (s.rollback c).committed = s.committed := rfl

@[simp] theorem commit_committed : (s.commit c).committed = s.visible c := rfl

theorem rollback_uncommitted :
    (s.rollback c).uncommitted k = some (c', v) ↔ s.uncommitted k = some (c', v) ∧ c' ≠ c :=
  othersVersions_eq_some

theorem commit_uncommitted :
    (s.commit c).uncommitted k = some (c', v) ↔ s.uncommitted k = some (c', v) ∧ c' ≠ c :=
  othersVersions_eq_some

/-- A lock keeps the committed row. -/
theorem commit_committed_of_locked (h : s.uncommitted k = some (c', v)) (hne : c' ≠ c) :
    (s.commit c).committed k = s.committed k := by
  refine visible_others fun v' hv' => hne ?_
  rw [h] at hv'
  exact congrArg Prod.fst (Option.some.inj hv')

@[simp] theorem restart_visible : s.restart.visible c k = s.committed k := rfl

end Lemmas

section Write
variable [DecidableEq K] {s : Store C K V} {c : C} {k k' : K} {v : V}

@[simp] theorem write_committed : (s.write c k v).committed = s.committed := rfl

@[simp] theorem write_uncommitted_self : (s.write c k v).uncommitted k = some (c, v) :=
  Function.update_self ..

theorem write_uncommitted_ne (h : k' ≠ k) :
    (s.write c k v).uncommitted k' = s.uncommitted k' := Function.update_of_ne h ..

theorem ofRows_key {key : V → K} {rows : List V}
    (h : (ofRows (C := C) key rows).committed k = some v) : key v = k := by
  simpa using List.find?_some h

end Write
end Store
end ReadCommitted

import Mathlib.Data.Finset.Card
import Mathlib.Data.Finset.Dedup
import Mathlib.Tactic.Common

/-! # Memoised calls

A function is called with keys; each time it would compute some answer, or fail. In front of it a cache keeps the last
answers, as many as its size says, and drops the least recently used one for a new one. What a call answers is
determined by the history of calls (`answer_of_recent`, `answer_of_dropped`, `answer_of_new`): the last answer for its
key if that was used again before as many other keys as the cache is large, and what is computed otherwise. -/

namespace Lru
set_option autoImplicit false

variable {κ β ε : Type} [DecidableEq κ]

/-- A call, and what the function would compute at the time. -/
structure Request (κ ε β : Type) where
  key : κ
  computed : Except ε β

/-! ## The cache -/

def lookup (k : κ) (cache : List (κ × β)) : Option β := (cache.find? fun u => u.1 = k).map (·.2)

def without (k : κ) (cache : List (κ × β)) : List (κ × β) := cache.filter fun u => u.1 ≠ k

/-- One call: the cache holds the answers in use, the most recently used first; failures are not kept. -/
def call (size : ℕ) (cache : List (κ × β)) (q : Request κ ε β) : Except ε β × List (κ × β) :=
  match lookup q.key cache with
  | some b => (.ok b, (q.key, b) :: without q.key cache)
  | none =>
    match q.computed with
    | .ok b => (.ok b, ((q.key, b) :: cache).take size)
    | .error e => (.error e, cache)

variable (size : ℕ)

/-- The cache after these calls, latest first. -/
def run : List (Request κ ε β) → List (κ × β)
  | [] => []
  | q :: log => (call size (run log) q).2

/-- What a call answers after these calls. -/
def answer (log : List (Request κ ε β)) (q : Request κ ε β) : Except ε β := (call size (run size log) q).1

/-- The keys of the calls that have succeeded, and what they answered, latest first. -/
def uses : List (Request κ ε β) → List (κ × β)
  | [] => []
  | q :: log =>
    match answer size log q with
    | .ok b => (q.key, b) :: uses log
    | .error _ => uses log

/-- Of each key the latest use. -/
def recent : List (κ × β) → List (κ × β)
  | [] => []
  | u :: us => u :: without u.1 (recent us)

/-! ## Looking up and leaving out -/

section Lists
variable {k : κ} {b : β} {us vs : List (κ × β)} {n : ℕ}

theorem mem_keys_without {k' : κ} : k' ∈ (without k us).map Prod.fst ↔ k' ≠ k ∧ k' ∈ us.map Prod.fst := by
  simp only [without, List.mem_map, List.mem_filter, decide_eq_true_eq]
  constructor
  · rintro ⟨u, ⟨hmem, hne⟩, rfl⟩
    exact ⟨hne, u, hmem, rfl⟩
  · rintro ⟨hne, u, hmem, rfl⟩
    exact ⟨u, ⟨hmem, hne⟩, rfl⟩

theorem without_of_not_mem (h : k ∉ us.map Prod.fst) : without k us = us := by
  refine List.filter_eq_self.mpr fun u hu => decide_eq_true fun hk => h ?_
  exact hk ▸ List.mem_map_of_mem hu

theorem lookup_eq_none : lookup k us = none ↔ k ∉ us.map Prod.fst := by
  rw [lookup, Option.map_eq_none_iff, List.find?_eq_none]
  constructor
  · intro h hmem
    obtain ⟨u, hu, hkey⟩ := List.mem_map.mp hmem
    exact h u hu (decide_eq_true hkey)
  · intro h u hu hkey
    exact h (of_decide_eq_true hkey ▸ List.mem_map_of_mem hu)

theorem mem_of_lookup (h : lookup k us = some b) : (k, b) ∈ us := by
  obtain ⟨u, hu, rfl⟩ := Option.map_eq_some_iff.mp h
  have hkey : u.1 = k := by simpa using List.find?_some hu
  rw [← hkey]
  exact List.mem_of_find?_eq_some hu

theorem lookup_append (h : k ∉ us.map Prod.fst) : lookup k (us ++ (k, b) :: vs) = some b := by
  have hnone : us.find? (fun u => u.1 = k) = none := by
    refine List.find?_eq_none.mpr fun u hu hkey => h ?_
    rw [← of_decide_eq_true hkey]
    exact List.mem_map_of_mem hu
  rw [lookup, List.find?_append, hnone]
  simp

/-- Leaving out what is beyond the first ones changes nothing about these. -/
theorem take_without (h : k ∉ (us.take n).map Prod.fst) : (without k us).take n = us.take n := by
  induction us generalizing n with
  | nil => rfl
  | cons u us ih =>
    cases n with
    | zero => rfl
    | succ n =>
      rw [List.take_succ_cons, List.map_cons, List.mem_cons, not_or] at h
      have hkeep : without k (u :: us) = u :: without k us :=
        List.filter_cons_of_pos (decide_eq_true (Ne.symm h.1))
      rw [hkeep, List.take_succ_cons, List.take_succ_cons, ih h.2]

/-- Leaving out one of the first ones lets nothing else in. -/
theorem without_take (hus : (us.map Prod.fst).Nodup) (h : k ∈ (us.take (n + 1)).map Prod.fst) :
    without k (us.take (n + 1)) = (without k us).take n := by
  induction us generalizing n with
  | nil => cases h
  | cons u us ih =>
    rw [List.map_cons, List.nodup_cons] at hus
    rw [List.take_succ_cons] at h ⊢
    by_cases hu : u.1 = k
    · subst hu
      have htake : u.1 ∉ (us.take n).map Prod.fst := fun hmem => hus.1 (List.map_subset _ (List.take_subset n us) hmem)
      have hdrop : ∀ l : List (κ × β), without u.1 (u :: l) = without u.1 l := fun l =>
        List.filter_cons_of_neg (by simp)
      rw [hdrop, hdrop, without_of_not_mem htake, take_without htake]
    · have hmem : k ∈ (us.take n).map Prod.fst := by
        rw [List.map_cons, List.mem_cons] at h
        exact h.resolve_left (Ne.symm hu)
      have hkeep : ∀ l : List (κ × β), without k (u :: l) = u :: without k l := fun l =>
        List.filter_cons_of_pos (decide_eq_true hu)
      cases n with
      | zero => cases hmem
      | succ n => rw [hkeep, hkeep, List.take_succ_cons, ih hus.2 hmem]

/-! ## Recency -/

theorem mem_keys_recent : k ∈ (recent us).map Prod.fst ↔ k ∈ us.map Prod.fst := by
  induction us with
  | nil => rfl
  | cons u us ih =>
    rw [recent, List.map_cons, List.map_cons, List.mem_cons, List.mem_cons, mem_keys_without, ih]
    by_cases hk : k = u.1
    · simp [hk]
    · simp [hk]

theorem nodup_recent : ((recent us).map Prod.fst).Nodup := by
  induction us with
  | nil => exact .nil
  | cons u us ih =>
    rw [recent, List.map_cons]
    refine List.nodup_cons.mpr ⟨fun hmem => (mem_keys_without.mp hmem).1 rfl, ?_⟩
    exact ih.sublist (List.filter_sublist.map _)

/-- There are as many as there are keys. -/
theorem length_recent : (recent us).length = (us.map Prod.fst).toFinset.card := by
  have hset : (us.map Prod.fst).toFinset = ((recent us).map Prod.fst).toFinset := by
    ext k
    rw [List.mem_toFinset, List.mem_toFinset, mem_keys_recent]
  rw [hset, List.toFinset_card_of_nodup nodup_recent, List.length_map]

/-- The latest uses come first. -/
theorem recent_append : recent (us ++ vs) = recent us ++ (recent vs).filter fun v => v.1 ∉ us.map Prod.fst := by
  induction us with
  | nil => simp [recent]
  | cons u us ih =>
    rw [List.cons_append, recent, ih, recent, without, without, List.filter_append, List.filter_filter, List.cons_append]
    congr 3
    funext v
    simp only [List.map_cons, List.mem_cons, not_or, Bool.decide_and, ne_eq]

theorem recent_split (b : β) (vs : List (κ × β)) (h : k ∉ us.map Prod.fst) :
    ∃ rest, recent (us ++ (k, b) :: vs) = recent us ++ (k, b) :: rest := by
  rw [recent_append, recent, List.filter_cons_of_pos (by simpa using h)]
  exact ⟨_, rfl⟩

end Lists

/-! ## What the cache holds -/

variable {size}

/-- The cache holds the latest use of the keys that were used last. -/
theorem run_eq (hsize : 0 < size) (log : List (Request κ ε β)) :
    run size log = (recent (uses size log)).take size := by
  obtain ⟨n, rfl⟩ : ∃ n, size = n + 1 := ⟨size - 1, by omega⟩
  induction log with
  | nil => rfl
  | cons q log ih =>
    rw [run, uses, answer, call]
    cases hfound : lookup q.key (run (n + 1) log) with
    | some b =>
      have hmem : q.key ∈ ((recent (uses (n + 1) log)).take (n + 1)).map Prod.fst := by
        rw [← ih]
        exact List.mem_map_of_mem (mem_of_lookup hfound)
      dsimp only
      rw [recent, List.take_succ_cons, ih, without_take nodup_recent hmem]
    | none =>
      cases hcomputed : q.computed with
      | error e => exact ih
      | ok b =>
        have hmem : q.key ∉ ((recent (uses (n + 1) log)).take n).map Prod.fst := by
          rw [ih, lookup_eq_none] at hfound
          exact fun h => hfound (List.map_subset _ (List.take_subset_take_left _ (Nat.le_succ n)) h)
        dsimp only
        rw [recent, List.take_succ_cons, List.take_succ_cons, ih, List.take_take, Nat.min_eq_left (Nat.le_succ n),
          take_without hmem]

/-! ## What a call answers -/

section Answer
variable {log : List (Request κ ε β)} {q : Request κ ε β} {newer older : List (κ × β)} {b : β}

theorem answer_eq (hsize : 0 < size) : answer size log q =
    match lookup q.key ((recent (uses size log)).take size) with
    | some b => .ok b
    | none => q.computed := by
  rw [answer, call, ← run_eq hsize]
  cases lookup q.key (run size log) with
  | some b => rfl
  | none => cases q.computed <;> rfl

/-- Of a key that was used again before too many others were, the last answer. -/
theorem answer_of_recent (huses : uses size log = newer ++ (q.key, b) :: older) (hnewer : q.key ∉ newer.map Prod.fst)
    (hfew : (newer.map Prod.fst).toFinset.card < size) : answer size log q = .ok b := by
  obtain ⟨rest, hrecent⟩ := recent_split b older hnewer
  have hkeys : q.key ∉ (recent newer).map Prod.fst := fun h => hnewer (mem_keys_recent.mp h)
  obtain ⟨n, hn⟩ : ∃ n, size - (recent newer).length = n + 1 :=
    ⟨size - (recent newer).length - 1, by rw [length_recent]; omega⟩
  have htake : (recent newer).take size = recent newer :=
    List.take_of_length_le (by rw [length_recent]; omega)
  rw [answer_eq (by omega), huses, hrecent, List.take_append, hn, List.take_succ_cons, htake, lookup_append hkeys]

/-- Of a key after which too many others were used, what is computed. -/
theorem answer_of_dropped (hsize : 0 < size) (huses : uses size log = newer ++ (q.key, b) :: older)
    (hnewer : q.key ∉ newer.map Prod.fst) (hmany : size ≤ (newer.map Prod.fst).toFinset.card) :
    answer size log q = q.computed := by
  obtain ⟨rest, hrecent⟩ := recent_split b older hnewer
  have hzero : size - (recent newer).length = 0 := by rw [length_recent]; omega
  have hkeys : q.key ∉ ((recent newer).take size).map Prod.fst := fun h =>
    hnewer (mem_keys_recent.mp (List.map_subset _ (List.take_subset _ _) h))
  rw [answer_eq hsize, huses, hrecent, List.take_append, hzero, List.take_zero, List.append_nil,
    lookup_eq_none.mpr hkeys]

/-- Of a key that has not been used, what is computed. -/
theorem answer_of_new (hsize : 0 < size) (hnew : q.key ∉ (uses size log).map Prod.fst) :
    answer size log q = q.computed := by
  have hkeys : q.key ∉ ((recent (uses size log)).take size).map Prod.fst := fun h =>
    hnew (mem_keys_recent.mp (List.map_subset _ (List.take_subset _ _) h))
  rw [answer_eq hsize, lookup_eq_none.mpr hkeys]

/-- What a call answers was computed for its key, then or before. -/
theorem computed_of_answer (h : answer size log q = .ok b) :
    ∃ q' ∈ q :: log, q'.key = q.key ∧ q'.computed = .ok b := by
  have hcache : ∀ (log : List (Request κ ε β)) u, u ∈ run size log →
      ∃ q' ∈ log, q'.key = u.1 ∧ q'.computed = .ok u.2 := by
    intro log
    induction log with
    | nil =>
      intro u hu
      cases hu
    | cons q log ih =>
      intro u hu
      have hearlier : u ∈ run size log → ∃ q' ∈ q :: log, q'.key = u.1 ∧ q'.computed = .ok u.2 := by
        intro hmem
        obtain ⟨q', hq', hboth⟩ := ih u hmem
        exact ⟨q', List.mem_cons_of_mem _ hq', hboth⟩
      rw [run, call] at hu
      cases hfound : lookup q.key (run size log) with
      | some b =>
        rw [hfound] at hu
        obtain rfl | hmem := List.mem_cons.mp hu
        · exact hearlier (mem_of_lookup hfound)
        · exact hearlier (List.mem_of_mem_filter hmem)
      | none =>
        rw [hfound] at hu
        cases hcomputed : q.computed with
        | error e =>
          rw [hcomputed] at hu
          exact hearlier hu
        | ok b =>
          rw [hcomputed] at hu
          obtain rfl | hmem := List.mem_cons.mp (List.mem_of_mem_take hu)
          · exact ⟨q, List.mem_cons_self, rfl, hcomputed⟩
          · exact hearlier hmem
  rw [answer, call] at h
  cases hfound : lookup q.key (run size log) with
  | some b' =>
    rw [hfound] at h
    obtain rfl := Except.ok.inj h
    obtain ⟨q', hq', hboth⟩ := hcache log _ (mem_of_lookup hfound)
    exact ⟨q', List.mem_cons_of_mem _ hq', hboth⟩
  | none =>
    rw [hfound] at h
    cases hcomputed : q.computed with
    | error e =>
      rw [hcomputed] at h
      cases h
    | ok b' =>
      rw [hcomputed] at h
      obtain rfl := Except.ok.inj h
      exact ⟨q, List.mem_cons_self, rfl, hcomputed⟩

end Answer
end Lru

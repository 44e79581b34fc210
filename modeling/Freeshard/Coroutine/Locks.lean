import Freeshard.Coroutine.TaskRuns

/-! # Locks

A lock knows whether it is held, but not by whom: that is in the phases of the coroutines. If a lock is taken only while
it is free, and released only by a coroutine that holds it, then it is held exactly while some coroutine holds it, and
by one at a time (`Owned`). So what coroutines do while they hold a lock is done in sections that do not overlap
(`Orderly.released`). -/

namespace Coroutine
set_option autoImplicit false

variable {Op : Type} {Ans : Op → Type} {ε W ι L κ : Type}

/-- Locks named by `κ`: which of them a world says are held, what operations do to them, and which of them a coroutine
holds in a phase. -/
structure Locks (Op : Type) (Ans : Op → Type) (ε W L κ : Type) where
  locked : W → κ → Prop
  takes : (op : Op) → Except ε (Ans op) → κ → Prop
  releases : Op → κ → Prop
  holds : L → κ → Prop

namespace Locks
variable (K : Locks Op Ans ε W L κ) (P : ι → Protocol Op Ans ε L)
  (act : ι → W → (op : Op) → Except ε (Ans op) → W → Prop)

/-- Worlds and phases agree on what the operations do. -/
structure Sound : Prop where
  free : ∀ {i w op r w' k}, act i w op r w' → K.takes op r k → ¬K.locked w k
  locked : ∀ {i w op r w' k}, act i w op r w' →
    (K.locked w' k ↔ (K.locked w k ∨ K.takes op r k) ∧ ¬K.releases op k)
  holds : ∀ {i l op r k}, K.holds ((P i).after l op r) k ↔ (K.holds l k ∨ K.takes op r k) ∧ ¬K.releases op k
  own : ∀ {i l op k}, (P i).allows l op → K.releases op k → K.holds l k

/-- No lock is held by two coroutines. -/
def Exclusive (phase : ι → L) : Prop := ∀ i j k, K.holds (phase i) k → K.holds (phase j) k → i = j

/-- Each lock is held exactly while some coroutine holds it, and by one at a time. -/
structure Owned (phase : ι → L) (w : W) : Prop where
  locked : ∀ k, K.locked w k ↔ ∃ i, K.holds (phase i) k
  exclusive : K.Exclusive phase

variable {K P act} [DecidableEq ι] {l₀ : ι → L}

/-- The step lemma. -/
theorem Owned.step (hK : K.Sound P act) {s : Recorded Op Ans ε W ι} {i : ι} {op : Op} {r : Except ε (Ans op)} {w' : W}
    (h : K.Owned (fun j => Recorded.phaseOf P l₀ j s.log) s.world)
    (hallowed : (P i).allows (Recorded.phaseOf P l₀ i s.log) op) (ha : act i s.world op r w') :
    K.Owned (fun j => Recorded.phaseOf P l₀ j (s.next i op r w').log) (s.next i op r w').world := by
  have hself : ∀ k, K.holds (Recorded.phaseOf P l₀ i (s.next i op r w').log) k ↔
      (K.holds (Recorded.phaseOf P l₀ i s.log) k ∨ K.takes op r k) ∧ ¬K.releases op k := by
    intro k
    rw [Recorded.phaseOf_next_self]
    exact hK.holds
  have hother : ∀ j, j ≠ i → ∀ k, K.holds (Recorded.phaseOf P l₀ j (s.next i op r w').log) k ↔
      K.holds (Recorded.phaseOf P l₀ j s.log) k := by
    intro j hj k
    rw [Recorded.phaseOf_next_ne _ _ _ _ hj]
  constructor
  · intro k
    rw [Recorded.next_world, hK.locked ha]
    constructor
    · rintro ⟨hlocked | htakes, hkept⟩
      · obtain ⟨j, hj⟩ := (h.locked k).mp hlocked
        by_cases hji : j = i
        · subst hji
          exact ⟨j, (hself k).mpr ⟨.inl hj, hkept⟩⟩
        · exact ⟨j, (hother j hji k).mpr hj⟩
      · exact ⟨i, (hself k).mpr ⟨.inr htakes, hkept⟩⟩
    · rintro ⟨j, hj⟩
      by_cases hji : j = i
      · subst hji
        obtain ⟨hheld | htakes, hkept⟩ := (hself k).mp hj
        · exact ⟨.inl ((h.locked k).mpr ⟨j, hheld⟩), hkept⟩
        · exact ⟨.inr htakes, hkept⟩
      · have hheld := (hother j hji k).mp hj
        refine ⟨.inl ((h.locked k).mpr ⟨j, hheld⟩), fun hreleases => hji ?_⟩
        exact h.exclusive j i k hheld (hK.own hallowed hreleases)
  · -- a lock that is taken was free, so nobody else holds it
    have hfresh : ∀ j k, j ≠ i → K.holds (Recorded.phaseOf P l₀ j s.log) k →
        ¬K.holds (Recorded.phaseOf P l₀ i (s.next i op r w').log) k := by
      intro j k hji hj hi
      obtain ⟨hheld | htakes, -⟩ := (hself k).mp hi
      · exact hji (h.exclusive j i k hj hheld)
      · exact hK.free ha htakes ((h.locked k).mpr ⟨j, hj⟩)
    intro j j' k hj hj'
    by_cases hji : j = i
    · by_cases hji' : j' = i
      · rw [hji, hji']
      · subst hji
        exact absurd hj (hfresh j' k hji' ((hother j' hji' k).mp hj'))
    · have hheld := (hother j hji k).mp hj
      by_cases hji' : j' = i
      · subst hji'
        exact absurd hj' (hfresh j k hji hheld)
      · exact h.exclusive j j' k hheld ((hother j' hji' k).mp hj')

/-! ## Sections -/

/-- Every operation of the log was one that its caller's protocol allows, and never did two coroutines hold a lock. -/
def Orderly (K : Locks Op Ans ε W L κ) (P : ι → Protocol Op Ans ε L) (l₀ : ι → L) :
    List (Entry Op Ans ε W ι) → Prop
  | [] => True
  | e :: log => (P e.caller).allows (Recorded.phaseOf P l₀ e.caller log) e.op ∧
      K.Exclusive (fun i => Recorded.phaseOf P l₀ i log) ∧ Orderly K P l₀ log

theorem Orderly.of_append {log log' : List (Entry Op Ans ε W ι)} (h : Orderly K P l₀ (log ++ log')) :
    Orderly K P l₀ log' := by
  induction log with
  | nil => exact h
  | cons e log ih => exact ih h.2.2

/-- A coroutine that does not release a lock keeps it. -/
theorem holds_append (hK : K.Sound P act) {i : ι} {k : κ} {log log' : List (Entry Op Ans ε W ι)}
    (h : K.holds (Recorded.phaseOf P l₀ i log') k)
    (hkept : ∀ e ∈ log, e.caller = i → ¬K.releases e.op k) :
    K.holds (Recorded.phaseOf P l₀ i (log ++ log')) k := by
  induction log with
  | nil => exact h
  | cons e log ih =>
    have htail := ih fun e' he' => hkept e' (List.mem_cons_of_mem _ he')
    rw [List.cons_append, Recorded.phaseOf]
    split
    · next hi => exact hK.holds.mpr ⟨.inl htail, hkept e List.mem_cons_self hi⟩
    · exact htail

/-- Between what one coroutine does with a lock and what another one does with it, the first one releases it. -/
theorem Orderly.released (hK : K.Sound P act) {k : κ} {later between earlier : List (Entry Op Ans ε W ι)}
    {e e' : Entry Op Ans ε W ι} (h : Orderly K P l₀ (later ++ e' :: between ++ e :: earlier))
    (hne : e.caller ≠ e'.caller) (hkept : ¬K.releases e.op k)
    (he : K.holds (Recorded.phaseOf P l₀ e.caller earlier) k)
    (he' : K.holds (Recorded.phaseOf P l₀ e'.caller (between ++ e :: earlier)) k) :
    ∃ e'' ∈ between, e''.caller = e.caller ∧ K.releases e''.op k := by
  by_contra hnone
  have hheld : K.holds (Recorded.phaseOf P l₀ e.caller (e :: earlier)) k := by
    rw [Recorded.phaseOf, if_pos rfl]
    exact hK.holds.mpr ⟨.inl he, hkept⟩
  have hstill : K.holds (Recorded.phaseOf P l₀ e.caller (between ++ e :: earlier)) k := by
    refine holds_append hK hheld fun e'' hmem hcaller hreleases => hnone ?_
    exact ⟨e'', hmem, hcaller, hreleases⟩
  rw [List.append_assoc] at h
  exact hne ((Orderly.of_append h).2.1 e.caller e'.caller k hstill he')

/-! ## Runs of tasks -/

section TaskRuns
variable {C : Condition Op Ans ε W ι} {create : Creation Op Ans ε (Recorded Op Ans ε W ι) ι}
  {Q : ι → Except ε Unit → L → Prop} {w : W} {c : Config Op Ans ε (Recorded Op Ans ε W ι) ι}

/-- The run lemma, from locks that nobody holds. -/
theorem owned_of_run (hK : K.Sound P act)
    (hconf : ∀ c i p, create c i = some p → p.Conforms (P i) (l₀ i) (Q i))
    (hfree : ∀ k, ¬K.locked w k) (hout : ∀ i k, ¬K.holds (l₀ i) k)
    (h : Recorded.TaskRuns act C create w c) :
    K.Owned (fun i => Recorded.phaseOf P l₀ i c.state.log) c.state.world ∧ Orderly K P l₀ c.state.log := by
  have h₀ : K.Owned (fun i => Recorded.phaseOf P l₀ i (⟨w, []⟩ : Recorded Op Ans ε W ι).log) w :=
    ⟨fun k => ⟨fun hk => absurd hk (hfree k), fun ⟨i, hi⟩ => absurd hi (hout i k)⟩,
      fun i j k hi _ => absurd hi (hout i k)⟩
  refine Recorded.TaskRuns.invariant (I := fun s =>
    K.Owned (fun i => Recorded.phaseOf P l₀ i s.log) s.world ∧ Orderly K P l₀ s.log) hconf ⟨h₀, trivial⟩ ?_ h
  rintro i s op r w' hallowed ⟨howned, horderly⟩ - ha
  exact ⟨howned.step hK hallowed ha, hallowed, howned.exclusive, horderly⟩

/-- Once nothing is in flight, and if no coroutine ends holding a lock, every lock is free. -/
theorem free_of_run (hK : K.Sound P act)
    (hconf : ∀ c i p, create c i = some p → p.Conforms (P i) (l₀ i) (Q i))
    (hfree : ∀ k, ¬K.locked w k) (hout : ∀ i k, ¬K.holds (l₀ i) k)
    (hend : ∀ i r l k, Q i r l → ¬K.holds l k)
    (h : Recorded.TaskRuns act C create w c) (hq : c.Quiescent) (k : κ) : ¬K.locked c.state.world k := by
  intro hk
  obtain ⟨i, hi⟩ := ((owned_of_run hK hconf hfree hout h).1.locked k).mp hk
  obtain hfirst | ⟨r, hr⟩ := h.ended hconf hq i
  · rw [hfirst] at hi
    exact hout i k hi
  · exact hend i r _ k hr hi

end TaskRuns
end Locks
end Coroutine

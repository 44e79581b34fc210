import Freeshard.Coroutine.Pool

/-! # Proof outlines: rely-guarantee reasoning about interleaved coroutines

`G i w op r w'` is what coroutine `i` guarantees of each operation it performs. An assertion is
`Stable` for `i` when no operation of another coroutine that keeps its guarantee can falsify it.
`Outline act G i p P Q`: started in `P`, the coroutine `p`, run as `i` among coroutines that keep
their guarantees, keeps its own at every operation and ends in `Q`; every assertion at an await of
the outline is stable.

`Reaches.outlined` is the soundness theorem: if every coroutine that may be started has an outline,
then in every run each of them stands at a point of its outline whose assertion holds, and whoever
has ended has its postcondition (`Reaches.ended`).
-/

namespace Coroutine
set_option autoImplicit false

variable {Op : Type} {Ans : Op → Type} {ε α β W ι : Type}
variable (act : ι → W → (op : Op) → Except ε (Ans op) → W → Prop)
variable (G : ι → W → (op : Op) → Except ε (Ans op) → W → Prop)

/-- No other coroutine can falsify `P` by an operation that keeps its guarantee. -/
def Stable (i : ι) (P : W → Prop) : Prop :=
  ∀ j, j ≠ i → ∀ w op r w', P w → act j w op r w' → G j w op r w' → P w'

def Outline (i : ι) : Prog Op Ans ε α → (W → Prop) → (Except ε α → W → Prop) → Prop
  | .ret a, P, Q => ∀ w, P w → Q (.ok a) w
  | .raise e, P, Q => ∀ w, P w → Q (.error e) w
  | .await op next, P, Q => ∃ P₀ : W → Prop, (∀ w, P w → P₀ w) ∧ Stable act G i P₀ ∧
      ∃ M : Except ε (Ans op) → W → Prop,
        (∀ w r w', P₀ w → act i w op r w' → G i w op r w' ∧ M r w') ∧
        ∀ r, Outline i (next r) (M r) Q

variable {act G} {i : ι}

namespace Outline

/-! ## Rules -/

theorem await {op : Op} {next : Except ε (Ans op) → Prog Op Ans ε α} {P : W → Prop}
    {Q : Except ε α → W → Prop} (M : Except ε (Ans op) → W → Prop) (hP : Stable act G i P)
    (hop : ∀ w r w', P w → act i w op r w' → G i w op r w' ∧ M r w')
    (hnext : ∀ r, Outline act G i (next r) (M r) Q) : Outline act G i (.await op next) P Q :=
  ⟨P, fun _ h => h, hP, M, hop, hnext⟩

theorem perform {op : Op} {P : W → Prop} {Q : Except ε (Ans op) → W → Prop}
    (hP : Stable act G i P) (hop : ∀ w r w', P w → act i w op r w' → G i w op r w' ∧ Q r w') :
    Outline act G i (Prog.perform op) P Q := by
  refine await Q hP hop fun r => ?_
  cases r <;> exact fun _ h => h

theorem mono {p : Prog Op Ans ε α} {P P' : W → Prop} {Q Q' : Except ε α → W → Prop}
    (h : Outline act G i p P Q) (hP : ∀ w, P' w → P w) (hQ : ∀ r w, Q r w → Q' r w) :
    Outline act G i p P' Q' := by
  induction p generalizing P P' with
  | ret a => exact fun w hw => hQ _ _ (h w (hP w hw))
  | raise e => exact fun w hw => hQ _ _ (h w (hP w hw))
  | await op next ih =>
    obtain ⟨P₀, h₀, hst, M, hop, hnext⟩ := h
    exact ⟨P₀, fun w hw => h₀ w (hP w hw), hst, M, hop, fun r => ih r (hnext r) fun _ hm => hm⟩

theorem bind {p : Prog Op Ans ε α} {f : α → Prog Op Ans ε β} {P : W → Prop}
    {R : Except ε α → W → Prop} {Q : Except ε β → W → Prop} (hp : Outline act G i p P R)
    (hf : ∀ a, Outline act G i (f a) (R (.ok a)) Q)
    (he : ∀ e w, R (.error e) w → Q (.error e) w) : Outline act G i (p >>= f) P Q := by
  induction p generalizing P with
  | ret a => exact (hf a).mono hp fun _ _ h => h
  | raise e => exact fun w hw => he e w (hp w hw)
  | await op next ih =>
    obtain ⟨P₀, h₀, hst, M, hop, hnext⟩ := hp
    exact ⟨P₀, h₀, hst, M, hop, fun r => ih r (hnext r)⟩

/-- Some stable assertion holds at the point the coroutine has reached. -/
theorem exists_stable {p : Prog Op Ans ε α} {P : W → Prop} {Q : Except ε α → W → Prop}
    (h : Outline act G i p P Q) (hQ : ∀ r, Stable act G i (Q r)) {w : W} (hw : P w) :
    ∃ P', Stable act G i P' ∧ P' w ∧ Outline act G i p P' Q := by
  cases p with
  | ret a => exact ⟨Q (.ok a), hQ _, h w hw, fun _ h => h⟩
  | raise e => exact ⟨Q (.error e), hQ _, h w hw, fun _ h => h⟩
  | await op next =>
    obtain ⟨P₀, h₀, hst, hM⟩ := h
    exact ⟨P₀, hst, h₀ w hw, P₀, fun _ h => h, hst, hM⟩

end Outline

/-! ## Soundness -/

section Soundness
variable {Pre : ι → W → Prop} {Post : ι → Except ε Unit → W → Prop}

variable (act G Pre Post) in
/-- Coroutine `i` stands at a point of an outline whose assertion holds; a name not in use
satisfies its precondition. -/
def Stands (i : ι) : Option (Prog Op Ans ε Unit) → W → Prop
  | none, w => Pre i w
  | some p, w => ∃ P, Stable act G i P ∧ P w ∧ Outline act G i p P (Post i)

variable (act G Pre Post) in
def Outlined (c : Config Op Ans ε W ι) : Prop :=
  ∀ i, Stands act G Pre Post i (c.pool i) c.state

variable (act G Pre Post) in
/-- What the soundness theorem asks of a system: every program that may be started has an outline
from its precondition to its postcondition, and these are stable. -/
structure Sound (start : ι → Prog Op Ans ε Unit → Prop) : Prop where
  pre_stable : ∀ i, Stable act G i (Pre i)
  post_stable : ∀ i r, Stable act G i (Post i r)
  outline : ∀ i p, start i p → Outline act G i p (Pre i) (Post i)

theorem Outlined.idle {w : W} (h : ∀ i, Pre i w) :
    Outlined act G Pre Post (Config.idle w : Config Op Ans ε W ι) := h

variable {start : ι → Prog Op Ans ε Unit → Prop}

/-- An operation of another coroutine, performed within its guarantee, leaves `i` standing. -/
theorem Stands.other (hs : Sound act G Pre Post start) {i j : ι} (hij : i ≠ j)
    {p : Option (Prog Op Ans ε Unit)} {w w' : W} {op : Op} {r : Except ε (Ans op)}
    (h : Stands act G Pre Post j p w) (ha : act i w op r w') (hg : G i w op r w') :
    Stands act G Pre Post j p w' := by
  cases p with
  | none => exact hs.pre_stable j i hij _ _ _ _ h ha hg
  | some p =>
    obtain ⟨P, hst, hw, hout⟩ := h
    exact ⟨P, hst, hst i hij _ _ _ _ hw ha hg, hout⟩

/-- An operation of a coroutine itself keeps its guarantee and leaves it standing. -/
theorem Stands.self (hs : Sound act G Pre Post start) {i : ι} {op : Op}
    {next : Except ε (Ans op) → Prog Op Ans ε Unit} {w w' : W} {r : Except ε (Ans op)}
    (h : Stands act G Pre Post i (some (.await op next)) w) (ha : act i w op r w') :
    G i w op r w' ∧ Stands act G Pre Post i (some (next r)) w' := by
  obtain ⟨P, -, hw, P₀, h₀, -, M, hop, hnext⟩ := h
  obtain ⟨hg, hm⟩ := hop _ _ _ (h₀ _ hw) ha
  exact ⟨hg, (hnext r).exists_stable (hs.post_stable i) hm⟩

variable [DecidableEq ι]

theorem Outlined.step (hs : Sound act G Pre Post start) {c c' : Config Op Ans ε W ι}
    (hc : Outlined act G Pre Post c) (h : Step act start c c') :
    Outlined act G Pre Post c' := by
  intro j
  cases h with
  | @start i p hi hp =>
    by_cases hj : j = i
    · subst hj
      have hw := hc j
      rw [hi] at hw
      rw [Config.setProg_pool_self]
      exact (hs.outline j p hp).exists_stable (hs.post_stable j) hw
    · rw [Config.setProg_pool_ne _ _ hj]
      exact hc j
  | @fires _ i op r hf =>
    obtain ⟨next, w', hp, ha, rfl⟩ := hf
    have hi := hc i
    rw [hp] at hi
    obtain ⟨hg, hself⟩ := hi.self hs ha
    by_cases hj : j = i
    · subst hj
      rw [Config.setProg_pool_self]
      exact hself
    · rw [Config.setProg_pool_ne _ _ hj]
      exact (hc j).other hs (Ne.symm hj) ha hg

theorem Reaches.outlined (hs : Sound act G Pre Post start) {c c' : Config Op Ans ε W ι}
    (h : Reaches act start c c') (hc : Outlined act G Pre Post c) :
    Outlined act G Pre Post c' := by
  induction h with
  | refl => exact hc
  | tail _ hstep ih => exact ih.step hs hstep

/-- In a quiescent configuration every coroutine has reached its postcondition. -/
theorem Reaches.ended (hs : Sound act G Pre Post start) {c c' : Config Op Ans ε W ι}
    (h : Reaches act start c c') (hc : Outlined act G Pre Post c) (hq : c'.Quiescent) (i : ι)
    {p : Prog Op Ans ε Unit} (hp : c'.pool i = some p) : ∃ r, Post i r c'.state := by
  have hi := Reaches.outlined hs h hc i
  rw [hp] at hi
  obtain ⟨P, -, hw, hout⟩ := hi
  cases p with
  | ret a => exact ⟨_, hout _ hw⟩
  | raise e => exact ⟨_, hout _ hw⟩
  | await op next => exact absurd hp (hq i op next)

/-- Of coroutines that are gathered, each ends in its postcondition. -/
theorem Gathers.ended {ps : List (Prog Op Ans ε Unit)} {name : ℕ → ι} {w w' : W}
    (hs : Sound act G Pre Post fun i p => ∃ k, ps[k]? = some p ∧ i = name k)
    (h : Gathers act ps name w w') (hw : ∀ i, Pre i w) {k : ℕ} (hk : k < ps.length) :
    ∃ r, Post (name k) r w' := by
  obtain ⟨c, hreach, hq, hstarted, rfl⟩ := h
  obtain ⟨p, hp⟩ := Option.ne_none_iff_exists'.mp (hstarted k hk)
  exact Reaches.ended hs hreach (Outlined.idle hw) hq (name k) hp

end Soundness
end Coroutine

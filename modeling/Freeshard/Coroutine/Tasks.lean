import Freeshard.Coroutine.Recorded

/-! # Tasks that come into being during a run

In `Reaches` a coroutine may be started whenever its name is unused. Here that depends on how far the run has come:
`create c i` is the coroutine that may be started as `i` in the configuration `c`, if there is one. So a task waits for
the one that creates it, and what follows a `gather` waits for the tasks that are gathered.

`Contract` is the rely-guarantee view of one task: what it relies on the others for, what every step of its own
guarantees, and what holds when it has ended. Tasks whose guarantees are what the others rely on may be interleaved in
any way (`Evolves.meets`). -/

namespace Coroutine
set_option autoImplicit false

variable {Op : Type} {Ans : Op → Type} {ε α β W ι : Type}

/-- What may be started, and how it goes on. -/
abbrev Creation (Op : Type) (Ans : Op → Type) (ε W ι : Type) : Type :=
  Config Op Ans ε W ι → ι → Option (Prog Op Ans ε Unit)

section Tasks
variable [DecidableEq ι]
variable (act : ι → W → (op : Op) → Except ε (Ans op) → W → Prop) (create : Creation Op Ans ε W ι)

inductive TaskStep : Config Op Ans ε W ι → Config Op Ans ε W ι → Prop where
  | create {c : Config Op Ans ε W ι} {i : ι} {p : Prog Op Ans ε Unit} (hi : c.pool i = none)
      (hp : create c i = some p) : TaskStep c (c.setProg i p)
  | fires {c c' : Config Op Ans ε W ι} {i : ι} {op : Op} {r : Except ε (Ans op)}
      (h : Fires act c i op r c') : TaskStep c c'

abbrev Evolves : Config Op Ans ε W ι → Config Op Ans ε W ι → Prop :=
  Relation.ReflTransGen (TaskStep act create)

variable {act create}

/-- A run of tasks is a run of coroutines that might have been started at any time. -/
theorem Evolves.reaches {c c' : Config Op Ans ε W ι} (h : Evolves act create c c') :
    Reaches act (fun i p => ∃ c, create c i = some p) c c' := by
  induction h with
  | refl => exact .refl
  | tail _ hs ih =>
    refine ih.tail ?_
    cases hs with
    | create hi hp => exact .start hi ⟨_, hp⟩
    | fires hf => exact .fires hf

end Tasks

namespace Config

/-- The task has been started and has ended. -/
def finished (c : Config Op Ans ε W ι) (i : ι) : Bool :=
  match c.pool i with
  | none => false
  | some (.await _ _) => false
  | _ => true

/-- The task has returned. -/
def returned (c : Config Op Ans ε W ι) (i : ι) : Bool :=
  match c.pool i with
  | some (.ret _) => true
  | _ => false

theorem pool_of_returned {c : Config Op Ans ε W ι} {i : ι} (h : c.returned i = true) :
    c.pool i = some (.ret ()) := by
  unfold returned at h
  split at h
  · assumption
  · cases h

end Config

/-! ## Rely and guarantee -/

namespace Prog
variable (step : W → (op : Op) → Except ε (Ans op) → W → Prop) (rely guar : W → W → Prop)

/-- Between any two of its steps others may take the state along `rely`; every step of the coroutine is one of `guar`,
and it ends in `Φ`. -/
def rg : Prog Op Ans ε α → (Except ε α → W → Prop) → W → Prop
  | .ret a, Φ, w => Φ (.ok a) w
  | .raise e, Φ, w => Φ (.error e) w
  | .await op next, Φ, w => ∀ w₁, rely w w₁ → ∀ r w₂, step w₁ op r w₂ → guar w₁ w₂ ∧ (next r).rg Φ w₂

variable {step rely guar}

theorem rg_perform {op : Op} {Φ : Except ε (Ans op) → W → Prop} {w : W}
    (h : ∀ w₁, rely w w₁ → ∀ r w₂, step w₁ op r w₂ → guar w₁ w₂ ∧ Φ r w₂) :
    (perform op : Prog Op Ans ε (Ans op)).rg step rely guar Φ w := by
  intro w₁ hrely r w₂ hs
  refine ⟨(h w₁ hrely r w₂ hs).1, ?_⟩
  cases r with
  | ok a => exact (h w₁ hrely _ w₂ hs).2
  | error e => exact (h w₁ hrely _ w₂ hs).2

theorem rg_mono {p : Prog Op Ans ε α} {Φ Ψ : Except ε α → W → Prop} {w : W} (hp : p.rg step rely guar Φ w)
    (h : ∀ r w', Φ r w' → Ψ r w') : p.rg step rely guar Ψ w := by
  induction p generalizing w with
  | ret a => exact h _ _ hp
  | raise e => exact h _ _ hp
  | await op next ih =>
    intro w₁ hrely r w₂ hs
    obtain ⟨hguar, hnext⟩ := hp w₁ hrely r w₂ hs
    exact ⟨hguar, ih r hnext⟩

theorem rg_bind {p : Prog Op Ans ε α} {f : α → Prog Op Ans ε β} {Φ : Except ε α → W → Prop}
    {Ψ : Except ε β → W → Prop} {w : W} (hp : p.rg step rely guar Φ w)
    (hok : ∀ a w', Φ (.ok a) w' → (f a).rg step rely guar Ψ w')
    (herr : ∀ e w', Φ (.error e) w' → Ψ (.error e) w') : (p >>= f).rg step rely guar Ψ w := by
  induction p generalizing w with
  | ret a => exact hok a w hp
  | raise e => exact herr e w hp
  | await op next ih =>
    intro w₁ hrely r w₂ hs
    obtain ⟨hguar, hnext⟩ := hp w₁ hrely r w₂ hs
    exact ⟨hguar, ih r hnext⟩

/-- A coroutine of whose world the others leave alone what it works on: what it does alone, it does among them. -/
theorem rg_of_wp {V : Type} (view : W → V) {act : V → (op : Op) → Except ε (Ans op) → V → Prop} {J : W → Prop}
    {φ : Op → Prop} {p : Prog Op Ans ε α} {Φ : Except ε α → V → Prop} {w : W} (huses : p.Uses φ)
    (hrely : ∀ w w', J w → rely w w' → J w' ∧ view w' = view w)
    (hstep : ∀ w op r w', J w → φ op → step w op r w' → act (view w) op r (view w') ∧ guar w w' ∧ J w')
    (hw : J w) (hp : p.wp act Φ (view w)) : p.rg step rely guar (fun r w' => Φ r (view w') ∧ J w') w := by
  induction p generalizing w with
  | ret a => exact ⟨hp, hw⟩
  | raise e => exact ⟨hp, hw⟩
  | await op next ih =>
    intro w₁ hw₁ r w₂ hs
    obtain ⟨hj, hview⟩ := hrely w w₁ hw hw₁
    obtain ⟨hact, hguar, hj'⟩ := hstep w₁ op r w₂ hj huses.1 hs
    rw [hview] at hact
    exact ⟨hguar, ih r (huses.2 r) hj' (hp r _ hact)⟩

end Prog

/-- What a task needs before it is started, what it relies on and guarantees, and what it ends in. -/
structure Contract (ε W : Type) where
  pre : W → Prop
  rely : W → W → Prop
  guar : W → W → Prop
  post : Except ε Unit → W → Prop

namespace Contract

/-- What others do may be repeated, and does not undo what the task has before it is started or once it has ended. -/
structure Stable (C : Contract ε W) : Prop where
  refl : ∀ w, C.rely w w
  trans : ∀ w₁ w₂ w₃, C.rely w₁ w₂ → C.rely w₂ w₃ → C.rely w₁ w₃
  pre : ∀ w w', C.rely w w' → C.pre w → C.pre w'
  post : ∀ w w' r, C.rely w w' → C.post r w → C.post r w'

variable (step : W → (op : Op) → Except ε (Ans op) → W → Prop)

/-- Where a task stands with its contract. -/
def Meets (C : Contract ε W) : Option (Prog Op Ans ε Unit) → W → Prop
  | none, w => C.pre w
  | some p, w => p.rg step C.rely C.guar C.post w

variable {step} {C : Contract ε W}

theorem Meets.relied (hC : C.Stable) {p : Option (Prog Op Ans ε Unit)} {w w' : W} (h : C.Meets step p w)
    (hrely : C.rely w w') : C.Meets step p w' := by
  match p with
  | none => exact hC.pre _ _ hrely h
  | some (.ret a) => exact hC.post _ _ _ hrely h
  | some (.raise e) => exact hC.post _ _ _ hrely h
  | some (.await op next) => exact fun w₁ hw₁ => h w₁ (hC.trans _ _ _ hrely hw₁)

/-- A task that has ended is in its postcondition. -/
theorem Meets.post {c : Config Op Ans ε W ι} {i : ι} (h : C.Meets step (c.pool i) c.state)
    (hfinished : c.finished i = true) : ∃ r, C.post r c.state := by
  unfold Config.finished at hfinished
  split at hfinished
  · cases hfinished
  · cases hfinished
  · next hnone hawait =>
    cases hp : c.pool i with
    | none => exact absurd hp hnone
    | some p =>
      rw [hp] at h
      cases p with
      | ret a => exact ⟨_, h⟩
      | raise e => exact ⟨_, h⟩
      | await op next => exact absurd hp (hawait op next)

end Contract

namespace Evolves
variable [DecidableEq ι] {act : ι → W → (op : Op) → Except ε (Ans op) → W → Prop}
  {create : Creation Op Ans ε W ι} {C : ι → Contract ε W}

variable (C act) in
/-- Every task stands by its contract. -/
def Meeting (c : Config Op Ans ε W ι) : Prop := ∀ i, (C i).Meets (act i) (c.pool i) c.state

/-- Every step that is taken is one that its task guarantees. -/
theorem guaranteed (hstable : ∀ i, (C i).Stable) {c c' : Config Op Ans ε W ι} (hc : Meeting act C c) {i : ι} {op : Op}
    {r : Except ε (Ans op)} (hf : Fires act c i op r c') : (C i).guar c.state c'.state := by
  obtain ⟨next, w', hp, ha, rfl⟩ := hf
  have hi := hc i
  rw [hp] at hi
  exact (hi _ ((hstable i).refl _) r w' ha).1

/-- The step lemma: each task relies only on what the others guarantee. -/
theorem meeting_step (hstable : ∀ i, (C i).Stable)
    (hguar : ∀ i j, i ≠ j → ∀ w w', (C i).guar w w' → (C j).rely w w') {c c' : Config Op Ans ε W ι}
    (hcreate : ∀ i p, c.pool i = none → create c i = some p →
      p.rg (act i) (C i).rely (C i).guar (C i).post c.state)
    (hs : TaskStep act create c c') (hc : Meeting act C c) : Meeting act C c' := by
  intro j
  cases hs with
  | @create i p hi hp =>
    by_cases hj : j = i
    · subst hj
      rw [Config.setProg_pool_self]
      exact hcreate j p hi hp
    · rw [Config.setProg_pool_ne _ _ hj]
      exact hc j
  | @fires _ i op r hf =>
    have hstep := guaranteed hstable hc hf
    obtain ⟨next, w', hp, ha, rfl⟩ := hf
    by_cases hj : j = i
    · subst hj
      have hown := hc j
      rw [hp] at hown
      rw [Config.setProg_pool_self]
      exact (hown _ ((hstable j).refl _) r w' ha).2
    · rw [Config.setProg_pool_ne _ _ hj]
      exact (hc j).relied (hstable j) (hguar i j (Ne.symm hj) _ _ hstep)

/-- The run lemma, together with what else the guarantees preserve. -/
theorem meeting (hstable : ∀ i, (C i).Stable)
    (hguar : ∀ i j, i ≠ j → ∀ w w', (C i).guar w w' → (C j).rely w w') {J : Config Op Ans ε W ι → Prop}
    (hcreate : ∀ c i p, Meeting act C c → J c → c.pool i = none → create c i = some p →
      p.rg (act i) (C i).rely (C i).guar (C i).post c.state ∧ J (c.setProg i p))
    (hJ : ∀ c i op r c', Meeting act C c → J c → Fires act c i op r c' → (C i).guar c.state c'.state → J c')
    {c c' : Config Op Ans ε W ι} (h : Evolves act create c c') (hc : Meeting act C c) (hj : J c) :
    Meeting act C c' ∧ J c' := by
  induction h with
  | refl => exact ⟨hc, hj⟩
  | tail _ hs ih =>
    obtain ⟨hmeeting, hj⟩ := ih
    refine ⟨meeting_step hstable hguar (fun i p hi hp => (hcreate _ i p hmeeting hj hi hp).1) hs hmeeting, ?_⟩
    cases hs with
    | create hi hp => exact (hcreate _ _ _ hmeeting hj hi hp).2
    | fires hf => exact hJ _ _ _ _ _ hmeeting hj hf (guaranteed hstable hmeeting hf)

end Evolves

/-! ## Scripts -/

section Script
variable [DecidableEq ι] {Choice : Type}
  (exec : ι → W → (op : Op) → Choice → Option (Except ε (Ans op) × W))

/-- Play a script of tasks; `none` if some turn is not possible. -/
def Config.playTasks (create : Creation Op Ans ε W ι) (c : Config Op Ans ε W ι) :
    List (Turn ι Choice) → Option (Config Op Ans ε W ι)
  | [] => some c
  | .start i :: turns =>
    match c.pool i, create c i with
    | none, some p => (c.setProg i p).playTasks create turns
    | _, _ => none
  | .fire i choice :: turns =>
    match c.pool i with
    | some (.await op next) =>
      match exec i c.state op choice with
      | some (r, w') => ({ c with state := w' }.setProg i (next r)).playTasks create turns
      | none => none
    | _ => none

variable {exec} {act : ι → W → (op : Op) → Except ε (Ans op) → W → Prop} {create : Creation Op Ans ε W ι}

theorem Config.playTasks_evolves
    (hexec : ∀ i w op choice r w', exec i w op choice = some (r, w') → act i w op r w')
    {turns : List (Turn ι Choice)} {c c' : Config Op Ans ε W ι}
    (h : c.playTasks exec create turns = some c') : Evolves act create c c' := by
  induction turns generalizing c with
  | nil =>
    obtain rfl : c = c' := by simpa [Config.playTasks] using h
    exact .refl
  | cons turn turns ih =>
    cases turn with
    | start i =>
      simp only [Config.playTasks] at h
      split at h
      · next hi hp => exact (ih h).head (.create hi hp)
      · cases h
    | fire i choice =>
      simp only [Config.playTasks] at h
      split at h
      · next op next hp =>
        split at h
        · next r w' he => exact (ih h).head (.fires ⟨next, w', hp, hexec _ _ _ _ _ _ he, rfl⟩)
        · cases h
      · cases h

/-- The first turn of a script that fires. -/
theorem Config.playTasks_fire
    (hexec : ∀ i w op choice r w', exec i w op choice = some (r, w') → act i w op r w')
    {i : ι} {choice : Choice} {turns : List (Turn ι Choice)} {c c' : Config Op Ans ε W ι} {op : Op}
    {next : Except ε (Ans op) → Prog Op Ans ε Unit} (hp : c.pool i = some (.await op next))
    (h : c.playTasks exec create (.fire i choice :: turns) = some c') :
    ∃ r c₁, Fires act c i op r c₁ ∧ Evolves act create c₁ c' := by
  simp only [Config.playTasks, hp] at h
  split at h
  · next r w' he => exact ⟨r, _, ⟨next, w', hp, hexec _ _ _ _ _ _ he, rfl⟩, playTasks_evolves hexec h⟩
  · cases h

end Script
end Coroutine

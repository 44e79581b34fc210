import Freeshard.Coroutine.Program

/-! # Running one coroutine

`Exec step p w r w'`: from state `w` the coroutine `p`, run with nothing else interleaved, ends
with outcome `r` in state `w'`. `wp step p Φ w`: every such run ends in `Φ`; it is computed by
recursion on the program and composes over `>>=`, `try` and `finally`.

`follow` runs a coroutine on a script of the environment's choices.
-/

namespace Coroutine
set_option autoImplicit false

namespace Prog

variable {Op : Type} {Ans : Op → Type} {ε α β W : Type}
variable (step : W → (op : Op) → Except ε (Ans op) → W → Prop)

/-! ## Complete runs -/

inductive Exec : Prog Op Ans ε α → W → Except ε α → W → Prop where
  | ret (a : α) (w : W) : Exec (.ret a) w (.ok a) w
  | raise (e : ε) (w : W) : Exec (.raise e) w (.error e) w
  | await {op : Op} {next : Except ε (Ans op) → Prog Op Ans ε α} {r : Except ε (Ans op)}
      {w w₁ w' : W} {res : Except ε α} (hs : step w op r w₁)
      (hr : Exec (next r) w₁ res w') : Exec (.await op next) w res w'

variable {step}

/-- A coroutine whose operations never block has a complete run. -/
theorem Uses.exists_exec {φ : Op → Prop} {p : Prog Op Ans ε α} (hp : p.Uses φ)
    (hprogress : ∀ op, φ op → ∀ w, ∃ r w', step w op r w') (w : W) :
    ∃ r w', Exec step p w r w' := by
  induction p generalizing w with
  | ret a => exact ⟨_, _, .ret a w⟩
  | raise e => exact ⟨_, _, .raise e w⟩
  | await op next ih =>
    obtain ⟨r, w₁, hs⟩ := hprogress op hp.1 w
    obtain ⟨res, w', hr⟩ := ih r (hp.2 r) w₁
    exact ⟨res, w', .await hs hr⟩

/-- A run of one operation is one step. -/
theorem exec_perform {op : Op} {w w' : W} {r : Except ε (Ans op)} :
    Exec step (perform op) w r w' ↔ step w op r w' := by
  constructor
  · intro h
    cases h with
    | @await _ _ r₁ _ w₁ _ _ hs hr =>
      cases r₁ <;> cases hr <;> exact hs
  · intro hs
    refine .await hs ?_
    cases r with
    | ok a => exact .ret a w'
    | error e => exact .raise e w'

/-- A run of `p` that returns, and then one of `f`. -/
theorem Exec.bind {p : Prog Op Ans ε α} {f : α → Prog Op Ans ε β} {a : α} {w w₁ w' : W}
    {res : Except ε β} (hp : Exec step p w (.ok a) w₁) (hf : Exec step (f a) w₁ res w') :
    Exec step (p >>= f) w res w' := by
  induction p generalizing w with
  | ret a' =>
    cases hp
    exact hf
  | raise e => cases hp
  | await op next ih =>
    cases hp with
    | await hs hr => exact .await hs (ih _ hr)

theorem Exec.tryCatch {p : Prog Op Ans ε α} {handle : ε → Prog Op Ans ε α} {a : α} {w w' : W}
    (h : Exec step p w (.ok a) w') : Exec step (MonadExcept.tryCatch p handle) w (.ok a) w' := by
  induction p generalizing w with
  | ret a' => exact h
  | raise e => cases h
  | await op next ih =>
    cases h with
    | await hs hr => exact .await hs (ih _ hr)

/-- A run of `p >>= f` is a run of `p` and then one of `f`, or ends with an exception of `p`. -/
theorem Exec.bind_inv {p : Prog Op Ans ε α} {f : α → Prog Op Ans ε β} {w w' : W}
    {res : Except ε β} (h : Exec step (p >>= f) w res w') :
    (∃ a w₁, Exec step p w (.ok a) w₁ ∧ Exec step (f a) w₁ res w') ∨
      ∃ e, res = .error e ∧ Exec step p w (.error e) w' := by
  induction p generalizing w with
  | ret a => exact .inl ⟨a, w, .ret a w, h⟩
  | raise e =>
    cases h
    exact .inr ⟨e, rfl, .raise e _⟩
  | await op next ih =>
    cases h with
    | await hs hr =>
      obtain ⟨a, w₁, hp, hf⟩ | ⟨e, rfl, hp⟩ := ih _ hr
      · exact .inl ⟨a, w₁, .await hs hp, hf⟩
      · exact .inr ⟨e, rfl, .await hs hp⟩

/-- Runs from one of two related states are runs from the other. -/
theorem Exec.simulate {V : Type} {step' : V → (op : Op) → Except ε (Ans op) → V → Prop}
    {R : W → V → Prop}
    (hsim : ∀ w v op r w', R w v → step w op r w' → ∃ v', step' v op r v' ∧ R w' v')
    {p : Prog Op Ans ε α} {w w' : W} {res : Except ε α} (h : Exec step p w res w') {v : V}
    (hv : R w v) : ∃ v', Exec step' p v res v' ∧ R w' v' := by
  induction h generalizing v with
  | ret a w => exact ⟨v, .ret a v, hv⟩
  | raise e w => exact ⟨v, .raise e v, hv⟩
  | await hs hr ih =>
    obtain ⟨v₁, hs', hv₁⟩ := hsim _ _ _ _ _ hv hs
    obtain ⟨v', hr', hv'⟩ := ih hv₁
    exact ⟨v', .await hs' hr', hv'⟩

/-- Operations with one answer and one effect leave a coroutine one run. -/
theorem Exec.unique (hstep : ∀ w op r w₁ r' w₂, step w op r w₁ → step w op r' w₂ →
      r = r' ∧ w₁ = w₂)
    {p : Prog Op Ans ε α} {w w₁ w₂ : W} {res res' : Except ε α} (h : Exec step p w res w₁)
    (h' : Exec step p w res' w₂) : res = res' ∧ w₁ = w₂ := by
  induction h with
  | ret a w =>
    cases h'
    exact ⟨rfl, rfl⟩
  | raise e w =>
    cases h'
    exact ⟨rfl, rfl⟩
  | await hs hr ih =>
    cases h' with
    | await hs' hr' =>
      obtain ⟨rfl, rfl⟩ := hstep _ _ _ _ _ _ hs hs'
      exact ih hr'

/-! ## Weakest preconditions -/

variable (step)

/-- Every complete run of the coroutine from `w` ends in `Φ`. -/
def wp : Prog Op Ans ε α → (Except ε α → W → Prop) → W → Prop
  | .ret a, Φ, w => Φ (.ok a) w
  | .raise e, Φ, w => Φ (.error e) w
  | .await op next, Φ, w => ∀ r w', step w op r w' → (next r).wp Φ w'

variable {step}

@[simp] theorem wp_ret (a : α) (Φ : Except ε α → W → Prop) (w : W) :
    (Prog.ret a : Prog Op Ans ε α).wp step Φ w ↔ Φ (.ok a) w := Iff.rfl

@[simp] theorem wp_raise (e : ε) (Φ : Except ε α → W → Prop) (w : W) :
    (Prog.raise e : Prog Op Ans ε α).wp step Φ w ↔ Φ (.error e) w := Iff.rfl

@[simp] theorem wp_await (op : Op) (next : Except ε (Ans op) → Prog Op Ans ε α)
    (Φ : Except ε α → W → Prop) (w : W) :
    (Prog.await op next).wp step Φ w ↔ ∀ r w', step w op r w' → (next r).wp step Φ w' := Iff.rfl

@[simp] theorem wp_perform (op : Op) (Φ : Except ε (Ans op) → W → Prop) (w : W) :
    (perform op : Prog Op Ans ε (Ans op)).wp step Φ w ↔ ∀ r w', step w op r w' → Φ r w' := by
  refine forall_congr' fun r => forall_congr' fun w' => imp_congr_right fun _ => ?_
  cases r <;> rfl

theorem wp_mono {p : Prog Op Ans ε α} {Φ Ψ : Except ε α → W → Prop} {w : W}
    (h : p.wp step Φ w) (himp : ∀ r w', Φ r w' → Ψ r w') : p.wp step Ψ w := by
  induction p generalizing w with
  | ret a => exact himp _ _ h
  | raise e => exact himp _ _ h
  | await op next ih => exact fun r w' hs => ih r (h r w' hs)

theorem wp_of_forall {p : Prog Op Ans ε α} {Φ : Except ε α → W → Prop} {w : W}
    (h : ∀ r w', Φ r w') : p.wp step Φ w := by
  induction p generalizing w with
  | ret a => exact h _ _
  | raise e => exact h _ _
  | await op next ih => exact fun r w' _ => ih r

theorem wp_congr {p : Prog Op Ans ε α} {Φ Ψ : Except ε α → W → Prop} {w : W}
    (h : ∀ r w', Φ r w' ↔ Ψ r w') : p.wp step Φ w ↔ p.wp step Ψ w :=
  ⟨fun hp => wp_mono hp fun r w' => (h r w').mp, fun hp => wp_mono hp fun r w' => (h r w').mpr⟩

theorem wp_bind (p : Prog Op Ans ε α) (f : α → Prog Op Ans ε β) (Φ : Except ε β → W → Prop)
    (w : W) : (p >>= f).wp step Φ w ↔ p.wp step (fun r w' => match r with
      | .ok a => (f a).wp step Φ w'
      | .error e => Φ (.error e) w') w := by
  induction p generalizing w with
  | ret a => rfl
  | raise e => rfl
  | await op next ih =>
    refine forall_congr' fun r => forall_congr' fun w' => imp_congr_right fun _ => ?_
    exact ih r w'

theorem wp_tryCatch (p : Prog Op Ans ε α) (handle : ε → Prog Op Ans ε α)
    (Φ : Except ε α → W → Prop) (w : W) :
    (MonadExcept.tryCatch p handle).wp step Φ w ↔ p.wp step (fun r w' => match r with
      | .ok a => Φ (.ok a) w'
      | .error e => (handle e).wp step Φ w') w := by
  induction p generalizing w with
  | ret a => rfl
  | raise e => rfl
  | await op next ih =>
    refine forall_congr' fun r => forall_congr' fun w' => imp_congr_right fun _ => ?_
    exact ih r w'

theorem wp_tryFinally (p : Prog Op Ans ε α) (cleanup : Prog Op Ans ε Unit)
    (Φ : Except ε α → W → Prop) (w : W) :
    (p.tryFinally cleanup).wp step Φ w ↔ p.wp step (fun r w' => cleanup.wp step (fun r' w'' =>
      match r' with
      | .ok _ => Φ r w''
      | .error e => Φ (.error e) w'') w') w := by
  induction p generalizing w with
  | ret a =>
    rw [tryFinally_ret, wp_bind, wp_ret]
    exact wp_congr fun r w' => by cases r <;> rfl
  | raise e =>
    rw [tryFinally_raise, wp_bind, wp_raise]
    exact wp_congr fun r w' => by cases r <;> rfl
  | await op next ih =>
    refine forall_congr' fun r => forall_congr' fun w' => imp_congr_right fun _ => ?_
    exact ih r w'

/-! The same rules read forwards, with the postcondition of the first part at hand. -/

theorem wp_bind_of {p : Prog Op Ans ε α} {f : α → Prog Op Ans ε β} {Φ : Except ε α → W → Prop}
    {Ψ : Except ε β → W → Prop} {w : W} (hp : p.wp step Φ w)
    (hok : ∀ a w', Φ (.ok a) w' → (f a).wp step Ψ w')
    (herr : ∀ e w', Φ (.error e) w' → Ψ (.error e) w') : (p >>= f).wp step Ψ w := by
  refine (wp_bind p f Ψ w).mpr (wp_mono hp ?_)
  rintro (e | a) w' h
  · exact herr e w' h
  · exact hok a w' h

theorem wp_tryCatch_of {p : Prog Op Ans ε α} {handle : ε → Prog Op Ans ε α}
    {Φ Ψ : Except ε α → W → Prop} {w : W} (hp : p.wp step Φ w)
    (hok : ∀ a w', Φ (.ok a) w' → Ψ (.ok a) w')
    (herr : ∀ e w', Φ (.error e) w' → (handle e).wp step Ψ w') :
    (MonadExcept.tryCatch p handle).wp step Ψ w := by
  refine (wp_tryCatch p handle Ψ w).mpr (wp_mono hp ?_)
  rintro (e | a) w' h
  · exact herr e w' h
  · exact hok a w' h

theorem wp_tryFinally_of {p : Prog Op Ans ε α} {cleanup : Prog Op Ans ε Unit}
    {Φ Ψ : Except ε α → W → Prop} {w : W} (hp : p.wp step Φ w)
    (hc : ∀ r w', Φ r w' → cleanup.wp step (fun r' w'' => match r' with
      | .ok _ => Ψ r w''
      | .error e => Ψ (.error e) w'') w') : (p.tryFinally cleanup).wp step Ψ w :=
  (wp_tryFinally p cleanup Ψ w).mpr (wp_mono hp hc)

/-- What body and cleanup both end in. -/
theorem wp_tryFinally_same {p : Prog Op Ans ε α} {cleanup : Prog Op Ans ε Unit} {P : W → Prop}
    {w : W} (hp : p.wp step (fun _ => P) w)
    (hc : ∀ w', P w' → cleanup.wp step (fun _ => P) w') :
    (p.tryFinally cleanup).wp step (fun _ => P) w := by
  refine wp_tryFinally_of hp fun r w' h => wp_mono (hc w' h) ?_
  rintro (e | u) w'' h'' <;> exact h''

theorem wp_and {p : Prog Op Ans ε α} {Φ Ψ : Except ε α → W → Prop} {w : W}
    (h₁ : p.wp step Φ w) (h₂ : p.wp step Ψ w) : p.wp step (fun r w' => Φ r w' ∧ Ψ r w') w := by
  induction p generalizing w with
  | ret a => exact ⟨h₁, h₂⟩
  | raise e => exact ⟨h₁, h₂⟩
  | await op next ih => exact fun r w' hs => ih r (h₁ r w' hs) (h₂ r w' hs)

/-- An invariant of all operations a coroutine may use is an invariant of the coroutine. -/
theorem Uses.wp {φ : Op → Prop} {I : W → Prop} {p : Prog Op Ans ε α} (hp : p.Uses φ)
    (hI : ∀ op, φ op → ∀ w r w', I w → step w op r w' → I w') {w : W} (hw : I w) :
    p.wp step (fun _ => I) w := by
  induction p generalizing w with
  | ret a => exact hw
  | raise e => exact hw
  | await op next ih =>
    intro r w' hs
    exact ih r (hp.2 r) (hI op hp.1 w r w' hw hs)

/-- If the operations raise only `ψ`, so does a coroutine that raises nothing else itself. -/
theorem Raises.wp {ψ : ε → Prop} {p : Prog Op Ans ε α} (hp : p.Raises ψ)
    (hstep : ∀ op w e w', step w op (.error e) w' → ψ e) (w : W) :
    p.wp step (fun r _ => ∀ e, r = .error e → ψ e) w := by
  induction p generalizing w with
  | ret a => exact nofun
  | raise e =>
    rintro e' ⟨⟩
    exact hp
  | await op next ih =>
    intro r w' hs
    refine ih r (hp r ?_) w'
    rintro e rfl
    exact hstep _ _ _ _ hs

/-- A loop that returns, whose invariant depends on the elements it has still to visit. -/
theorem wp_forM {I : List β → W → Prop} {f : β → Prog Op Ans ε PUnit} {l : List β} {w : W}
    (hf : ∀ b l w, I (b :: l) w → (f b).wp step (fun r w' => r = .ok ⟨⟩ ∧ I l w') w) (h : I l w) :
    (l.forM f).wp step (fun r w' => r = .ok ⟨⟩ ∧ I [] w') w := by
  induction l generalizing w with
  | nil => exact ⟨rfl, h⟩
  | cons b l ih =>
    refine wp_bind_of (hf b l w h) (fun _ w' h' => ih h'.2) fun e w' h' => ?_
    cases h'.1

theorem Exec.wp {p : Prog Op Ans ε α} {Φ : Except ε α → W → Prop} {w w' : W}
    {res : Except ε α} (h : Exec step p w res w') (hw : p.wp step Φ w) : Φ res w' := by
  induction h with
  | ret a w => exact hw
  | raise e w => exact hw
  | await hs hr ih => exact ih (hw _ _ hs)

/-! ## Runs that return -/

variable (step) in
/-- Every complete run of the coroutine that returns ends in `Φ`. -/
def wpOk (p : Prog Op Ans ε α) (Φ : α → W → Prop) (w : W) : Prop :=
  p.wp step (fun r w' => ∀ a, r = .ok a → Φ a w') w

theorem wpOk_ret {a : α} {Φ : α → W → Prop} {w : W} (h : Φ a w) :
    (Prog.ret a : Prog Op Ans ε α).wpOk step Φ w := by
  rintro _ ⟨⟩
  exact h

theorem wpOk_raise (e : ε) (Φ : α → W → Prop) (w : W) :
    (Prog.raise e : Prog Op Ans ε α).wpOk step Φ w := nofun

theorem wpOk_perform {op : Op} {Φ : Ans op → W → Prop} {w : W}
    (h : ∀ a w', step w op (.ok a) w' → Φ a w') :
    (perform op : Prog Op Ans ε (Ans op)).wpOk step Φ w := by
  refine (wp_perform op _ w).mpr ?_
  rintro _ w' hs a rfl
  exact h a w' hs

theorem wpOk_mono {p : Prog Op Ans ε α} {Φ Ψ : α → W → Prop} {w : W} (h : p.wpOk step Φ w)
    (himp : ∀ a w', Φ a w' → Ψ a w') : p.wpOk step Ψ w :=
  wp_mono h fun _ w' h' a ha => himp a w' (h' a ha)

theorem wpOk_bind {p : Prog Op Ans ε α} {f : α → Prog Op Ans ε β} {P : α → W → Prop}
    {Q : β → W → Prop} {w : W} (hp : p.wpOk step P w)
    (hf : ∀ a w', P a w' → (f a).wpOk step Q w') : (p >>= f).wpOk step Q w :=
  wp_bind_of hp (fun a w' h => hf a w' (h a rfl)) fun _ _ _ => nofun

theorem wpOk_tryCatch {p : Prog Op Ans ε α} {handle : ε → Prog Op Ans ε α} {R : W → Prop}
    {Φ : α → W → Prop} {w : W} (hp : p.wp step (fun _ => R) w) (hok : ∀ a w', R w' → Φ a w')
    (herr : ∀ e w', R w' → (handle e).wpOk step Φ w') :
    (MonadExcept.tryCatch p handle).wpOk step Φ w := by
  refine wp_tryCatch_of hp ?_ herr
  rintro _ w' h a -
  exact hok a w' h

/-- A loop whose invariant depends on the elements it has still to visit. -/
theorem wpOk_forM {I : List β → W → Prop} {f : β → Prog Op Ans ε PUnit} {l : List β} {w : W}
    (hf : ∀ b l w, I (b :: l) w → (f b).wpOk step (fun _ => I l) w) (h : I l w) :
    (l.forM f).wpOk step (fun _ => I []) w := by
  induction l generalizing w with
  | nil => exact wpOk_ret h
  | cons b l ih => exact wpOk_bind (hf b l w h) fun _ _ h' => ih h'

/-! ## Runs that cannot block -/

variable (step) in
/-- However the operations so far have answered, the next one can be performed. -/
def Unblocked : Prog Op Ans ε α → W → Prop
  | .ret _, _ => True
  | .raise _, _ => True
  | .await op next, w => (∃ r w', step w op r w') ∧ ∀ r w', step w op r w' → (next r).Unblocked w'

theorem Unblocked.exists_exec {p : Prog Op Ans ε α} {w : W} (h : p.Unblocked step w) :
    ∃ r w', Exec step p w r w' := by
  induction p generalizing w with
  | ret a => exact ⟨_, _, .ret a w⟩
  | raise e => exact ⟨_, _, .raise e w⟩
  | await op next ih =>
    obtain ⟨⟨r, w₁, hs⟩, hnext⟩ := h
    obtain ⟨res, w', hr⟩ := ih r (hnext r w₁ hs)
    exact ⟨res, w', .await hs hr⟩

theorem unblocked_perform {op : Op} {w : W} (h : ∃ r w', step w op r w') :
    (perform op : Prog Op Ans ε (Ans op)).Unblocked step w := by
  refine ⟨h, fun r w' _ => ?_⟩
  cases r <;> trivial

theorem Unblocked.bind {p : Prog Op Ans ε α} {f : α → Prog Op Ans ε β} {w : W}
    (hp : p.Unblocked step w) (hf : p.wpOk step (fun a w' => (f a).Unblocked step w') w) :
    (p >>= f).Unblocked step w := by
  induction p generalizing w with
  | ret a => exact hf a rfl
  | raise e => trivial
  | await op next ih => exact ⟨hp.1, fun r w' hs => ih r (hp.2 r w' hs) (hf r w' hs)⟩

theorem Unblocked.tryCatch {p : Prog Op Ans ε α} {handle : ε → Prog Op Ans ε α} {w : W}
    (hp : p.Unblocked step w)
    (hh : p.wp step (fun r w' => ∀ e, r = .error e → (handle e).Unblocked step w') w) :
    (MonadExcept.tryCatch p handle).Unblocked step w := by
  induction p generalizing w with
  | ret a => trivial
  | raise e => exact hh e rfl
  | await op next ih => exact ⟨hp.1, fun r w' hs => ih r (hp.2 r w' hs) (hh r w' hs)⟩

theorem Unblocked.tryFinally {p : Prog Op Ans ε α} {cleanup : Prog Op Ans ε Unit} {w : W}
    (hp : p.Unblocked step w) (hc : p.wp step (fun _ w' => cleanup.Unblocked step w') w) :
    (p.tryFinally cleanup).Unblocked step w := by
  induction p generalizing w with
  | ret a => exact Unblocked.bind hc (wp_of_forall fun _ _ _ _ => trivial)
  | raise e => exact Unblocked.bind hc (wp_of_forall fun _ _ _ _ => trivial)
  | await op next ih => exact ⟨hp.1, fun r w' hs => ih r (hp.2 r w' hs) (hc r w' hs)⟩

/-- No operation in use blocks where an invariant of them holds. -/
theorem Uses.unblocked {φ : Op → Prop} {I : W → Prop} {p : Prog Op Ans ε α} (hp : p.Uses φ)
    (hI : ∀ op, φ op → ∀ w r w', I w → step w op r w' → I w')
    (hprogress : ∀ op, φ op → ∀ w, I w → ∃ r w', step w op r w') {w : W} (hw : I w) :
    p.Unblocked step w := by
  induction p generalizing w with
  | ret a => trivial
  | raise e => trivial
  | await op next ih =>
    exact ⟨hprogress op hp.1 w hw, fun r w' hs => ih r (hp.2 r) (hI op hp.1 w r w' hw hs)⟩

/-! ## Evaluation -/

section Eval
variable (effect : W → (op : Op) → Except ε (Ans op) × W)

/-- The run of a coroutine whose operations always answer, and in one way. -/
def eval : Prog Op Ans ε α → W → Except ε α × W
  | .ret a, w => (.ok a, w)
  | .raise e, w => (.error e, w)
  | .await op next, w => (next (effect w op).1).eval (effect w op).2

@[simp] theorem eval_ret (a : α) (w : W) :
    (Prog.ret a : Prog Op Ans ε α).eval effect w = (.ok a, w) := rfl

@[simp] theorem eval_raise (e : ε) (w : W) :
    (Prog.raise e : Prog Op Ans ε α).eval effect w = (.error e, w) := rfl

@[simp] theorem eval_perform (op : Op) (w : W) :
    (perform op : Prog Op Ans ε (Ans op)).eval effect w = effect w op := by
  simp only [perform, eval]
  obtain ⟨r, w'⟩ := effect w op
  cases r <;> rfl

theorem eval_bind (p : Prog Op Ans ε α) (f : α → Prog Op Ans ε β) (w : W) :
    (p >>= f).eval effect w = match p.eval effect w with
      | (.ok a, w') => (f a).eval effect w'
      | (.error e, w') => (.error e, w') := by
  induction p generalizing w with
  | ret a => rfl
  | raise e => rfl
  | await op next ih => exact ih _ _

variable {effect}

theorem eval_bind_ok {p : Prog Op Ans ε α} {w : W} {a : α} (h : (p.eval effect w).1 = .ok a)
    (f : α → Prog Op Ans ε β) :
    (p >>= f).eval effect w = (f a).eval effect (p.eval effect w).2 := by
  rw [eval_bind]
  generalize p.eval effect w = run at h ⊢
  obtain ⟨r, w'⟩ := run
  obtain rfl : r = .ok a := h
  rfl

theorem eval_bind_error {p : Prog Op Ans ε α} {w : W} {e : ε}
    (h : (p.eval effect w).1 = .error e) (f : α → Prog Op Ans ε β) :
    (p >>= f).eval effect w = (.error e, (p.eval effect w).2) := by
  rw [eval_bind]
  generalize p.eval effect w = run at h ⊢
  obtain ⟨r, w'⟩ := run
  obtain rfl : r = .error e := h
  rfl

variable (effect)

theorem eval_map (f : α → β) (p : Prog Op Ans ε α) (w : W) :
    (f <$> p).eval effect w = ((p.eval effect w).1.map f, (p.eval effect w).2) := by
  rw [map_eq_pure_bind, eval_bind]
  obtain ⟨r, w'⟩ := p.eval effect w
  cases r <;> rfl

theorem eval_tryCatch (p : Prog Op Ans ε α) (handle : ε → Prog Op Ans ε α) (w : W) :
    (MonadExcept.tryCatch p handle).eval effect w = match p.eval effect w with
      | (.ok a, w') => (.ok a, w')
      | (.error e, w') => (handle e).eval effect w' := by
  induction p generalizing w with
  | ret a => rfl
  | raise e => rfl
  | await op next ih => exact ih _ _

/-- What all operations in use preserve is preserved. -/
theorem Uses.eval {φ : Op → Prop} {I : W → Prop} {p : Prog Op Ans ε α} (hp : p.Uses φ)
    (hI : ∀ op, φ op → ∀ w, I w → I (effect w op).2) {w : W} (hw : I w) :
    I (p.eval effect w).2 := by
  induction p generalizing w with
  | ret a => exact hw
  | raise e => exact hw
  | await op next ih => exact ih _ (hp.2 _) (hI op hp.1 w hw)

end Eval

/-! ## Scripts -/

section Script
variable {Choice : Type} (exec : W → (op : Op) → Choice → Option (Except ε (Ans op) × W))

/-- Run a coroutine on a script of the environment's choices, one for each await; `none` if the
script does not fit. -/
def follow : Prog Op Ans ε α → W → List Choice → Option (Except ε α × W)
  | .ret a, w, [] => some (.ok a, w)
  | .raise e, w, [] => some (.error e, w)
  | .await op next, w, choice :: choices =>
    match exec w op choice with
    | some (r, w') => (next r).follow w' choices
    | none => none
  | _, _, _ => none

variable {exec}

theorem follow_exec (hexec : ∀ w op choice r w', exec w op choice = some (r, w') → step w op r w')
    {p : Prog Op Ans ε α} {w w' : W} {choices : List Choice} {res : Except ε α}
    (h : p.follow exec w choices = some (res, w')) : Exec step p w res w' := by
  induction p generalizing w choices with
  | ret a =>
    cases choices with
    | nil =>
      cases h
      exact .ret a _
    | cons _ _ => cases h
  | raise e =>
    cases choices with
    | nil =>
      cases h
      exact .raise e _
    | cons _ _ => cases h
  | await op next ih =>
    cases choices with
    | nil => cases h
    | cons choice choices =>
      simp only [follow] at h
      split at h
      · next r w₁ he => exact .await (hexec _ _ _ _ _ he) (ih r h)
      · cases h

/-- What a script shows of the run it describes. -/
theorem exists_exec (hexec : ∀ w op choice r w', exec w op choice = some (r, w') → step w op r w')
    (p : Prog Op Ans ε α) (w : W) (choices : List Choice) (P : Except ε α → W → Bool)
    (h : (p.follow exec w choices).any (fun run => P run.1 run.2) = true) :
    ∃ res w', Exec step p w res w' ∧ P res w' = true := by
  cases hf : p.follow exec w choices with
  | none =>
    rw [hf] at h
    cases h
  | some run =>
    rw [hf] at h
    exact ⟨_, _, follow_exec hexec hf, h⟩

end Script

end Prog
end Coroutine

import Freeshard.Coroutine.Execution
import Mathlib.Logic.Relation

/-! # Interleaving coroutines at their awaits

A `Config` is a shared state and a pool of coroutines, one for each name `i : ι` that is in use.
A step either starts a coroutine under an unused name or lets one coroutine perform the operation
it awaits (`Fires`). The relation `act i w op r w'` says that `op`, awaited by `i` in state `w`,
may answer `r` and leave `w'`; an operation with no such answer blocks its coroutine.

`Config.play` executes a script of moves when `act` comes from a function of the environment's
choices; it is how concrete runs are exhibited.
-/

namespace Coroutine
set_option autoImplicit false

variable {Op : Type} {Ans : Op → Type} {ε W ι : Type} [DecidableEq ι]

structure Config (Op : Type) (Ans : Op → Type) (ε W ι : Type) where
  state : W
  pool : ι → Option (Prog Op Ans ε Unit)

namespace Config

/-- Only the state, nothing started. -/
def idle (w : W) : Config Op Ans ε W ι := ⟨w, fun _ => none⟩

def setProg (c : Config Op Ans ε W ι) (i : ι) (p : Prog Op Ans ε Unit) : Config Op Ans ε W ι :=
  { c with pool := Function.update c.pool i (some p) }

@[simp] theorem setProg_state (c : Config Op Ans ε W ι) (i : ι) (p : Prog Op Ans ε Unit) :
    (c.setProg i p).state = c.state := rfl

@[simp] theorem setProg_pool_self (c : Config Op Ans ε W ι) (i : ι) (p : Prog Op Ans ε Unit) :
    (c.setProg i p).pool i = some p := Function.update_self ..

theorem setProg_pool_ne (c : Config Op Ans ε W ι) {i j : ι} (p : Prog Op Ans ε Unit)
    (h : j ≠ i) : (c.setProg i p).pool j = c.pool j := Function.update_of_ne h ..

/-- No coroutine of the pool has an operation left to perform. -/
def Quiescent (c : Config Op Ans ε W ι) : Prop :=
  ∀ i op next, c.pool i ≠ some (.await op next)

end Config

variable (act : ι → W → (op : Op) → Except ε (Ans op) → W → Prop)
variable (start : ι → Prog Op Ans ε Unit → Prop)

/-- Coroutine `i` performs the operation it awaits. -/
def Fires (c : Config Op Ans ε W ι) (i : ι) (op : Op) (r : Except ε (Ans op))
    (c' : Config Op Ans ε W ι) : Prop :=
  ∃ next w', c.pool i = some (.await op next) ∧ act i c.state op r w' ∧
    c' = { c with state := w' }.setProg i (next r)

inductive Step : Config Op Ans ε W ι → Config Op Ans ε W ι → Prop where
  | start {c : Config Op Ans ε W ι} {i : ι} {p : Prog Op Ans ε Unit} (hi : c.pool i = none)
      (hp : start i p) : Step c (c.setProg i p)
  | fires {c c' : Config Op Ans ε W ι} {i : ι} {op : Op} {r : Except ε (Ans op)}
      (h : Fires act c i op r c') : Step c c'

abbrev Reaches : Config Op Ans ε W ι → Config Op Ans ε W ι → Prop :=
  Relation.ReflTransGen (Step act start)

variable {act start}

theorem Fires.acts {c c' : Config Op Ans ε W ι} {i : ι} {op : Op} {r : Except ε (Ans op)}
    (h : Fires act c i op r c') : act i c.state op r c'.state := by
  obtain ⟨next, w', -, ha, rfl⟩ := h
  exact ha

/-! ## Invariants of the shared state -/

section Invariant
variable {I : W → Prop}

/-- What every operation preserves holds in every configuration reached. -/
theorem Reaches.invariant (hI : ∀ i w op r w', I w → act i w op r w' → I w')
    {c c' : Config Op Ans ε W ι} (h : Reaches act start c c') (hc : I c.state) : I c'.state := by
  induction h with
  | refl => exact hc
  | tail _ hs ih =>
    cases hs with
    | start _ _ => exact ih
    | fires hf => exact hI _ _ _ _ _ ih hf.acts

end Invariant

/-! ## Running several coroutines to their ends -/

/-- A coroutine may run to its end with nothing else interleaved. -/
theorem Prog.Exec.reaches {i : ι} {p : Prog Op Ans ε Unit} {w w' : W} {res : Except ε Unit}
    (h : Prog.Exec (act i) p w res w') {c : Config Op Ans ε W ι} (hc : c.state = w)
    (hp : c.pool i = some p) :
    ∃ p', (∀ op next, p' ≠ .await op next) ∧
      Reaches act start c ({ c with state := w' }.setProg i p') := by
  have hself : ∀ {c : Config Op Ans ε W ι} {p w}, c.state = w → c.pool i = some p →
      c = { c with state := w }.setProg i p := by
    rintro c p w rfl hp
    obtain ⟨w, pool⟩ := c
    rw [Config.setProg, Function.update_eq_self_iff.mpr hp.symm]
  induction h generalizing c with
  | ret a w => exact ⟨.ret a, nofun, by rw [← hself hc hp]⟩
  | raise e w => exact ⟨.raise e, nofun, by rw [← hself hc hp]⟩
  | @await op next r w w₁ w' res hs hr ih =>
    have hfires : Fires act c i op r ({ c with state := w₁ }.setProg i (next r)) :=
      ⟨next, w₁, hp, hc ▸ hs, rfl⟩
    have hstate : ({ c with state := w₁ }.setProg i (next r)).state = w₁ := rfl
    obtain ⟨p', hended, hreach⟩ := ih hstate (Config.setProg_pool_self _ i _)
    refine ⟨p', hended, ?_⟩
    have htail := hreach.head (.fires hfires)
    simpa [Config.setProg] using htail

/-- `asyncio.gather`: from one state to another, the coroutines `ps`, the `k`-th under the name
`name k`, run interleaved until all of them have ended. -/
def Gathers (act : ι → W → (op : Op) → Except ε (Ans op) → W → Prop)
    (ps : List (Prog Op Ans ε Unit)) (name : ℕ → ι) (w w' : W) : Prop :=
  ∃ c, Reaches act (fun i p => ∃ k, ps[k]? = some p ∧ i = name k) (.idle w) c ∧ c.Quiescent ∧
    (∀ k < ps.length, c.pool (name k) ≠ none) ∧ c.state = w'

theorem Gathers.single {p : Prog Op Ans ε Unit} {name : ℕ → ι} {w w' : W} {res : Except ε Unit}
    (h : Prog.Exec (act (name 0)) p w res w') : Gathers act [p] name w w' := by
  have hstart : Step act (fun i q => ∃ k, [p][k]? = some q ∧ i = name k) (.idle w)
      ((Config.idle w).setProg (name 0) p) := .start rfl ⟨0, rfl, rfl⟩
  obtain ⟨p', hended, hreach⟩ := h.reaches rfl (Config.setProg_pool_self (.idle w) (name 0) p)
  refine ⟨_, hreach.head hstart, fun i op next hi => ?_, fun k hk => ?_, rfl⟩
  · by_cases hname : i = name 0
    · rw [hname, Config.setProg_pool_self] at hi
      exact hended op next (Option.some.inj hi)
    · rw [Config.setProg_pool_ne _ _ hname] at hi
      change ((Config.idle w).setProg (name 0) p).pool i = _ at hi
      rw [Config.setProg_pool_ne _ _ hname] at hi
      cases hi
  · obtain rfl : k = 0 := by simpa using hk
    rw [Config.setProg_pool_self]
    exact nofun

/-! ## Scripts -/

/-- A move of a script: start a coroutine, or let one perform its operation under a choice of the
environment. -/
inductive Move (Op : Type) (Ans : Op → Type) (ε ι Choice : Type) where
  | start (i : ι) (p : Prog Op Ans ε Unit)
  | fire (i : ι) (choice : Choice)

section Script
variable {Choice : Type} (exec : ι → W → (op : Op) → Choice → Option (Except ε (Ans op) × W))

/-- Play a script; `none` if some move is not possible. -/
def Config.play (c : Config Op Ans ε W ι) :
    List (Move Op Ans ε ι Choice) → Option (Config Op Ans ε W ι)
  | [] => some c
  | .start i p :: moves =>
    match c.pool i with
    | none => (c.setProg i p).play moves
    | some _ => none
  | .fire i choice :: moves =>
    match c.pool i with
    | some (.await op next) =>
      match exec i c.state op choice with
      | some (r, w') => ({ c with state := w' }.setProg i (next r)).play moves
      | none => none
    | _ => none

variable {exec}

theorem Config.play_reaches
    (hexec : ∀ i w op choice r w', exec i w op choice = some (r, w') → act i w op r w')
    {moves : List (Move Op Ans ε ι Choice)}
    (hstart : ∀ i p, .start i p ∈ moves → start i p) {c c' : Config Op Ans ε W ι}
    (h : c.play exec moves = some c') : Reaches act start c c' := by
  induction moves generalizing c with
  | nil =>
    obtain rfl : c = c' := by simpa [Config.play] using h
    exact .refl
  | cons m moves ih =>
    have hstart' : ∀ i p, .start i p ∈ moves → start i p :=
      fun i p hm => hstart i p (List.mem_cons_of_mem _ hm)
    cases m with
    | start i p =>
      simp only [Config.play] at h
      split at h
      · next hi => exact (ih hstart' h).head (.start hi (hstart i p List.mem_cons_self))
      · cases h
    | fire i choice =>
      simp only [Config.play] at h
      split at h
      · next op next hp =>
        split at h
        · next r w' he =>
          exact (ih hstart' h).head (.fires ⟨next, w', hp, hexec _ _ _ _ _ _ he, rfl⟩)
        · cases h
      · cases h

/-! Whether a script has left anything in flight. -/

/-- The coroutine has nothing left to perform, or is not in use. -/
def Config.ended (c : Config Op Ans ε W ι) (i : ι) : Bool :=
  match c.pool i with
  | some (.await _ _) => false
  | _ => true

/-- The operation that the coroutine is suspended at. -/
def Config.awaiting (c : Config Op Ans ε W ι) (i : ι) : Option Op :=
  match c.pool i with
  | some (.await op _) => some op
  | _ => none

omit [DecidableEq ι] in
theorem Config.pool_of_awaiting {c : Config Op Ans ε W ι} {i : ι} {op : Op} (h : c.awaiting i = some op) :
    ∃ next, c.pool i = some (.await op next) := by
  unfold Config.awaiting at h
  split at h
  · next op' next hp =>
    obtain rfl := Option.some.inj h
    exact ⟨next, hp⟩
  · cases h

def Move.name : Move Op Ans ε ι Choice → ι
  | .start i _ => i
  | .fire i _ => i

theorem Config.play_pool {moves : List (Move Op Ans ε ι Choice)} {c c' : Config Op Ans ε W ι}
    (h : c.play exec moves = some c') {i : ι} (hi : ∀ m ∈ moves, m.name ≠ i) :
    c'.pool i = c.pool i := by
  induction moves generalizing c with
  | nil =>
    obtain rfl : c = c' := by simpa [Config.play] using h
    rfl
  | cons m moves ih =>
    have hm : i ≠ m.name := (hi m List.mem_cons_self).symm
    have hi' : ∀ m ∈ moves, m.name ≠ i := fun m' hm' => hi m' (List.mem_cons_of_mem _ hm')
    cases m with
    | start j p =>
      simp only [Config.play] at h
      split at h
      · exact (ih h hi').trans (Config.setProg_pool_ne _ _ hm)
      · cases h
    | fire j choice =>
      simp only [Config.play] at h
      split at h
      · split at h
        · exact (ih h hi').trans (Config.setProg_pool_ne _ _ hm)
        · cases h
      · cases h

theorem Config.play_quiescent {moves : List (Move Op Ans ε ι Choice)} {w : W}
    {c : Config Op Ans ε W ι} (h : (Config.idle w).play exec moves = some c)
    (hended : ∀ m ∈ moves, c.ended m.name = true) : c.Quiescent := by
  intro i op next hi
  by_cases hm : ∀ m ∈ moves, m.name ≠ i
  · rw [Config.play_pool h hm] at hi
    cases hi
  · obtain ⟨m, hmem, hname⟩ := not_forall₂.mp hm
    obtain rfl := not_not.mp hname
    have he := hended m hmem
    rw [Config.ended, hi] at he
    cases he

end Script
end Coroutine

import Freeshard.Coroutine.Tasks

/-! # Recorded runs of tasks

Recorded runs in which tasks come into being on the way. What the protocols give for coroutines that may be started at
any time (`Recorded.Runs`) they give here, too; and how a task has ended can be told from its phase. -/

namespace Coroutine
set_option autoImplicit false

variable {Op : Type} {Ans : Op → Type} {ε W ι L : Type}

namespace Config

/-- How a task has ended, if it has. -/
def outcome (c : Config Op Ans ε W ι) (i : ι) : Option (Except ε Unit) :=
  match c.pool i with
  | some (.ret a) => some (.ok a)
  | some (.raise e) => some (.error e)
  | _ => none

theorem outcome_eq_some {c : Config Op Ans ε W ι} {i : ι} {r : Except ε Unit} :
    c.outcome i = some r ↔ c.pool i = some (match r with | .ok a => .ret a | .error e => .raise e) := by
  unfold outcome
  split
  · next a hp => cases r <;> simp [hp]
  · next e hp => cases r <;> simp [hp]
  · next hret hraise =>
    constructor
    · intro h
      cases h
    · intro h
      cases r with
      | ok a => exact absurd h (hret a)
      | error e => exact absurd h (hraise e)

theorem outcome_of_await {c : Config Op Ans ε W ι} {i : ι} {op : Op}
    {next : Except ε (Ans op) → Prog Op Ans ε Unit} (hp : c.pool i = some (.await op next)) :
    c.outcome i = none := by
  rw [outcome, hp]

theorem outcome_of_none {c : Config Op Ans ε W ι} {i : ι} (hp : c.pool i = none) : c.outcome i = none := by
  rw [outcome, hp]

/-- Whether the task has ended in this. -/
def endedIn [DecidableEq ε] (c : Config Op Ans ε W ι) (i : ι) (r : Except ε Unit) : Bool :=
  match c.outcome i, r with
  | some (.ok _), .ok _ => true
  | some (.error e), .error e' => e == e'
  | _, _ => false

theorem outcome_of_endedIn [DecidableEq ε] {c : Config Op Ans ε W ι} {i : ι} {r : Except ε Unit}
    (h : c.endedIn i r = true) : c.outcome i = some r := by
  unfold endedIn at h
  split at h
  · next hr => exact hr
  · next e e' hr => rw [hr, eq_of_beq h]
  · cases h

end Config

/-- What has ended stays as it is. -/
theorem TaskStep.outcome [DecidableEq ι] {act : ι → W → (op : Op) → Except ε (Ans op) → W → Prop}
    {create : Creation Op Ans ε W ι} {c c' : Config Op Ans ε W ι} (h : TaskStep act create c c') {i : ι}
    {r : Except ε Unit} (hr : c.outcome i = some r) : c'.outcome i = some r := by
  have hkeep : ∀ (c' : Config Op Ans ε W ι), c'.pool i = c.pool i → c'.outcome i = some r := by
    intro c' hpool
    rw [Config.outcome, hpool]
    exact hr
  cases h with
  | @create j p hj hp =>
    refine hkeep _ (Config.setProg_pool_ne _ _ ?_)
    rintro rfl
    rw [Config.outcome_of_none hj] at hr
    cases hr
  | @fires _ j op r' hf =>
    obtain ⟨next, w', hp, -, rfl⟩ := hf
    refine hkeep _ (Config.setProg_pool_ne _ _ ?_)
    rintro rfl
    rw [Config.outcome_of_await hp] at hr
    cases hr

namespace Recorded

/-- Holds of every operation of a log, and of the log before it. -/
def Throughout (R : Entry Op Ans ε W ι → List (Entry Op Ans ε W ι) → Prop) : List (Entry Op Ans ε W ι) → Prop
  | [] => True
  | e :: log => R e log ∧ Throughout R log

theorem Throughout.of_append {R : Entry Op Ans ε W ι → List (Entry Op Ans ε W ι) → Prop}
    {later earlier : List (Entry Op Ans ε W ι)} {e : Entry Op Ans ε W ι}
    (h : Throughout R (later ++ e :: earlier)) : R e earlier := by
  induction later with
  | nil => exact h.1
  | cons _ _ ih => exact ih h.2

/-- A call that has ended is in its postcondition. -/
theorem Runs.post [DecidableEq ι] {act : ι → W → (op : Op) → Except ε (Ans op) → W → Prop}
    {C : Condition Op Ans ε W ι} {program : ι → Prog Op Ans ε Unit} {P : ι → Protocol Op Ans ε L} {l₀ : ι → L}
    {Q : ι → Except ε Unit → L → Prop} {w : W} {c : Config Op Ans ε (Recorded Op Ans ε W ι) ι}
    (hconf : ∀ i, (program i).Conforms (P i) (l₀ i) (Q i)) (h : Runs act C program w c) {i : ι}
    {r : Except ε Unit} (hr : c.outcome i = some r) : Q i r (phaseOf P l₀ i c.state.log) := by
  have hconforming : Conforming P (fun i s => phaseOf P l₀ i s.log) (fun i p => p = program i) l₀ Q c := by
    refine Reaches.conforming (tracks act C P l₀) ?_ h (Conforming.idle fun _ => rfl)
    rintro i p rfl
    exact hconf i
  have hi := hconforming i
  rw [Config.outcome_eq_some.mp hr] at hi
  cases r <;> exact hi.2

section TaskRuns
variable [DecidableEq ι]
variable (act : ι → W → (op : Op) → Except ε (Ans op) → W → Prop)
variable (C : Condition Op Ans ε W ι) (create : Creation Op Ans ε (Recorded Op Ans ε W ι) ι)

/-- From world `w` on, tasks are created and interleaved in any way that the condition allows. -/
abbrev TaskRuns (w : W) (c : Config Op Ans ε (Recorded Op Ans ε W ι) ι) : Prop :=
  Evolves (Recorded.Act act C) create (.idle ⟨w, []⟩) c

namespace TaskRuns
variable {act C create} {P : ι → Protocol Op Ans ε L} {l₀ : ι → L}
  {Q : ι → Except ε Unit → L → Prop} {w : W} {c : Config Op Ans ε (Recorded Op Ans ε W ι) ι}

/-- An invariant of the operations that the protocols allow. -/
theorem invariant (hconf : ∀ c i p, create c i = some p → p.Conforms (P i) (l₀ i) (Q i))
    {I : Recorded Op Ans ε W ι → Prop} (h₀ : I ⟨w, []⟩)
    (hI : ∀ i s op r w', (P i).allows (phaseOf P l₀ i s.log) op → I s → C s i op →
      act i s.world op r w' → I (s.next i op r w'))
    (h : TaskRuns act C create w c) : I c.state := by
  refine Reaches.invariant_allowed (tracks act C P l₀) ?_ ?_ h.reaches
    (Conforming.idle (Q := Q) fun _ => rfl) h₀
  · rintro i p ⟨c, hp⟩
    exact hconf c i p hp
  · rintro i s op r s' - hallowed hs ⟨hC, w', ha, rfl⟩
    exact hI i s op r w' hallowed hs hC ha

theorem conforming (hconf : ∀ c i p, create c i = some p → p.Conforms (P i) (l₀ i) (Q i))
    (h : TaskRuns act C create w c) :
    Conforming P (fun i s => phaseOf P l₀ i s.log) (fun i p => ∃ c, create c i = some p) l₀ Q c := by
  refine Reaches.conforming (tracks act C P l₀) ?_ h.reaches (Conforming.idle fun _ => rfl)
  rintro i p ⟨c, hp⟩
  exact hconf c i p hp

/-- An invariant of tasks that begin in a phase of their own, which depends on when they are created: what a task in a
phase knows, `K`, is not undone by the others, and suffices for its next operation. -/
theorem invariant_knowing {K : ι → L → Recorded Op Ans ε W ι → Prop} {I : Recorded Op Ans ε W ι → Prop}
    (h₀ : I ⟨w, []⟩)
    (hcreate : ∀ c i p, create c i = some p → I c.state →
      ∃ l, p.Conforms (P i) l (fun _ _ => True) ∧ K i l c.state)
    (hown : ∀ i s op r w' l, (P i).allows l op → K i l s → I s → C s i op → act i s.world op r w' →
      K i ((P i).after l op r) (s.next i op r w') ∧ I (s.next i op r w'))
    (hother : ∀ i j s op r w' l, i ≠ j → K i l s → act j s.world op r w' → K i l (s.next j op r w'))
    (h : TaskRuns act C create w c) : I c.state := by
  have hrun : (∀ i p, c.pool i = some p → ∃ l, p.Conforms (P i) l (fun _ _ => True) ∧ K i l c.state) ∧
      I c.state := by
    induction h with
    | refl => exact ⟨fun i p hp => (by cases hp), h₀⟩
    | tail _ hs ih =>
      obtain ⟨hpool, hI⟩ := ih
      cases hs with
      | @create i p hi hp =>
        refine ⟨fun j q hq => ?_, hI⟩
        by_cases hj : j = i
        · subst hj
          rw [Config.setProg_pool_self] at hq
          obtain rfl := Option.some.inj hq
          have hnew := hcreate _ _ _ hp hI
          exact hnew
        · rw [Config.setProg_pool_ne _ _ hj] at hq
          exact hpool j q hq
      | @fires _ i op r hf =>
        obtain ⟨next, s', hp, ⟨hC, w', ha, rfl⟩, rfl⟩ := hf
        obtain ⟨l, hconf, hknows⟩ := hpool i _ hp
        obtain ⟨hafter, hI'⟩ := hown i _ op r w' l hconf.1 hknows hI hC ha
        refine ⟨fun j q hq => ?_, hI'⟩
        by_cases hj : j = i
        · subst hj
          rw [Config.setProg_pool_self] at hq
          obtain rfl := Option.some.inj hq
          exact ⟨_, hconf.2 r, hafter⟩
        · rw [Config.setProg_pool_ne _ _ hj] at hq
          obtain ⟨l', hconf', hknows'⟩ := hpool j q hq
          exact ⟨l', hconf', hother j i _ op r w' l' hj hknows' ha⟩
  exact hrun.2

/-- A task that has ended is in its postcondition. -/
theorem post (hconf : ∀ c i p, create c i = some p → p.Conforms (P i) (l₀ i) (Q i))
    (h : TaskRuns act C create w c) {i : ι} {r : Except ε Unit} (hr : c.outcome i = some r) :
    Q i r (phaseOf P l₀ i c.state.log) := by
  have hi := h.conforming hconf i
  rw [Config.outcome_eq_some.mp hr] at hi
  cases r <;> exact hi.2

/-- The operation that a task awaits is one that its protocol allows. -/
theorem awaited (hconf : ∀ c i p, create c i = some p → p.Conforms (P i) (l₀ i) (Q i))
    (h : TaskRuns act C create w c) {i : ι} {op : Op} {next : Except ε (Ans op) → Prog Op Ans ε Unit}
    (hp : c.pool i = some (.await op next)) : (P i).allows (phaseOf P l₀ i c.state.log) op := by
  have hi := h.conforming hconf i
  rw [hp] at hi
  exact hi.2.1

/-- Once nothing is in flight, every task is in its first phase or has ended in its postcondition. -/
theorem ended (hconf : ∀ c i p, create c i = some p → p.Conforms (P i) (l₀ i) (Q i))
    (h : TaskRuns act C create w c) (hq : c.Quiescent) (i : ι) :
    phaseOf P l₀ i c.state.log = l₀ i ∨ ∃ r, Q i r (phaseOf P l₀ i c.state.log) := by
  refine Reaches.conforming_ended (tracks act C P l₀) ?_ h.reaches
    (Conforming.idle (Q := Q) fun _ => rfl) hq i
  rintro i p ⟨c, hp⟩
  exact hconf c i p hp

end TaskRuns
end TaskRuns

/-! ## Scripts -/

section Script
variable [DecidableEq ι] {Choice : Type}
  (answer : ι → W → (op : Op) → Choice → Option (Except ε (Ans op) × W))
  (C : Condition Op Ans ε W ι) [∀ s i op, Decidable (C s i op)]
  (create : Creation Op Ans ε (Recorded Op Ans ε W ι) ι)
  {act : ι → W → (op : Op) → Except ε (Ans op) → W → Prop}

/-- A run of the script. -/
theorem TaskRuns.exists (hanswer : ∀ i w op choice r w', answer i w op choice = some (r, w') →
      act i w op r w') (w : W) (turns : List (Turn ι Choice))
    (F : Config Op Ans ε (Recorded Op Ans ε W ι) ι → Bool)
    (h : ((Config.idle ⟨w, []⟩).playTasks (Recorded.exec answer C) create turns).any F = true) :
    ∃ c, TaskRuns act C create w c ∧ F c = true := by
  obtain ⟨c, hplay, hF⟩ := (Option.any_eq_true _ _).mp h
  have hexec : ∀ i s op choice r s', Recorded.exec answer C i s op choice = some (r, s') →
      Recorded.Act act C i s op r s' := fun i s op choice r s' he => Recorded.exec_act _ _ hanswer he
  exact ⟨c, Config.playTasks_evolves hexec hplay, hF⟩

end Script
end Recorded
end Coroutine

import Freeshard.Coroutine.Protocol

/-! # Recorded runs

A `Recorded` state is a world together with the operations performed so far, latest first, each with
its caller, its answer and the world it was performed in. The phase of every caller in its protocol
can be read off the log (`phaseOf`), so conforming coroutines may be interleaved in any way
(`Runs.allowed`). A `Condition` says which operations a run may perform in which state; it is how a
run is required to keep away from some interleavings.
-/

namespace Coroutine
set_option autoImplicit false

variable {Op : Type} {Ans : Op → Type} {ε W ι L : Type}

/-- One performed operation. -/
structure Entry (Op : Type) (Ans : Op → Type) (ε W ι : Type) where
  caller : ι
  op : Op
  answer : Except ε (Ans op)
  before : W

structure Recorded (Op : Type) (Ans : Op → Type) (ε W ι : Type) where
  world : W
  log : List (Entry Op Ans ε W ι) := []

/-- What must hold of a state before a caller performs an operation in it. -/
abbrev Condition (Op : Type) (Ans : Op → Type) (ε W ι : Type) : Type :=
  Recorded Op Ans ε W ι → ι → Op → Prop

namespace Recorded

def next (s : Recorded Op Ans ε W ι) (i : ι) (op : Op) (r : Except ε (Ans op)) (w' : W) :
    Recorded Op Ans ε W ι :=
  ⟨w', ⟨i, op, r, s.world⟩ :: s.log⟩

@[simp] theorem next_world (s : Recorded Op Ans ε W ι) (i : ι) (op : Op)
    (r : Except ε (Ans op)) (w' : W) : (s.next i op r w').world = w' := rfl

@[simp] theorem next_log (s : Recorded Op Ans ε W ι) (i : ι) (op : Op)
    (r : Except ε (Ans op)) (w' : W) :
    (s.next i op r w').log = ⟨i, op, r, s.world⟩ :: s.log := rfl

/-- Every operation in every state. -/
def anyway : Condition Op Ans ε W ι := fun _ _ _ => True

instance (s : Recorded Op Ans ε W ι) (i : ι) (op : Op) : Decidable (anyway s i op) :=
  inferInstanceAs (Decidable True)

variable (act : ι → W → (op : Op) → Except ε (Ans op) → W → Prop)
variable (C : Condition Op Ans ε W ι)

/-- The operations of `act`, recorded, as far as the condition allows them. -/
def Act (i : ι) (s : Recorded Op Ans ε W ι) (op : Op) (r : Except ε (Ans op))
    (s' : Recorded Op Ans ε W ι) : Prop :=
  C s i op ∧ ∃ w', act i s.world op r w' ∧ s' = s.next i op r w'

/-! ## Phases -/

variable [DecidableEq ι]

/-- The phase of a caller after the operations of a log. -/
def phaseOf (P : ι → Protocol Op Ans ε L) (l₀ : ι → L) (i : ι) : List (Entry Op Ans ε W ι) → L
  | [] => l₀ i
  | e :: log =>
    if e.caller = i then (P i).after (phaseOf P l₀ i log) e.op e.answer else phaseOf P l₀ i log

variable {act C} {P : ι → Protocol Op Ans ε L} {l₀ : ι → L}

theorem phaseOf_next_self (s : Recorded Op Ans ε W ι) (i : ι) (op : Op)
    (r : Except ε (Ans op)) (w' : W) :
    phaseOf P l₀ i (s.next i op r w').log = (P i).after (phaseOf P l₀ i s.log) op r := by
  rw [next_log, phaseOf, if_pos rfl]

theorem phaseOf_next_ne (s : Recorded Op Ans ε W ι) {i j : ι} (op : Op)
    (r : Except ε (Ans op)) (w' : W) (h : j ≠ i) :
    phaseOf P l₀ j (s.next i op r w').log = phaseOf P l₀ j s.log := by
  rw [next_log, phaseOf, if_neg (Ne.symm h)]

variable (act C P l₀) in
theorem tracks : Protocol.Tracks P (Act act C) fun i s => phaseOf P l₀ i s.log where
  own := by
    rintro i s op r s' ⟨-, w', -, rfl⟩
    exact phaseOf_next_self s i op r w'
  other := by
    rintro i j s op r s' ⟨-, w', -, rfl⟩ hij
    exact phaseOf_next_ne s op r w' hij

end Recorded

/-! ## Runs -/

namespace Recorded
section Runs
variable [DecidableEq ι]
variable (act : ι → W → (op : Op) → Except ε (Ans op) → W → Prop)
variable (C : Condition Op Ans ε W ι) (program : ι → Prog Op Ans ε Unit)

/-- From world `w` on, calls `i` of `program i` are started and interleaved in any way that the
condition allows. -/
abbrev Runs (w : W) (c : Config Op Ans ε (Recorded Op Ans ε W ι) ι) : Prop :=
  Reaches (Recorded.Act act C) (fun i p => p = program i) (.idle ⟨w, []⟩) c

namespace Runs
variable {act C program} {P : ι → Protocol Op Ans ε L} {l₀ : ι → L}
  {Q : ι → Except ε Unit → L → Prop} {w : W} {c : Config Op Ans ε (Recorded Op Ans ε W ι) ι}

/-- An invariant of the operations that the protocols allow. -/
theorem invariant (hconf : ∀ i, (program i).Conforms (P i) (l₀ i) (Q i))
    {I : Recorded Op Ans ε W ι → Prop} (h₀ : I ⟨w, []⟩)
    (hI : ∀ i s op r w', (P i).allows (phaseOf P l₀ i s.log) op → I s → C s i op →
      act i s.world op r w' → I (s.next i op r w'))
    (h : Runs act C program w c) : I c.state := by
  refine Reaches.invariant_allowed (tracks act C P l₀) ?_ ?_ h
    (Conforming.idle (Q := Q) fun _ => rfl) h₀
  · rintro i p rfl
    exact hconf i
  · rintro i s op r s' - hallowed hs ⟨hC, w', ha, rfl⟩
    exact hI i s op r w' hallowed hs hC ha

/-- An invariant of the operations that the programs use. -/
theorem invariant_of_uses {φ : ι → Op → Prop} (huses : ∀ i, (program i).Uses (φ i))
    {I : Recorded Op Ans ε W ι → Prop} (h₀ : I ⟨w, []⟩)
    (hI : ∀ i s op r w', φ i op → I s → C s i op → act i s.world op r w' → I (s.next i op r w'))
    (h : Runs act C program w c) : I c.state := by
  let P : ι → Protocol Op Ans ε Unit := fun i =>
    { allows := fun _ op => φ i op, after := fun _ _ _ => () }
  have hconf : ∀ i, (program i).Conforms (P i) () fun _ _ => True := fun i =>
    Prog.Conforms.of_uses (I := fun _ => True) (huses i)
      (fun _ hop _ _ => ⟨hop, fun _ => trivial⟩) trivial
  exact h.invariant hconf h₀ hI

/-- Once nothing is in flight, every call is in its first phase or has ended in its
postcondition. -/
theorem ended (hconf : ∀ i, (program i).Conforms (P i) (l₀ i) (Q i))
    (h : Runs act C program w c) (hq : c.Quiescent) (i : ι) :
    phaseOf P l₀ i c.state.log = l₀ i ∨ ∃ r, Q i r (phaseOf P l₀ i c.state.log) := by
  refine Reaches.conforming_ended (tracks act C P l₀) ?_ h
    (Conforming.idle (Q := Q) fun _ => rfl) hq i
  rintro i p rfl
  exact hconf i

end Runs
end Runs
end Recorded

/-! ## Scripts -/

/-- A call is started, or performs its next operation under a choice of the environment. -/
inductive Turn (ι Choice : Type) where
  | start (i : ι)
  | fire (i : ι) (choice : Choice)

def Turn.name {Choice : Type} : Turn ι Choice → ι
  | .start i => i
  | .fire i _ => i

section Script
variable {Choice : Type} [DecidableEq ι]
  (answer : ι → W → (op : Op) → Choice → Option (Except ε (Ans op) × W))
  (C : Condition Op Ans ε W ι) [∀ s i op, Decidable (C s i op)]
  (program : ι → Prog Op Ans ε Unit)

def Recorded.exec (i : ι) (s : Recorded Op Ans ε W ι) (op : Op) (choice : Choice) :
    Option (Except ε (Ans op) × Recorded Op Ans ε W ι) :=
  if C s i op then (answer i s.world op choice).map fun rw => (rw.1, s.next i op rw.1 rw.2)
  else none

def Turn.move : Turn ι Choice → Move Op Ans ε ι Choice
  | .start i => .start i (program i)
  | .fire i choice => .fire i choice

/-- The call is started and performs its operations under these choices, without interruption. -/
def Turn.call (i : ι) (choices : List Choice) : List (Turn ι Choice) :=
  .start i :: choices.map (.fire i)

variable {act : ι → W → (op : Op) → Except ε (Ans op) → W → Prop}

omit [DecidableEq ι] in
theorem Recorded.exec_act (hanswer : ∀ i w op choice r w', answer i w op choice = some (r, w') → act i w op r w')
    {i : ι} {s s' : Recorded Op Ans ε W ι} {op : Op} {choice : Choice} {r : Except ε (Ans op)}
    (h : Recorded.exec answer C i s op choice = some (r, s')) : Recorded.Act act C i s op r s' := by
  unfold Recorded.exec at h
  split at h
  · next hC =>
    obtain ⟨⟨r', w'⟩, he, heq⟩ := Option.map_eq_some_iff.mp h
    cases heq
    exact ⟨hC, w', hanswer _ _ _ _ _ _ he, rfl⟩
  · cases h

/-- A run of the script. -/
theorem Recorded.Runs.exists (hanswer : ∀ i w op choice r w', answer i w op choice = some (r, w') →
      act i w op r w') (w : W) (turns : List (Turn ι Choice))
    (F : Config Op Ans ε (Recorded Op Ans ε W ι) ι → Bool)
    (h : ((Config.idle ⟨w, []⟩).play (Recorded.exec answer C)
      (turns.map (Turn.move program))).any F = true) :
    ∃ c, Recorded.Runs act C program w c ∧ F c = true ∧
      ((∀ turn ∈ turns, c.ended turn.name = true) → c.Quiescent) := by
  obtain ⟨c, hplay, hF⟩ := (Option.any_eq_true _ _).mp h
  refine ⟨c, Config.play_reaches ?_ ?_ hplay, hF, fun hended => ?_⟩
  · exact fun i s op choice r s' he => Recorded.exec_act _ _ hanswer he
  · intro i p hm
    obtain ⟨turn, -, hmove⟩ := List.mem_map.mp hm
    cases turn with
    | start j =>
      cases hmove
      rfl
    | fire j choice => cases hmove
  · refine Config.play_quiescent hplay fun m hm => ?_
    obtain ⟨turn, hturn, rfl⟩ := List.mem_map.mp hm
    have hname : (turn.move program).name = turn.name := by cases turn <;> rfl
    rw [hname]
    exact hended turn hturn

end Script
end Coroutine

import Freeshard.System.Frames

/-! # The history of a run

The log of a state records every performed operation with the world it was performed in, so the
state knows all the states before it. -/

namespace Freeshard
open Coroutine
set_option autoImplicit false

variable {i : Call} {s s' : State} {op : Op} {r : Answer op}

/-! ## Past states -/

/-- The states that led to world `w` with this log, latest first. -/
def past : List Event → World → List State
  | [], w => [⟨w, []⟩]
  | e :: log, w => ⟨w, e :: log⟩ :: past log e.before

def State.history (s : State) : List State := past s.log s.world

/-- `s'` comes right after `s`. -/
abbrev State.Follows (s' : State) (i : Call) (op : Op) (r : Answer op) (s : State) : Prop :=
  s'.log = ⟨i, op, r, s.world⟩ :: s.log

theorem State.follows_next {w' : World} : (s.next i op r w').Follows i op r s := rfl

theorem Act.follows {E : Env} (h : Act E i s op r s') : s'.Follows i op r s := h.log

theorem State.mem_history (s : State) : s ∈ s.history := by
  obtain ⟨w, log⟩ := s
  cases log <;> exact List.mem_cons_self

theorem State.Follows.history (h : s'.Follows i op r s) : s'.history = s' :: s.history := by
  obtain ⟨w', log⟩ := s'
  obtain rfl : log = _ := h
  rfl

/-! ## Past steps -/

/-- A performed operation: the state it was performed in and the world it left. -/
structure PastStep where
  before : State
  event : Event
  after : World

/-- The steps that led to world `w` with this log, latest first. -/
def pastSteps : List Event → World → List PastStep
  | [], _ => []
  | e :: log, w => ⟨⟨e.before, log⟩, e, w⟩ :: pastSteps log e.before

def State.steps (s : State) : List PastStep := pastSteps s.log s.world

theorem State.Follows.steps (h : s'.Follows i op r s) :
    s'.steps = ⟨s, ⟨i, op, r, s.world⟩, s'.world⟩ :: s.steps := by
  obtain ⟨w', log⟩ := s'
  obtain rfl : log = _ := h
  rfl

/-! ## Past operations -/

/-- The operation has answered without an exception. -/
def Event.ok (e : Event) : Bool := e.answer.isOk

/-- The exception it has answered with. -/
def Event.raised (e : Event) : Option Exn :=
  match e.answer with
  | .ok _ => none
  | .error exn => some exn

/-- The operation has been performed at some point. -/
def Issued (op : Op) (log : List Event) : Prop := ∃ e ∈ log, e.op = op

instance (op : Op) (log : List Event) : Decidable (Issued op log) :=
  inferInstanceAs (Decidable (∃ e ∈ log, e.op = op))

theorem not_issued_nil (op : Op) : ¬Issued op [] := by simp [Issued]

theorem State.Follows.issued (h : s'.Follows i op r s) (op' : Op) :
    Issued op' s'.log ↔ op = op' ∨ Issued op' s.log := by
  rw [h]
  simp only [Issued, List.mem_cons, exists_eq_or_imp]

/-- The operation has succeeded at some point. -/
def Succeeded (op : Op) (log : List Event) : Prop := ∃ e ∈ log, e.op = op ∧ e.ok = true

instance (op : Op) (log : List Event) : Decidable (Succeeded op log) :=
  inferInstanceAs (Decidable (∃ e ∈ log, e.op = op ∧ e.ok = true))

theorem State.Follows.succeeded (h : s'.Follows i op r s) (op' : Op) :
    Succeeded op' s'.log ↔ (op = op' ∧ r.isOk = true) ∨ Succeeded op' s.log := by
  rw [h]
  simp only [Succeeded, List.mem_cons, exists_eq_or_imp]
  rfl

theorem State.Follows.succeeded_of_ne (h : s'.Follows i op r s) {op' : Op} (hne : op ≠ op') :
    Succeeded op' s'.log ↔ Succeeded op' s.log := by
  rw [h.succeeded op']
  exact or_iff_right fun hop => hne hop.1

/-- What has succeeded in a past state has succeeded by now. -/
theorem Succeeded.of_history {v : State} (hv : v ∈ s.history) (h : Succeeded op v.log) :
    Succeeded op s.log := by
  obtain ⟨w, log⟩ := s
  induction log generalizing w with
  | nil =>
    obtain rfl := List.mem_singleton.mp hv
    exact h
  | cons e log ih =>
    obtain rfl | hv := List.mem_cons.mp hv
    · exact h
    · obtain ⟨e', he', hop⟩ := ih e.before hv
      exact ⟨e', List.mem_cons_of_mem _ he', hop⟩

end Freeshard

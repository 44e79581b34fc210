import Freeshard.Coroutine.Pool

/-! # Protocols: what a coroutine may do next, given what it has done

A `Protocol` is an automaton over the operations of one coroutine: in phase `l` it allows some
operations, and each performed operation leads to the next phase. `Prog.Conforms P p l Q`: started
in phase `l`, the coroutine `p` performs only allowed operations, whatever they answer, and ends in
`Q`. Conforming is a property of the coroutine alone: no operation of another coroutine matters.

If the shared state knows the phase of every coroutine (`Tracks`), conforming coroutines may be
interleaved in any way: every operation performed is allowed (`Reaches.allowed`), so an invariant
of the allowed operations is an invariant of all runs (`Reaches.invariant_allowed`).
-/

namespace Coroutine
set_option autoImplicit false

structure Protocol (Op : Type) (Ans : Op → Type) (ε L : Type) where
  allows : L → Op → Prop
  after : L → (op : Op) → Except ε (Ans op) → L

variable {Op : Type} {Ans : Op → Type} {ε α β L W ι : Type}

/-- From phase `l` on the coroutine performs only allowed operations, and it ends in `Q`. -/
def Prog.Conforms (P : Protocol Op Ans ε L) :
    Prog Op Ans ε α → L → (Except ε α → L → Prop) → Prop
  | .ret a, l, Q => Q (.ok a) l
  | .raise e, l, Q => Q (.error e) l
  | .await op next, l, Q => P.allows l op ∧ ∀ r, (next r).Conforms P (P.after l op r) Q

namespace Prog.Conforms

variable {P : Protocol Op Ans ε L} {l : L}

/-! ## Rules -/

theorem perform {op : Op} {Q : Except ε (Ans op) → L → Prop} (hop : P.allows l op)
    (h : ∀ r, Q r (P.after l op r)) : (Prog.perform op).Conforms P l Q := by
  refine ⟨hop, fun r => ?_⟩
  cases r with
  | ok a => exact h (.ok a)
  | error e => exact h (.error e)

theorem mono {p : Prog Op Ans ε α} {Q R : Except ε α → L → Prop} (h : p.Conforms P l Q)
    (himp : ∀ r l', Q r l' → R r l') : p.Conforms P l R := by
  induction p generalizing l with
  | ret a => exact himp _ _ h
  | raise e => exact himp _ _ h
  | await op next ih => exact ⟨h.1, fun r => ih r (h.2 r)⟩

theorem bind {p : Prog Op Ans ε α} {f : α → Prog Op Ans ε β} {R : Except ε α → L → Prop}
    {Q : Except ε β → L → Prop} (hp : p.Conforms P l R)
    (hf : ∀ a l', R (.ok a) l' → (f a).Conforms P l' Q)
    (he : ∀ e l', R (.error e) l' → Q (.error e) l') : (p >>= f).Conforms P l Q := by
  induction p generalizing l with
  | ret a => exact hf a l hp
  | raise e => exact he e l hp
  | await op next ih => exact ⟨hp.1, fun r => ih r (hp.2 r)⟩

theorem perform_bind {op : Op} {f : Ans op → Prog Op Ans ε β} {Q : Except ε β → L → Prop}
    (hop : P.allows l op) (hf : ∀ a, (f a).Conforms P (P.after l op (.ok a)) Q)
    (he : ∀ e, Q (.error e) (P.after l op (.error e))) : (Prog.perform op >>= f).Conforms P l Q := by
  refine ⟨hop, fun r => ?_⟩
  cases r with
  | ok a => exact hf a
  | error e => exact he e

theorem tryCatch {p : Prog Op Ans ε α} {handle : ε → Prog Op Ans ε α}
    {R Q : Except ε α → L → Prop} (hp : p.Conforms P l R)
    (hok : ∀ a l', R (.ok a) l' → Q (.ok a) l')
    (hh : ∀ e l', R (.error e) l' → (handle e).Conforms P l' Q) :
    (MonadExcept.tryCatch p handle).Conforms P l Q := by
  induction p generalizing l with
  | ret a => exact hok a l hp
  | raise e => exact hh e l hp
  | await op next ih => exact ⟨hp.1, fun r => ih r (hp.2 r)⟩

theorem tryFinally {p : Prog Op Ans ε α} {cleanup : Prog Op Ans ε Unit}
    {R Q : Except ε α → L → Prop} (hp : p.Conforms P l R)
    (hc : ∀ r l', R r l' → cleanup.Conforms P l' fun r' l'' => match r' with
      | .ok _ => Q r l''
      | .error e => Q (.error e) l'') : (p.tryFinally cleanup).Conforms P l Q := by
  induction p generalizing l with
  | ret a => exact bind (hc _ l hp) (fun _ _ h => h) fun _ _ h => h
  | raise e => exact bind (hc _ l hp) (fun _ _ h => h) fun _ _ h => h
  | await op next ih => exact ⟨hp.1, fun r => ih r (hp.2 r)⟩

/-- A set of phases in which all operations in use are allowed, and which they do not leave. -/
theorem of_uses {φ : Op → Prop} {I : L → Prop} {p : Prog Op Ans ε α} (hp : p.Uses φ)
    (hI : ∀ op, φ op → ∀ l, I l → P.allows l op ∧ ∀ r, I (P.after l op r)) (hl : I l) :
    p.Conforms P l fun _ => I := by
  induction p generalizing l with
  | ret a => exact hl
  | raise e => exact hl
  | await op next ih =>
    obtain ⟨hop, hnext⟩ := hI op hp.1 l hl
    exact ⟨hop, fun r => ih r (hp.2 r) (hnext r)⟩

/-- A conforming coroutine that runs alone performs only allowed operations and ends in its
postcondition. -/
theorem exec {act : W → (op : Op) → Except ε (Ans op) → W → Prop} {phase : W → L}
    (htracks : ∀ w op r w', act w op r w' → phase w' = P.after (phase w) op r) {I : W → Prop}
    (hI : ∀ w op r w', P.allows (phase w) op → I w → act w op r w' → I w')
    {p : Prog Op Ans ε α} {Q : Except ε α → L → Prop} {w w' : W} {res : Except ε α}
    (h : p.Conforms P (phase w) Q) (hexec : p.Exec act w res w') (hw : I w) :
    I w' ∧ Q res (phase w') := by
  induction hexec with
  | ret a w => exact ⟨hw, h⟩
  | raise e w => exact ⟨hw, h⟩
  | @await op next r w w₁ w' res hs hr ih =>
    have hnext := h.2 r
    rw [← htracks _ _ _ _ hs] at hnext
    exact ih hnext (hI _ _ _ _ h.1 hw hs)

end Prog.Conforms

/-! ## Two protocols at once -/

section And
variable {L' : Type}

/-- What both protocols allow. -/
def Protocol.and (P : Protocol Op Ans ε L) (P' : Protocol Op Ans ε L') :
    Protocol Op Ans ε (L × L') where
  allows l op := P.allows l.1 op ∧ P'.allows l.2 op
  after l op r := (P.after l.1 op r, P'.after l.2 op r)

theorem Prog.Conforms.and {P : Protocol Op Ans ε L} {P' : Protocol Op Ans ε L'} {l : L} {l' : L'}
    {p : Prog Op Ans ε α} {Q : Except ε α → L → Prop} {Q' : Except ε α → L' → Prop}
    (h : p.Conforms P l Q) (h' : p.Conforms P' l' Q') :
    p.Conforms (P.and P') (l, l') fun r m => Q r m.1 ∧ Q' r m.2 := by
  induction p generalizing l l' with
  | ret a => exact ⟨h, h'⟩
  | raise e => exact ⟨h, h'⟩
  | await op next ih => exact ⟨⟨h.1, h'.1⟩, fun r => ih r (h.2 r) (h'.2 r)⟩

end And

/-! ## Interleaving -/

/-- The state knows in which phase each coroutine is. -/
structure Protocol.Tracks (P : ι → Protocol Op Ans ε L)
    (act : ι → W → (op : Op) → Except ε (Ans op) → W → Prop) (phase : ι → W → L) : Prop where
  own : ∀ {i w op r w'}, act i w op r w' → phase i w' = (P i).after (phase i w) op r
  other : ∀ {i j w op r w'}, act j w op r w' → i ≠ j → phase i w' = phase i w

theorem Protocol.Tracks.and {L' : Type} {P : ι → Protocol Op Ans ε L}
    {P' : ι → Protocol Op Ans ε L'} {act : ι → W → (op : Op) → Except ε (Ans op) → W → Prop}
    {phase : ι → W → L} {phase' : ι → W → L'} (h : Protocol.Tracks P act phase)
    (h' : Protocol.Tracks P' act phase') :
    Protocol.Tracks (fun i => (P i).and (P' i)) act fun i w => (phase i w, phase' i w) where
  own ha := Prod.ext (h.own ha) (h'.own ha)
  other ha hij := Prod.ext (h.other ha hij) (h'.other ha hij)

section Soundness
variable [DecidableEq ι] {P : ι → Protocol Op Ans ε L}
  {act : ι → W → (op : Op) → Except ε (Ans op) → W → Prop} {phase : ι → W → L}
  {start : ι → Prog Op Ans ε Unit → Prop} {l₀ : ι → L} {Q : ι → Except ε Unit → L → Prop}

variable (P phase start l₀ Q) in
/-- A coroutine conforms from the phase it is in, and its name is one that may be started; a name
not in use is in its first phase. -/
def ConformsFrom (i : ι) : Option (Prog Op Ans ε Unit) → W → Prop
  | none, w => phase i w = l₀ i
  | some p, w => (∃ p₀, start i p₀) ∧ p.Conforms (P i) (phase i w) (Q i)

variable (P phase start l₀ Q) in
def Conforming (c : Config Op Ans ε W ι) : Prop :=
  ∀ i, ConformsFrom P phase start l₀ Q i (c.pool i) c.state

omit [DecidableEq ι] in
theorem Conforming.idle {w : W} (h : ∀ i, phase i w = l₀ i) :
    Conforming P phase start l₀ Q (Config.idle w) := h

theorem Conforming.step (ht : Protocol.Tracks P act phase)
    (hstart : ∀ i p, start i p → p.Conforms (P i) (l₀ i) (Q i)) {c c' : Config Op Ans ε W ι}
    (hs : Step act start c c') (hc : Conforming P phase start l₀ Q c) :
    Conforming P phase start l₀ Q c' := by
  intro j
  cases hs with
  | @start i p hi hp =>
    by_cases hj : j = i
    · subst hj
      have hphase := hc j
      rw [hi] at hphase
      rw [Config.setProg_pool_self]
      refine ⟨⟨p, hp⟩, ?_⟩
      rw [Config.setProg_state, hphase]
      exact hstart j p hp
    · rw [Config.setProg_pool_ne _ _ hj]
      exact hc j
  | @fires _ i op r hf =>
    obtain ⟨next, w', hp, ha, rfl⟩ := hf
    by_cases hj : j = i
    · subst hj
      have hconf := hc j
      rw [hp] at hconf
      rw [Config.setProg_pool_self]
      refine ⟨hconf.1, ?_⟩
      rw [Config.setProg_state, ht.own ha]
      exact hconf.2.2 r
    · have hconf := hc j
      rw [Config.setProg_pool_ne _ _ hj]
      cases hpool : c.pool j with
      | none =>
        rw [hpool] at hconf
        exact (ht.other ha hj).trans hconf
      | some p =>
        rw [hpool] at hconf
        refine ⟨hconf.1, ?_⟩
        rw [Config.setProg_state, ht.other ha hj]
        exact hconf.2

theorem Reaches.conforming (ht : Protocol.Tracks P act phase)
    (hstart : ∀ i p, start i p → p.Conforms (P i) (l₀ i) (Q i)) {c c' : Config Op Ans ε W ι}
    (h : Reaches act start c c') (hc : Conforming P phase start l₀ Q c) :
    Conforming P phase start l₀ Q c' := by
  induction h with
  | refl => exact hc
  | tail _ hs ih => exact ih.step ht hstart hs

/-- Every operation performed in a run is one that its coroutine's protocol allows. -/
theorem Reaches.allowed (ht : Protocol.Tracks P act phase)
    (hstart : ∀ i p, start i p → p.Conforms (P i) (l₀ i) (Q i)) {c c' c'' : Config Op Ans ε W ι}
    (h : Reaches act start c c') (hc : Conforming P phase start l₀ Q c) {i : ι} {op : Op}
    {r : Except ε (Ans op)} (hf : Fires act c' i op r c'') :
    (∃ p, start i p) ∧ (P i).allows (phase i c'.state) op := by
  obtain ⟨next, w', hp, ha, rfl⟩ := hf
  have hi := h.conforming ht hstart hc i
  rw [hp] at hi
  exact ⟨hi.1, hi.2.1⟩

/-- An invariant of the allowed operations is an invariant of every run. -/
theorem Reaches.invariant_allowed (ht : Protocol.Tracks P act phase)
    (hstart : ∀ i p, start i p → p.Conforms (P i) (l₀ i) (Q i)) {I : W → Prop}
    (hI : ∀ i w op r w', (∃ p, start i p) → (P i).allows (phase i w) op → I w →
      act i w op r w' → I w')
    {c c' : Config Op Ans ε W ι} (h : Reaches act start c c') (hc : Conforming P phase start l₀ Q c)
    (hw : I c.state) : I c'.state := by
  induction h with
  | refl => exact hw
  | tail h hs ih =>
    cases hs with
    | start _ _ => exact ih
    | fires hf =>
      obtain ⟨hstarted, hallowed⟩ := Reaches.allowed ht hstart h hc hf
      exact hI _ _ _ _ _ hstarted hallowed ih hf.acts

/-- A coroutine that has ended has ended in its postcondition. -/
theorem Reaches.conforming_finished (ht : Protocol.Tracks P act phase)
    (hstart : ∀ i p, start i p → p.Conforms (P i) (l₀ i) (Q i)) {c c' : Config Op Ans ε W ι}
    (h : Reaches act start c c') (hc : Conforming P phase start l₀ Q c) {i : ι}
    (hi : ∀ op next, c'.pool i ≠ some (.await op next)) :
    phase i c'.state = l₀ i ∨ ∃ r, Q i r (phase i c'.state) := by
  have hconf := h.conforming ht hstart hc i
  cases hp : c'.pool i with
  | none =>
    rw [hp] at hconf
    exact .inl hconf
  | some p =>
    rw [hp] at hconf
    cases p with
    | ret a => exact .inr ⟨_, hconf.2⟩
    | raise e => exact .inr ⟨_, hconf.2⟩
    | await op next => exact absurd hp (hi op next)

theorem Reaches.conforming_ended (ht : Protocol.Tracks P act phase)
    (hstart : ∀ i p, start i p → p.Conforms (P i) (l₀ i) (Q i)) {c c' : Config Op Ans ε W ι}
    (h : Reaches act start c c') (hc : Conforming P phase start l₀ Q c) (hq : c'.Quiescent) (i : ι) :
    phase i c'.state = l₀ i ∨ ∃ r, Q i r (phase i c'.state) :=
  h.conforming_finished ht hstart hc (hq i)

end Soundness
end Coroutine

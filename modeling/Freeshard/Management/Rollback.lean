import Freeshard.Management.SharedSecret

/-! # No way back to a replaced secret

A refresh stores what it has fetched before, so of two refreshes that overlap the later one may be undone by the earlier
one. If they do not overlap, what is stored only ever gets newer, and with it what is accepted. -/

namespace Freeshard.Management
open Coroutine
set_option autoImplicit false

/-! ## Older and newer secrets -/

/-- Of secrets listed from the newest on. -/
def NotOlder (secrets : List SharedSecret) (value other : SharedSecret) : Prop :=
  secrets.idxOf value ≤ secrets.idxOf other

theorem notOlder_of_head {secrets : List SharedSecret} {value : SharedSecret} (h : secrets.head? = some value)
    (other : SharedSecret) : NotOlder secrets value other := by
  cases secrets with
  | nil => cases h
  | cons newest secrets =>
    obtain rfl : newest = value := Option.some.inj h
    rw [NotOlder, List.idxOf_cons_self]
    exact Nat.zero_le _

/-- A newer one makes no difference. -/
theorem NotOlder.cons {secrets : List SharedSecret} {value other new : SharedSecret} (h : NotOlder secrets value other)
    (hnew : new ∉ secrets) (hvalue : value ∈ secrets) (hother : other ∈ secrets) :
    NotOlder (new :: secrets) value other := by
  have hne : new ≠ value := fun he => hnew (he ▸ hvalue)
  have hne' : new ≠ other := fun he => hnew (he ▸ hother)
  rw [NotOlder, List.idxOf_cons, List.idxOf_cons, beq_eq_false_iff_ne.mpr hne, beq_eq_false_iff_ne.mpr hne']
  exact Nat.succ_le_succ h

/-! ## Refreshes and accepted secrets -/

/-- The call that has fetched the secret and not stored it yet. -/
def inFlight : Log → Option Call
  | [] => none
  | ⟨i, .callController, .ok _, _⟩ :: _ => some i
  | ⟨_, .setValue _, _, _⟩ :: _ => none
  | _ :: log => inFlight log

/-- A refresh begins when no other one is in flight. -/
def oneRefresh : Condition Op Ans Exn World Call := fun s _ op =>
  match op with
  | .callController => inFlight s.log = none
  | _ => True

instance (s : State) (i : Call) (op : Op) : Decidable (oneRefresh s i op) := by
  unfold oneRefresh
  split <;> infer_instance

/-- The secret that an operation completes the acceptance of. -/
def acceptedBy : Entry Op Ans Exn World Call → Option SharedSecret
  | ⟨.authenticate _ (some secret), .getValue, .ok value, _⟩ => if value = some secret then some value else none
  | ⟨.authenticate _ (some secret), .setValue value, .ok _, _⟩ => if value = some secret then some value else none
  | _ => none

/-- The secrets that have been accepted, latest first. -/
def accepted (log : Log) : List SharedSecret := log.filterMap acceptedBy

theorem accepted_cons (e : Entry Op Ans Exn World Call) (log : Log) :
    accepted (e :: log) = (acceptedBy e).toList ++ accepted log := by
  rw [accepted, List.filterMap_cons]
  cases acceptedBy e <;> rfl

variable {C : Condition Op Ans Exn World Call} {w w' : World} {s : State} {i : Call} {op : Op} {r : Answer op}

/-- Accepted is what has just been read from the store, or been stored. -/
theorem stored_of_acceptedBy {value : SharedSecret} (ha : Act i w op r w')
    (h : acceptedBy ⟨i, op, r, w⟩ = some value) : w'.stored = some value := by
  have heffect := ha.effect
  cases i with
  | rotate id new => cases h
  | authenticate id authorization =>
    cases authorization with
    | none => cases h
    | some secret =>
      cases r with
      | error e => cases op <;> cases h
      | ok a =>
        cases op with
        | getValue =>
          obtain ⟨-, hvalue⟩ := Option.ite_none_right_eq_some.mp h
          rw [heffect.2, heffect.1, hvalue]
        | setValue new =>
          obtain ⟨-, hvalue⟩ := Option.ite_none_right_eq_some.mp h
          rw [show w' = { w with stored := some new } from heffect, ← hvalue]
        | callController | rotate new => cases h

/-- An accepted call is among the accepted ones. -/
theorem mem_accepted (id : ℕ) (secret : String) (log : Log)
    (h : (phaseOf (.authenticate id (some secret)) log).compared = some (some secret)) :
    some secret ∈ accepted log := by
  induction log with
  | nil => cases h
  | cons e log ih =>
    obtain ⟨caller, op, r, before⟩ := e
    rw [accepted_cons]
    by_cases hi : caller = .authenticate id (some secret)
    · subst hi
      rw [phaseOf, Recorded.phaseOf, if_pos rfl] at h
      cases r with
      | error e => cases op <;> cases h
      | ok a =>
        cases op with
        | getValue =>
          obtain rfl : a = some secret := Option.some.inj h
          refine List.mem_append_left _ ?_
          rw [acceptedBy, if_pos rfl]
          exact List.mem_singleton.mpr rfl
        | setValue value =>
          obtain rfl : value = some secret := Option.some.inj h
          refine List.mem_append_left _ ?_
          rw [acceptedBy, if_pos rfl]
          exact List.mem_singleton.mpr rfl
        | callController => cases h
        | rotate value => exact List.mem_append_right _ (ih h)
    · rw [phaseOf, Recorded.phaseOf, if_neg hi] at h
      exact List.mem_append_right _ (ih h)

/-! ## The invariant -/

structure Forward (s : State) : Prop where
  /-- What has been accepted, from the latest on. -/
  ordered : (accepted s.log).Pairwise (NotOlder s.world.secrets)
  known : ∀ value ∈ accepted s.log, value ∈ s.world.secrets
  stored : ∀ value, s.world.stored = some value → value ∈ s.world.secrets ∧
    ∀ other ∈ accepted s.log, NotOlder s.world.secrets value other
  flight : ∀ i value, phaseOf i s.log = .fetched value → inFlight s.log = some i ∧ value ∈ s.world.secrets ∧
    (∀ other ∈ accepted s.log, NotOlder s.world.secrets value other) ∧
    ∀ other, s.world.stored = some other → NotOlder s.world.secrets value other

theorem notOlder_refl (secrets : List SharedSecret) (value : SharedSecret) : NotOlder secrets value value :=
  Nat.le_refl _

/-- What is accepted by an operation is what is stored after it. -/
theorem Forward.accept (h : Forward s) (ha : Act i s.world op r w') (hsecrets : w'.secrets = s.world.secrets)
    (hstored : ∀ value, w'.stored = some value → value ∈ s.world.secrets ∧
      ∀ other ∈ accepted s.log, NotOlder s.world.secrets value other) :
    (accepted (s.next i op r w').log).Pairwise (NotOlder w'.secrets) ∧
    (∀ value ∈ accepted (s.next i op r w').log, value ∈ w'.secrets) ∧
    ∀ value, w'.stored = some value → value ∈ w'.secrets ∧
      ∀ other ∈ accepted (s.next i op r w').log, NotOlder w'.secrets value other := by
  rw [Recorded.next_log, accepted_cons, hsecrets]
  cases hnew : acceptedBy ⟨i, op, r, s.world⟩ with
  | none => exact ⟨h.ordered, h.known, hstored⟩
  | some new =>
    have hnewStored := stored_of_acceptedBy ha hnew
    obtain ⟨hmem, hnewest⟩ := hstored new hnewStored
    refine ⟨List.pairwise_cons.mpr ⟨hnewest, h.ordered⟩, ?_, fun value hvalue => ?_⟩
    · intro value hvalue
      obtain rfl | hvalue := List.mem_cons.mp hvalue
      · exact hmem
      · exact h.known value hvalue
    · obtain rfl : new = value := Option.some.inj (hnewStored.symm.trans hvalue)
      refine ⟨hmem, fun other hother => ?_⟩
      obtain rfl | hother := List.mem_cons.mp hother
      · exact notOlder_refl _ _
      · exact hnewest other hother

theorem Forward.rotate (h : Forward s) {value : SharedSecret} (hnew : value ∉ s.world.secrets) :
    Forward (s.next i (.rotate value) (.ok ()) { s.world with secrets := value :: s.world.secrets }) := by
  have hlog : accepted (s.next i (.rotate value) (.ok ())
      { s.world with secrets := value :: s.world.secrets }).log = accepted s.log := by
    rw [Recorded.next_log, accepted_cons]
    cases i with
    | rotate id other => rfl
    | authenticate id authorization => cases authorization <;> rfl
  constructor
  · rw [hlog]
    refine h.ordered.imp_of_mem fun {x y} hx hy hxy => ?_
    exact hxy.cons hnew (h.known x hx) (h.known y hy)
  · rw [hlog]
    exact fun x hx => List.mem_cons_of_mem _ (h.known x hx)
  · intro x hx
    obtain ⟨hmem, hnewest⟩ := h.stored x hx
    rw [hlog]
    exact ⟨List.mem_cons_of_mem _ hmem, fun y hy => (hnewest y hy).cons hnew hmem (h.known y hy)⟩
  · intro j x hx
    have hphase : phaseOf j s.log = .fetched x := by
      by_cases hj : j = i
      · subst hj
        rw [phaseOf, Recorded.phaseOf_next_self] at hx
        exact hx
      · rw [phaseOf, Recorded.phaseOf_next_ne _ _ _ _ hj] at hx
        exact hx
    obtain ⟨hflight, hmem, hnewest, hstored⟩ := h.flight j x hphase
    rw [hlog]
    refine ⟨hflight, List.mem_cons_of_mem _ hmem, fun y hy => (hnewest y hy).cons hnew hmem (h.known y hy), ?_⟩
    exact fun y hy => (hstored y hy).cons hnew hmem (h.stored y hy).1

/-- Nobody else has a refresh in flight. -/
theorem Forward.unfetched (h : Forward s) (hflight : inFlight s.log = none ∨ inFlight s.log = some i) {j : Call}
    (hj : j ≠ i) (value : SharedSecret) : phaseOf j s.log ≠ .fetched value := by
  intro hphase
  have hother := (h.flight j value hphase).1
  obtain hnone | hsome := hflight
  · rw [hnone] at hother
    cases hother
  · rw [hsome] at hother
    exact hj (Option.some.inj hother).symm

/-- What a refresh stores is newer than all there was. -/
theorem Forward.set (h : Forward s) {value : SharedSecret} {r : Answer (.setValue value)}
    (hphase : phaseOf i s.log = .fetched value) (ha : Act i s.world (.setValue value) r w') :
    Forward (s.next i (.setValue value) r w') := by
  obtain ⟨hflight, hmem, hnewest, -⟩ := h.flight i value hphase
  have heffect := ha.effect
  have hworld : w'.secrets = s.world.secrets ∧ (w'.stored = s.world.stored ∨ w'.stored = some value) := by
    cases r with
    | ok _ =>
      rw [show w' = { s.world with stored := some value } from heffect]
      exact ⟨rfl, .inr rfl⟩
    | error e =>
      obtain hw | hw := heffect.2 <;> rw [hw]
      · exact ⟨rfl, .inl rfl⟩
      · exact ⟨rfl, .inr rfl⟩
  obtain ⟨haccepted, hknown, hstored⟩ := h.accept ha hworld.1 fun x hx => by
    obtain hsame | hnew := hworld.2
    · exact h.stored x (hsame.symm.trans hx)
    · obtain rfl : value = x := Option.some.inj (hnew.symm.trans hx)
      exact ⟨hmem, hnewest⟩
  refine ⟨haccepted, hknown, hstored, fun j x hx => ?_⟩
  by_cases hj : j = i
  · subst hj
    rw [phaseOf, Recorded.phaseOf_next_self] at hx
    cases r <;> cases hx
  · rw [phaseOf, Recorded.phaseOf_next_ne _ _ _ _ hj] at hx
    exact absurd hx (h.unfetched (.inr hflight) hj x)

/-- What is fetched is the newest there is. -/
theorem Forward.fetch (h : Forward s) {value : SharedSecret} (hnone : inFlight s.log = none)
    (hhead : s.world.secrets.head? = some value) : Forward (s.next i .callController (.ok value) s.world) := by
  have hlog : accepted (s.next i .callController (.ok value) s.world).log = accepted s.log := by
    rw [Recorded.next_log, accepted_cons]
    cases i with
    | rotate id other => rfl
    | authenticate id authorization => cases authorization <;> rfl
  refine ⟨?_, ?_, ?_, fun j x hx => ?_⟩
  · rw [hlog]
    exact h.ordered
  · rw [hlog]
    exact h.known
  · rw [hlog]
    exact h.stored
  · by_cases hj : j = i
    · subst hj
      rw [phaseOf, Recorded.phaseOf_next_self] at hx
      obtain rfl : value = x := by cases hx; rfl
      exact ⟨rfl, List.mem_of_mem_head? hhead, fun y _ => notOlder_of_head hhead y, fun y _ => notOlder_of_head hhead y⟩
    · rw [phaseOf, Recorded.phaseOf_next_ne _ _ _ _ hj] at hx
      exact absurd hx (h.unfetched (.inl hnone) hj x)

/-- An operation that leaves the world and any refresh as they are. -/
theorem Forward.keep (h : Forward s) (ha : Act i s.world op r s.world)
    (hflight : inFlight (s.next i op r s.world).log = inFlight s.log)
    (hphase : ∀ value, secretProtocol.after (phaseOf i s.log) op r ≠ .fetched value) :
    Forward (s.next i op r s.world) := by
  obtain ⟨haccepted, hknown, hstored⟩ := h.accept ha rfl h.stored
  refine ⟨haccepted, hknown, hstored, fun j x hx => ?_⟩
  by_cases hj : j = i
  · subst hj
    rw [phaseOf, Recorded.phaseOf_next_self] at hx
    exact absurd hx (hphase x)
  · rw [phaseOf, Recorded.phaseOf_next_ne _ _ _ _ hj] at hx
    obtain ⟨hown, hmem, hnewest, hnewer⟩ := h.flight j x hx
    refine ⟨hflight.trans hown, hmem, fun other hother => ?_, hnewer⟩
    rw [Recorded.next_log, accepted_cons] at hother
    obtain hnew | hold := List.mem_append.mp hother
    · exact hnewer other (stored_of_acceptedBy ha (by simpa using hnew))
    · exact hnewest other hold

/-- The step lemma. -/
theorem Forward.step (h : Forward s) (hallowed : secretProtocol.allows (phaseOf i s.log) op)
    (hC : oneRefresh s i op) (ha : Act i s.world op r w') : Forward (s.next i op r w') := by
  have heffect := ha.effect
  cases op with
  | setValue value => exact h.set hallowed ha
  | getValue =>
    cases r with
    | ok value =>
      obtain rfl := heffect.2
      exact h.keep ha rfl fun _ he => by cases he
    | error e =>
      obtain rfl := heffect.2
      exact h.keep ha rfl fun _ he => by cases he
  | callController =>
    cases r with
    | ok value =>
      obtain ⟨hhead, rfl⟩ := heffect
      exact h.fetch hC hhead
    | error e =>
      obtain rfl := heffect.2
      exact h.keep ha rfl fun _ he => by cases he
  | rotate value =>
    cases r with
    | ok _ =>
      obtain ⟨hnew, rfl⟩ := heffect
      exact h.rotate hnew
    | error e =>
      obtain rfl := heffect.2
      exact h.keep ha rfl fun _ he => by cases he

/-! ## Main result -/

/-- If no two refreshes overlap, every accepted call is on record, and none is accepted with an older secret than one
before it: a secret that the controller has replaced is not accepted again once a newer one has been. -/
theorem no_rollback {c : Config Op Ans Exn State Call} (hw : ∀ value, w.stored = some value → value ∈ w.secrets)
    (h : Runs oneRefresh w c) :
    (∀ id secret, c.outcome (.authenticate id (some secret)) = some (.ok ()) →
      some secret ∈ accepted c.state.log) ∧
    (accepted c.state.log).Pairwise (NotOlder c.state.world.secrets) := by
  have h₀ : Forward (⟨w, []⟩ : State) := {
    ordered := .nil
    known := fun _ hvalue => absurd hvalue List.not_mem_nil
    stored := fun value hvalue => ⟨hw value hvalue, fun _ hother => absurd hother List.not_mem_nil⟩
    flight := fun i value hphase => by cases hphase }
  have hinv : Forward c.state := by
    refine Recorded.TaskRuns.invariant (I := Forward) conforms_create h₀ ?_ h
    exact fun i s op r w' hallowed hs hC ha => hs.step hallowed hC ha
  refine ⟨fun id secret hr => ?_, hinv.ordered⟩
  obtain ⟨_, ⟨⟩, -, hcompared⟩ := h.post conforms_create hr
  exact mem_accepted id secret c.state.log hcompared

/-- Two secrets, each of them accepted while it is the controller's. -/
theorem no_rollback_run : ∃ c, Runs oneRefresh ⟨none, [some "old secret"]⟩ c ∧
    accepted c.state.log = [some "new secret", some "old secret"] ∧
    (accepted c.state.log).Pairwise (NotOlder c.state.world.secrets) := by
  obtain ⟨c, hrun, hc⟩ := exists_run oneRefresh ⟨none, [some "old secret"]⟩
    (Turn.call (Call.authenticate 0 (some "old secret")) [Choice.proceed, .proceed, .proceed] ++
      Turn.call (Call.rotate 0 (some "new secret")) [Choice.proceed] ++
      Turn.call (Call.authenticate 1 (some "new secret")) [Choice.proceed, .proceed, .proceed])
    (fun c => accepted c.state.log == [some "new secret", some "old secret"]) (by decide +kernel)
  exact ⟨c, hrun, by simpa using hc, (no_rollback (fun value h => by cases h) hrun).2⟩

end Freeshard.Management

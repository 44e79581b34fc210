import Freeshard.Service.FreeshardController

/-! # Calls of the controller

A call is accepted only with a secret that the controller has had, and refused only if the controller, asked during the
call, has another one. As long as no two refreshes overlap, the accepted secrets never go back to one that the controller
had already replaced. -/

namespace Freeshard.Management
open Coroutine
set_option autoImplicit false

/-! ## What a call knows -/

inductive Phase where
  | idle
  /-- It has read this secret from the store. -/
  | stored (value : SharedSecret)
  /-- It has this secret from the controller. -/
  | fetched (value : SharedSecret)
  /-- It has stored this secret. -/
  | refreshed (value : SharedSecret)
  | failed (e : Exn)

def secretProtocol : Protocol Op Ans Exn Phase where
  allows l op :=
    match op with
    | .setValue value => l = .fetched value
    | _ => True
  after l op r :=
    match op, r with
    | _, .error e => .failed e
    | .getValue, .ok value => .stored value
    | .callController, .ok value => .fetched value
    | .setValue value, .ok _ => .refreshed value
    | .rotate _, .ok _ => l

/-- The last secret that the call has read or stored. -/
def Phase.compared : Phase → Option SharedSecret
  | .stored value => some value
  | .refreshed value => some value
  | _ => none

/-- What a validation ends in. It has an exception of its own only if it has refreshed the secret to another one. -/
def Validated (secret : String) (r : Except Exn Unit) (l : Phase) : Prop :=
  match r with
  | .ok _ => 8 ≤ secret.length ∧ l.compared = some (some secret)
  | .error .sharedSecretInvalid => secret.length < 8 ∨ (∃ value, value ≠ some secret ∧ l = .refreshed value) ∨
      l = .failed .sharedSecretInvalid
  | .error e => l = .failed e

theorem conforms_refreshSharedSecret (l : Phase) : refreshSharedSecret.Conforms secretProtocol l fun r l' =>
    match r with
    | .ok value => l' = .refreshed value
    | .error e => l' = .failed e := by
  refine Prog.Conforms.perform_bind trivial (fun value => ?_) fun e => rfl
  exact Prog.Conforms.perform_bind rfl (fun _ => rfl) fun e => rfl

theorem conforms_storedSecret (l : Phase) : storedSecret.Conforms secretProtocol l fun r l' =>
    match r with
    | .ok (some value) => l' = .stored value
    | .ok none => True
    | .error e => l' = .failed e := by
  refine Prog.Conforms.tryCatch (R := fun r l' => match r with
    | .ok (some value) => l' = .stored value
    | .ok none => True
    | .error e => l' = .failed e) ?_ (fun value l' hl => hl) fun e l' hl => ?_
  · exact Prog.Conforms.perform_bind trivial (fun value => rfl) fun e => rfl
  · cases e with
    | keyError key => trivial
    | _ => exact hl

/-- After a refresh the secret is compared with what it has stored. -/
theorem conforms_refreshed (secret : String) (hlength : 8 ≤ secret.length) (l : Phase) :
    (refreshSharedSecret >>= fun expected => if some secret ≠ expected then throw .sharedSecretInvalid
      else (return () : Coro Unit)).Conforms secretProtocol l (Validated secret) := by
  refine (conforms_refreshSharedSecret l).bind (fun expected l' hl => ?_) fun e l' hl => ?_
  · obtain rfl : l' = .refreshed expected := hl
    split
    · next hne => exact .inr (.inl ⟨expected, Ne.symm hne, rfl⟩)
    · next heq => exact ⟨hlength, congrArg some (not_not.mp heq).symm⟩
  · obtain rfl : l' = .failed e := hl
    cases e with
    | sharedSecretInvalid => exact .inr (.inr rfl)
    | _ => rfl

theorem conforms_validateSharedSecret (secret : String) :
    (validateSharedSecret secret).Conforms secretProtocol .idle (Validated secret) := by
  unfold validateSharedSecret
  split
  · next hshort => exact .inl hshort
  · next hlong =>
    have hlength : 8 ≤ secret.length := Nat.not_lt.mp hlong
    refine (conforms_storedSecret .idle).bind (fun found l hl => ?_) fun e l hl => ?_
    · cases found with
      | none => exact conforms_refreshed secret hlength l
      | some expected =>
        obtain rfl : l = .stored expected := hl
        dsimp only
        split
        · exact conforms_refreshed secret hlength _
        · next heq => exact ⟨hlength, congrArg some (not_not.mp heq).symm⟩
    · obtain rfl : l = .failed e := hl
      cases e with
      | sharedSecretInvalid => exact .inr (.inr rfl)
      | _ => rfl

/-- What a call ends in. -/
def Ending (i : Call) (r : Except Exn Unit) (l : Phase) : Prop :=
  match i, r with
  | .authenticate _ authorization, .ok _ =>
    ∃ secret, authorization = some secret ∧ 8 ≤ secret.length ∧ l.compared = some (some secret)
  | .authenticate _ authorization, .error .unauthorized => ∀ secret, authorization = some secret → 8 ≤ secret.length →
      (∃ value, value ≠ some secret ∧ l = .refreshed value) ∨ ∃ e : Exn, e.foreign = false ∧ l = .failed e
  | _, _ => True

theorem conforms_create (c : Config Op Ans Exn State Call) (i : Call) (p : Prog Op Ans Exn Unit)
    (hp : create c i = some p) : p.Conforms secretProtocol .idle (Ending i) := by
  cases hp
  cases i with
  | rotate id value => exact Prog.Conforms.perform trivial fun r => by cases r <;> trivial
  | authenticate id authorization =>
    change (authenticateManagement authorization).Conforms _ _ _
    unfold authenticateManagement
    split
    · rintro secret ⟨⟩
    · rintro secret ⟨⟩ hlength
      exact absurd hlength (by decide)
    · next secret hne =>
      refine Prog.Conforms.tryCatch (conforms_validateSharedSecret secret) (fun _ l hl => ⟨secret, rfl, hl⟩)
        fun e l hl => ?_
      cases e with
      | sharedSecretInvalid =>
        rintro _ ⟨⟩ hlength
        obtain hshort | hrefused | hfailed := hl
        · exact absurd hlength (Nat.not_le.mpr hshort)
        · exact .inl hrefused
        · exact .inr ⟨_, rfl, hfailed⟩
      | unauthorized =>
        rintro _ ⟨⟩ -
        exact .inr ⟨_, rfl, hl⟩
      | _ => trivial

/-! ## What the operations do -/

/-- What an operation leaves, whatever the environment chooses. -/
def Effect (w : World) (op : Op) (r : Answer op) (w' : World) : Prop :=
  match op, r with
  | .getValue, .ok value => w.stored = some value ∧ w' = w
  | .setValue value, .ok _ => w' = { w with stored := some value }
  | .setValue value, .error e => e.foreign = true ∧ (w' = w ∨ w' = { w with stored := some value })
  | .callController, .ok value => w.secrets.head? = some value ∧ w' = w
  | .rotate value, .ok _ => value ∉ w.secrets ∧ w' = { w with secrets := value :: w.secrets }
  | _, .error e => e.foreign = true ∧ w' = w

theorem Act.effect {i : Call} {w w' : World} {op : Op} {r : Answer op} (h : Act i w op r w') : Effect w op r w' := by
  obtain ⟨choice, h⟩ := h
  cases choice with
  | proceed =>
    cases op with
    | getValue =>
      simp only [World.exec, World.effect] at h
      split at h
      · next value hstored =>
        cases h
        exact ⟨hstored, rfl⟩
      · cases h
        exact ⟨rfl, rfl⟩
    | setValue value =>
      cases h
      rfl
    | callController =>
      obtain ⟨value, hvalue, hr⟩ := Option.map_eq_some_iff.mp h
      cases hr
      exact ⟨hvalue, rfl⟩
    | rotate value =>
      simp only [World.exec, World.effect] at h
      split at h
      · cases h
      · next hnew =>
        cases h
        exact ⟨hnew, rfl⟩
  | raise e =>
    cases op with
    | rotate value => cases h
    | _ =>
      simp only [World.exec] at h
      split at h
      · next hforeign =>
        cases h
        first | exact ⟨hforeign, rfl⟩ | exact ⟨hforeign, .inl rfl⟩
      · cases h
  | proceedRaise e =>
    cases op with
    | setValue value =>
      simp only [World.exec] at h
      split at h
      · next hforeign =>
        cases h
        exact ⟨hforeign, .inr rfl⟩
      · cases h
    | _ => cases h

/-! ## Accepted and refused calls -/

abbrev phaseOf (i : Call) (log : Log) : Phase := Recorded.phaseOf (fun _ => secretProtocol) (fun _ => .idle) i log

variable {C : Condition Op Ans Exn World Call} {w w' : World} {s : State} {i : Call} {op : Op} {r : Answer op}

/-- The call was told this secret by the controller, when that had it. -/
def ToldBy (i : Call) (log : Log) (value : SharedSecret) : Prop :=
  ∃ before, before.secrets.head? = some value ∧ ⟨i, .callController, .ok value, before⟩ ∈ log

theorem ToldBy.cons {log : Log} {value : SharedSecret} (h : ToldBy i log value) (e : Entry Op Ans Exn World Call) :
    ToldBy i (e :: log) value := by
  obtain ⟨before, hhead, hmem⟩ := h
  exact ⟨before, hhead, List.mem_cons_of_mem _ hmem⟩

/-- What a call can have found out. -/
def Founded (i : Call) (s : State) : Phase → Prop
  | .idle => True
  | .stored value => value ∈ s.world.secrets
  | .fetched value => value ∈ s.world.secrets ∧ ToldBy i s.log value
  | .refreshed value => value ∈ s.world.secrets ∧ ToldBy i s.log value
  | .failed e => e.foreign = true

structure Sound (s : State) : Prop where
  stored : ∀ value, s.world.stored = some value → value ∈ s.world.secrets
  founded : ∀ i, Founded i s (phaseOf i s.log)

theorem Act.secrets_subset (h : Act i w op r w') : w.secrets ⊆ w'.secrets := by
  have heffect := h.effect
  cases op with
  | getValue =>
    cases r with
    | ok value => rw [heffect.2]; exact List.Subset.refl _
    | error e => rw [heffect.2]; exact List.Subset.refl _
  | setValue value =>
    cases r with
    | ok _ =>
      rw [show w' = { w with stored := some value } from heffect]
      exact List.Subset.refl _
    | error e =>
      obtain hw | hw := heffect.2 <;> rw [hw] <;> exact List.Subset.refl _
  | callController =>
    cases r with
    | ok value => rw [heffect.2]; exact List.Subset.refl _
    | error e => rw [heffect.2]; exact List.Subset.refl _
  | rotate value =>
    cases r with
    | ok _ =>
      rw [heffect.2]
      exact List.subset_cons_self _ _
    | error e => rw [heffect.2]; exact List.Subset.refl _

theorem Founded.next {j : Call} {l : Phase} (h : Founded j s l) (ha : Act i s.world op r w') :
    Founded j (s.next i op r w') l := by
  cases l with
  | idle => trivial
  | stored value => exact ha.secrets_subset h
  | fetched value => exact ⟨ha.secrets_subset h.1, h.2.cons _⟩
  | refreshed value => exact ⟨ha.secrets_subset h.1, h.2.cons _⟩
  | failed e => exact h

/-- The step lemma. -/
theorem Sound.step (h : Sound s) (hallowed : secretProtocol.allows (phaseOf i s.log) op)
    (ha : Act i s.world op r w') : Sound (s.next i op r w') := by
  have heffect := ha.effect
  constructor
  · intro value hvalue
    rw [Recorded.next_world] at hvalue ⊢
    have hold : s.world.stored = some value → value ∈ w'.secrets := fun hs => ha.secrets_subset (h.stored value hs)
    cases op with
    | getValue =>
      cases r with
      | ok _ => rw [heffect.2] at hvalue; exact hold hvalue
      | error e => rw [heffect.2] at hvalue; exact hold hvalue
    | setValue new =>
      have hnew : new ∈ w'.secrets := by
        have hfetched := h.founded i
        rw [show phaseOf i s.log = .fetched new from hallowed] at hfetched
        exact ha.secrets_subset hfetched.1
      cases r with
      | ok _ =>
        rw [show w' = { s.world with stored := some new } from heffect] at hvalue
        obtain rfl : new = value := Option.some.inj hvalue
        exact hnew
      | error e =>
        obtain hw | hw := heffect.2
        · rw [hw] at hvalue
          exact hold hvalue
        · rw [hw] at hvalue
          obtain rfl : new = value := Option.some.inj hvalue
          exact hnew
    | callController =>
      cases r with
      | ok _ => rw [heffect.2] at hvalue; exact hold hvalue
      | error e => rw [heffect.2] at hvalue; exact hold hvalue
    | rotate new =>
      cases r with
      | ok _ => rw [heffect.2] at hvalue; exact hold hvalue
      | error e => rw [heffect.2] at hvalue; exact hold hvalue
  · intro j
    by_cases hj : j = i
    · subst hj
      rw [phaseOf, Recorded.phaseOf_next_self]
      cases r with
      | error e =>
        have hforeign : e.foreign = true := by cases op <;> exact heffect.1
        cases op <;> exact hforeign
      | ok a =>
        cases op with
        | getValue => exact ha.secrets_subset (h.stored a heffect.1)
        | callController =>
          exact ⟨ha.secrets_subset (List.mem_of_mem_head? heffect.1), s.world, heffect.1, List.mem_cons_self⟩
        | setValue value =>
          have hfetched := h.founded j
          rw [show phaseOf j s.log = .fetched value from hallowed] at hfetched
          exact hfetched.next (l := .fetched value) ha
        | rotate value => exact (h.founded j).next ha
    · rw [phaseOf, Recorded.phaseOf_next_ne _ _ _ _ hj]
      exact (h.founded j).next ha

theorem sound_of_run {c : Config Op Ans Exn State Call} (hw : ∀ value, w.stored = some value → value ∈ w.secrets)
    (h : Runs C w c) : Sound c.state := by
  refine Recorded.TaskRuns.invariant (I := Sound) conforms_create ⟨hw, fun i => trivial⟩ ?_ h
  exact fun i s op r w' hallowed hs _ ha => hs.step hallowed ha

/-- Whatever fails and however calls overlap: a call is accepted only with a secret of at least eight characters that the
controller has had; and it is refused with such a secret only if the controller, asked during the call, had another. -/
theorem management_authenticated {c : Config Op Ans Exn State Call}
    (hw : ∀ value, w.stored = some value → value ∈ w.secrets) (h : Runs C w c) (id : ℕ)
    (authorization : Option String) :
    (c.outcome (.authenticate id authorization) = some (.ok ()) → ∃ secret, authorization = some secret ∧
      8 ≤ secret.length ∧ some secret ∈ c.state.world.secrets) ∧
    (c.outcome (.authenticate id authorization) = some (.error .unauthorized) → ∀ secret, authorization = some secret →
      8 ≤ secret.length → ∃ value, value ≠ some secret ∧ ToldBy (.authenticate id authorization) c.state.log value) := by
  have hfounded := (sound_of_run hw h).founded (.authenticate id authorization)
  constructor
  · intro hr
    obtain ⟨secret, rfl, hlength, hcompared⟩ := h.post conforms_create hr
    refine ⟨secret, rfl, hlength, ?_⟩
    change (phaseOf _ _).compared = _ at hcompared
    cases hphase : phaseOf (.authenticate id (some secret)) c.state.log with
    | stored value =>
      rw [hphase] at hfounded hcompared
      obtain rfl : value = some secret := Option.some.inj hcompared
      exact hfounded
    | refreshed value =>
      rw [hphase] at hfounded hcompared
      obtain rfl : value = some secret := Option.some.inj hcompared
      exact hfounded.1
    | idle | fetched value | failed e =>
      rw [hphase] at hcompared
      cases hcompared
  · rintro hr secret rfl hlength
    obtain ⟨value, hne, hphase⟩ | ⟨e, hforeign, hphase⟩ := h.post conforms_create hr secret rfl hlength
    · rw [show phaseOf _ c.state.log = .refreshed value from hphase] at hfounded
      exact ⟨value, hne, hfounded.2⟩
    · rw [show phaseOf _ c.state.log = .failed e from hphase] at hfounded
      rw [show e.foreign = true from hfounded] at hforeign
      cases hforeign

/-- A secret is accepted, replaced by the controller, and refused after the new one has been accepted. -/
theorem management_authenticated_run : ∃ c, Runs Recorded.anyway ⟨none, [some "old secret"]⟩ c ∧
    (some "old secret" ∈ c.state.world.secrets) ∧
    ∃ value, value ≠ some "old secret" ∧ ToldBy (.authenticate 2 (some "old secret")) c.state.log value := by
  obtain ⟨c, hrun, hc⟩ := exists_run Recorded.anyway ⟨none, [some "old secret"]⟩
    (Turn.call (Call.authenticate 0 (some "old secret")) [Choice.proceed, .proceed, .proceed] ++
      Turn.call (Call.rotate 0 (some "new secret")) [Choice.proceed] ++
      Turn.call (Call.authenticate 1 (some "new secret")) [Choice.proceed, .proceed, .proceed] ++
      Turn.call (Call.authenticate 2 (some "old secret")) [Choice.proceed, .proceed, .proceed])
    (fun c => c.endedIn (.authenticate 0 (some "old secret")) (.ok ()) &&
      c.endedIn (.authenticate 2 (some "old secret")) (.error .unauthorized)) (by decide +kernel)
  have hstored : ∀ value, (⟨none, [some "old secret"]⟩ : World).stored = some value →
      value ∈ (⟨none, [some "old secret"]⟩ : World).secrets := fun value h => by cases h
  obtain ⟨haccepted, hrefused⟩ := Bool.and_eq_true_iff.mp hc
  have hok : c.outcome (.authenticate 0 (some "old secret")) = some (.ok ()) := Config.outcome_of_endedIn haccepted
  have herror : c.outcome (.authenticate 2 (some "old secret")) = some (.error .unauthorized) :=
    Config.outcome_of_endedIn hrefused
  obtain ⟨secret, hsecret, -, hmem⟩ := (management_authenticated hstored hrun 0 (some "old secret")).1 hok
  cases hsecret
  exact ⟨c, hrun, hmem, (management_authenticated hstored hrun 2 (some "old secret")).2 herror _ rfl (by decide)⟩

end Freeshard.Management

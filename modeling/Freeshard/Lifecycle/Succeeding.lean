import Freeshard.Lifecycle.Demand
import Freeshard.Service.ControlLoop
import Freeshard.Service.Specs

/-! # Operations whose commands succeed

Where every command succeeds, `docker_pause_app`, `docker_stop_app` and `start_app` return, and the row of the app is
all they change in the table and the directories. -/

namespace Freeshard
open Coroutine
set_option autoImplicit false

/-- Commands can be built and succeed; the containers that they leave are left open. Nothing else fails. -/
def Env.succeeding : Env := fun s _ op c =>
  match op with
  | .compose _ _ =>
    match c with
    | .docker (.ok _) _ => True
    | _ => False
  | .composePs name _ => c = .proceed ∧ (s.world.appCompose name).isOk = true
  | .throttle _ => c.raised = none
  | _ => c = .proceed

instance (s : State) (i : Call) (op : Op) (c : Choice) : Decidable (Env.succeeding s i op c) := by
  apply @Op.casesOn (fun op => Decidable (Env.succeeding s i op c)) op
  case compose =>
    intro name cmd
    unfold Env.succeeding
    refine Choice.casesOn c ?_ (fun e => ?_) (fun e => ?_) (fun exit K => ?_) (fun now => ?_) fun dir e => ?_
    case refine_4 => refine Except.casesOn exit (fun e => ?_) (fun u => ?_) <;> infer_instance
    all_goals infer_instance
  all_goals
    intros
    unfold Env.succeeding
    infer_instance

theorem Env.succeeding_le_reliable : succeeding ≤ reliable := by
  refine Env.le_reliable fun s i op c h hop => ?_
  cases op <;> first | exact h | simp [Op.internal, Op.ignoresErrors] at hop

/-- An operation of these functions for the app, which writes no status but this one. -/
def Op.Tends (name : String) (status : Status) : Op → Prop
  | .getByName other => other = name
  | .updateStatus other status' => other = name ∧ status' = status
  | .onAppsUpdate => True
  | .acquire _ => True
  | .release _ => True
  | .compose _ _ => True
  | .composePs _ _ => True
  | .inspect _ _ => True
  | .reclaimContainer _ => True
  | .throttle _ => True
  | _ => False

/-- Only a query for containers that are gone fails. -/
def Answers : (op : Op) → Answer op → Prop
  | .inspect _ _, r => ∀ e, r = .error e → ∃ text, e = .subprocessError text
  | _, r => r.isOk = true

variable {name : String} {status : Status} {i : Call} {s s' : State} {op : Op} {r : Answer op} {E : Env}

theorem Act.answers (ha : Act E i s op r s') (hE : E ≤ .succeeding) (hop : op.Tends name status)
    (hnotifiable : op = .onAppsUpdate → s.world.Notifiable) : Answers op r := by
  obtain ⟨c, hc, he⟩ := ha.inv
  replace hc := hE _ _ _ _ hc
  generalize s'.world = w' at he
  cases op with
  | getByName other | updateStatus other status' | reclaimContainer id =>
    obtain rfl : c = .proceed := hc
    cases he
    rfl
  | acquire other | release other =>
    obtain rfl : c = .proceed := hc
    simp only [World.exec, World.effect] at he
    split at he <;> cases he
    rfl
  | onAppsUpdate =>
    obtain rfl : c = .proceed := hc
    obtain ⟨message, hmessage⟩ := World.sendAppsUpdate_isOk.mpr (hnotifiable rfl)
    simp only [World.exec, World.effect, hmessage] at he
    cases he
    rfl
  | compose other cmd =>
    unfold Env.succeeding at hc
    dsimp only at hc
    split at hc
    · simp only [World.exec] at he
      split at he <;> cases he
      rfl
    · cases hc
  | composePs other all =>
    obtain ⟨rfl, hcompose⟩ := hc
    simp only [World.exec, World.effect] at he
    split at he
    · next hcc =>
      rw [hcc] at hcompose
      cases hcompose
    · cases he
      rfl
  | inspect other ids =>
    obtain rfl : c = .proceed := hc
    simp only [World.exec, World.effect] at he
    split at he <;> cases he
    · exact fun e he => by cases he
    · rintro e he
      cases he
      exact ⟨_, rfl⟩
  | throttle other =>
    cases c with
    | clock now =>
      simp only [World.exec] at he
      split at he <;> cases he <;> rfl
    | proceed | docker exit K => cases he
    | raise e | proceedRaise e | leaves dir e => cases hc
  | _ => cases hop

theorem Act.tends (ha : Act E i s op r s') (hE : E ≤ .succeeding) (hop : op.Tends name status) :
    s'.world.appDirs = s.world.appDirs ∧ ∀ other, s'.world.status other = s.world.status other ∨
      other = name ∧ s.world.status name ≠ none ∧ s'.world.status other = some status := by
  have hframe := ha.frame
  have hdir : op.appDir = none := by
    cases op <;> first | rfl | cases hop
  refine ⟨funext fun other => hframe.appDirs other fun h => ?_, fun other => ?_⟩
  · rw [hdir] at h
    cases h
  · by_cases hwrites : op.writesRow other = false
    · exact .inl (hframe.status other hwrites)
    · cases op with
      | updateStatus target status' =>
        obtain ⟨rfl, rfl⟩ := hop
        obtain rfl : target = other := eq_of_beq (Bool.not_eq_false _ ▸ hwrites)
        obtain ⟨-, hw⟩ := ha.updatedStatus (hE.trans Env.succeeding_le_reliable)
        rw [hw, World.setStatus_status_self]
        cases hst : s.world.status target with
        | none => exact .inl rfl
        | some old => exact .inr ⟨rfl, nofun, rfl⟩
      | _ => first | exact absurd rfl hwrites | cases hop

/-! ## What the functions await -/

section Uses

theorem tends_readStatus : (readStatus name).Uses (Op.Tends name status) :=
  Prog.Uses.bind ((Prog.uses_perform _).mpr rfl) fun _ => trivial

theorem tends_writeStatus : (writeStatus name status).Uses (Op.Tends name status) :=
  Prog.Uses.bind ((Prog.uses_perform _).mpr ⟨rfl, rfl⟩) fun _ => trivial

theorem tends_perform {op : Op} (h : op.Tends name status) : (awaitOp op).Uses (Op.Tends name status) :=
  (Prog.uses_perform _).mpr h

theorem tends_onlyIf {c : Prop} [Decidable c] {body : Coro Unit} (h : body.Uses (Op.Tends name status)) :
    (onlyIf c body).Uses (Op.Tends name status) := by
  unfold onlyIf
  split
  · exact h
  · trivial

theorem tends_exceptSubprocessError {α : Type} {body : Coro α} {handle : String → Coro α}
    (hbody : body.Uses (Op.Tends name status)) (hhandle : ∀ text, (handle text).Uses (Op.Tends name status)) :
    (exceptSubprocessError body handle).Uses (Op.Tends name status) :=
  hbody.tryCatch fun e => by cases e <;> first | exact hhandle _ | trivial

theorem tends_compose (cmd : ComposeCmd) : (compose name cmd).Uses (Op.Tends name status) := tends_perform trivial

theorem tends_composeUp : (composeUp name).Uses (Op.Tends name status) := by
  have hretry : (do
      compose name .down
      compose name .up : Coro Unit).Uses (Op.Tends name status) := (tends_compose .down).bind fun _ => tends_compose .up
  refine tends_exceptSubprocessError (tends_compose .up) fun text => ?_
  split
  · exact hretry
  · split
    · exact hretry
    · trivial

theorem tends_markRunning : (markRunning name).Uses (Op.Tends name .running) :=
  tends_writeStatus.bind fun _ => tends_perform trivial

theorem tends_revive (dbStatus : Option Status) : (revive name dbStatus).Uses (Op.Tends name .running) := by
  refine Prog.Uses.bind (tends_exceptSubprocessError ?_ fun _ => trivial) fun state => ?_
  · refine Prog.Uses.bind (tends_perform trivial) fun ids => ?_
    split
    · trivial
    · exact Prog.Uses.bind (tends_perform trivial) fun _ => trivial
  · cases state with
    | running => exact tends_onlyIf tends_markRunning
    | paused =>
      exact (tends_exceptSubprocessError (tends_compose .unpause) fun _ => tends_composeUp).bind fun _ =>
        tends_markRunning
    | exited | missing => exact tends_composeUp.bind fun _ => tends_markRunning

theorem tends_startApp : (startApp name).Uses (Op.Tends name .running) := by
  refine Prog.Uses.bind (tends_perform trivial) fun _ => tends_onlyIf (Prog.Uses.bind (tends_perform trivial) fun _ => ?_)
  have hbody : (do
      let dbStatus ← readStatus name
      onlyIf (dbStatus ∈ revivableStatus.map some) (revive name dbStatus) : Coro Unit).Uses (Op.Tends name .running) :=
    tends_readStatus.bind fun dbStatus => tends_onlyIf (tends_revive dbStatus)
  exact hbody.tryFinally (tends_perform trivial)

theorem tends_dockerPauseApp : (dockerPauseApp name).Uses (Op.Tends name .paused) := by
  refine tends_readStatus.bind fun _ => tends_onlyIf ((tends_compose .pause).bind fun _ => Prog.Uses.bind ?_ fun _ => ?_)
  · exact Prog.Uses.bind (tends_perform trivial) fun ids => Prog.Uses.forM fun _ => tends_perform trivial
  · exact tends_writeStatus.bind fun _ => tends_perform trivial

theorem tends_dockerStopApp : (dockerStopApp name true).Uses (Op.Tends name .stopped) := by
  refine tends_readStatus.bind fun _ => tends_onlyIf ((tends_onlyIf (tends_compose .unpause)).bind fun _ => ?_)
  refine (tends_compose .stop).bind fun _ => (tends_onlyIf tends_writeStatus).bind fun _ => tends_perform trivial

end Uses

/-! ## The functions return -/

section Returns

/-- Every operation answers as it does where commands succeed. -/
abbrev answering : Unit → (op : Op) → Answer op → Unit → Prop := fun _ op r _ => Answers op r

theorem returns_perform {op : Op} (hop : ∀ r : Answer op, Answers op r → r.isOk = true) :
    (awaitOp op).wp answering (fun r _ => r.isOk = true) () :=
  (Prog.wp_perform _ _ _).mpr fun r _ hr => hop r hr

theorem returns_bind {α β : Type} {p : Coro α} {f : α → Coro β}
    (hp : p.wp answering (fun r _ => r.isOk = true) ())
    (hf : ∀ a, (f a).wp answering (fun r _ => r.isOk = true) ()) :
    (p >>= f).wp answering (fun r _ => r.isOk = true) () :=
  Prog.wp_bind_of hp (fun a _ _ => hf a) fun _ _ h => by cases h

theorem returns_onlyIf {c : Prop} [Decidable c] {body : Coro Unit}
    (h : body.wp answering (fun r _ => r.isOk = true) ()) :
    (onlyIf c body).wp answering (fun r _ => r.isOk = true) () := by
  unfold onlyIf
  split
  · exact h
  · rfl

theorem returns_readStatus : (readStatus name).wp answering (fun r _ => r.isOk = true) () :=
  returns_bind (returns_perform fun _ hr => hr) fun _ => rfl

theorem returns_writeStatus : (writeStatus name status).wp answering (fun r _ => r.isOk = true) () :=
  returns_bind (returns_perform fun _ hr => hr) fun _ => rfl

theorem returns_markRunning : (markRunning name).wp answering (fun r _ => r.isOk = true) () :=
  returns_bind returns_writeStatus fun _ => returns_perform fun _ hr => hr

theorem returns_compose (cmd : ComposeCmd) : (compose name cmd).wp answering (fun r _ => r.isOk = true) () :=
  returns_perform fun _ hr => hr

theorem returns_exceptSubprocessError {α : Type} {body : Coro α} {handle : String → Coro α}
    (hbody : body.wp answering (fun r _ => ∀ e, r = .error e → ∃ text, e = .subprocessError text) ())
    (hhandle : ∀ text, (handle text).wp answering (fun r _ => r.isOk = true) ()) :
    (exceptSubprocessError body handle).wp answering (fun r _ => r.isOk = true) () := by
  refine Prog.wp_tryCatch_of hbody (fun _ _ _ => rfl) fun e _ he => ?_
  obtain ⟨text, rfl⟩ := he e rfl
  exact hhandle text

theorem returns_mono {α : Type} {p : Coro α} (h : p.wp answering (fun r _ => r.isOk = true) ()) :
    p.wp answering (fun r _ => ∀ e, r = .error e → ∃ text, e = .subprocessError text) () :=
  Prog.wp_mono h fun _ _ hr e he => by
    rw [he] at hr
    cases hr

theorem returns_composeUp : (composeUp name).wp answering (fun r _ => r.isOk = true) () := by
  have hretry : (do
      compose name .down
      compose name .up : Coro Unit).wp answering (fun r _ => r.isOk = true) () :=
    returns_bind (returns_compose .down) fun _ => returns_compose .up
  refine Prog.wp_tryCatch_of (returns_compose .up) (fun _ _ _ => rfl) fun e _ he => by cases he

theorem returns_getAppContainerState : (getAppContainerState name).wp answering (fun r _ => r.isOk = true) () := by
  refine returns_exceptSubprocessError ?_ fun _ => rfl
  refine Prog.wp_bind_of (returns_perform fun _ hr => hr) (fun ids _ _ => ?_) fun _ _ h => by cases h
  split
  · exact fun _ he => by cases he
  · refine Prog.wp_bind_of ((Prog.wp_perform _ _ _).mpr fun r _ hr => hr) (fun states _ _ => ?_) fun e _ he => ?_
    · exact fun _ he => by cases he
    · rintro _ ⟨⟩
      exact he e rfl

theorem returns_revive (dbStatus : Option Status) :
    (revive name dbStatus).wp answering (fun r _ => r.isOk = true) () := by
  refine returns_bind returns_getAppContainerState fun state => ?_
  cases state with
  | running => exact returns_onlyIf returns_markRunning
  | paused =>
    refine returns_bind (returns_exceptSubprocessError (returns_mono (returns_compose .unpause)) fun _ => ?_) fun _ => ?_
    · exact returns_composeUp
    · exact returns_markRunning
  | exited | missing => exact returns_bind returns_composeUp fun _ => returns_markRunning

theorem returns_startApp : (startApp name).wp answering (fun r _ => r.isOk = true) () := by
  refine returns_bind (returns_perform fun _ hr => hr) fun passes => returns_onlyIf ?_
  refine returns_bind (returns_perform fun _ hr => hr) fun _ => ?_
  have hbody : (do
      let dbStatus ← readStatus name
      onlyIf (dbStatus ∈ revivableStatus.map some) (revive name dbStatus) : Coro Unit).wp answering
        (fun r _ => r.isOk = true) () :=
    returns_bind returns_readStatus fun dbStatus => returns_onlyIf (returns_revive dbStatus)
  refine Prog.wp_tryFinally_of hbody fun r _ hr => ?_
  refine Prog.wp_mono (returns_perform fun _ hr => hr) fun r' _ hr' => ?_
  cases r' with
  | ok u => exact hr
  | error e => cases hr'

theorem returns_dockerPauseApp : (dockerPauseApp name).wp answering (fun r _ => r.isOk = true) () := by
  refine returns_bind returns_readStatus fun appStatus => returns_onlyIf ?_
  refine returns_bind (returns_compose .pause) fun _ => returns_bind ?_ fun _ => ?_
  · refine returns_bind (returns_perform fun _ hr => hr) fun ids => ?_
    induction ids with
    | nil => rfl
    | cons id ids ih => exact returns_bind (returns_perform fun _ hr => hr) fun _ => ih
  · exact returns_bind returns_writeStatus fun _ => returns_perform fun _ hr => hr

theorem returns_dockerStopApp : (dockerStopApp name true).wp answering (fun r _ => r.isOk = true) () := by
  refine returns_bind returns_readStatus fun appStatus => returns_onlyIf ?_
  refine returns_bind (returns_onlyIf (returns_compose .unpause)) fun _ => ?_
  refine returns_bind (returns_compose .stop) fun _ => ?_
  exact returns_bind (returns_onlyIf returns_writeStatus) fun _ => returns_perform fun _ hr => hr

end Returns

/-! ## What pausing and stopping do -/

section Effects

theorem wp_announced {p : Coro Unit} {T : String → Option Status}
    (hp : p.wp (Act E i) (fun r s' => r = .ok () ∧ s'.world.status = T) s) :
    (do
      p
      sendOnAppsUpdate : Coro Unit).wp (Act E i) (fun _ s' => s'.world.status = T) s := by
  refine Prog.wp_bind_of hp (fun _ s₁ h₁ => wp_sendOnAppsUpdate fun r => h₁.2) fun e _ h => by cases h.1

variable (hE : E ≤ .succeeding)
include hE

theorem wp_quiet (name : String) {op : Op} (hop : op.Tends name .paused) (hwrites : ∀ other, op.writesRow other = false)
    (hnot : op ≠ .onAppsUpdate) :
    (awaitOp op).wp (Act E i) (fun r s' => Answers op r ∧ s'.world.status = s.world.status) s :=
  (Prog.wp_perform _ _ _).mpr fun _ _ ha =>
    ⟨ha.answers hE hop fun h => absurd h hnot, funext fun other => ha.frame.status other (hwrites other)⟩

theorem wp_compose_quiet (cmd : ComposeCmd) :
    (compose name cmd).wp (Act E i) (fun r s' => r.isOk = true ∧ s'.world.status = s.world.status) s :=
  wp_quiet hE name trivial (fun _ => rfl) fun h => by cases h

theorem wp_reclaimComposeStack :
    (reclaimComposeStack name).wp (Act E i) (fun r s' => r.isOk = true ∧ s'.world.status = s.world.status) s := by
  refine Prog.wp_bind_of (wp_quiet hE name trivial (fun _ => rfl) fun h => by cases h) (fun ids s₁ h₁ => ?_)
    fun _ _ h => by cases h.1
  have hloop := @Prog.wp_forM _ _ _ _ _ (Act E i) (fun _ s' => s'.world.status = s.world.status)
    (fun id => awaitOp (.reclaimContainer id)) ids s₁ (fun id ids s' hs' => ?_) h₁.2
  · exact Prog.wp_mono hloop fun r s' h => ⟨by rw [h.1]; rfl, h.2⟩
  · refine Prog.wp_mono (wp_quiet hE name trivial (fun _ => rfl) fun h => by cases h) fun r s'' h => ?_
    cases r with
    | ok u => exact ⟨rfl, h.2.trans hs'⟩
    | error e => cases h.1

theorem wp_writeStatus_update (hrow : s.world.status name ≠ none) :
    (writeStatus name status).wp (Act E i)
      (fun r s' => r = .ok () ∧ s'.world.status = Function.update s.world.status name (some status)) s := by
  refine wp_writeStatus (hE.trans Env.succeeding_le_reliable) fun row => ⟨rfl, ?_⟩
  obtain ⟨old, hold⟩ := Option.ne_none_iff_exists'.mp hrow
  funext other
  by_cases hother : other = name
  · subst hother
    rw [Function.update_self]
    exact (s.world.setStatus_status_self other status).trans (by rw [hold]; rfl)
  · rw [Function.update_of_ne hother]
    exact s.world.setStatus_status_ne name status hother

theorem wp_dockerPauseApp_update :
    (dockerPauseApp name).wp (Act E i) (fun _ s' => s'.world.status =
      if s.world.status name = some .running then Function.update s.world.status name (some .paused)
      else s.world.status) s := by
  refine (Prog.wp_bind _ _ _ _).mpr (wp_readStatus (hE.trans Env.succeeding_le_reliable) ?_)
  by_cases hst : s.world.status name = some .running
  · dsimp only
    rw [onlyIf_pos hst, if_pos hst]
    refine Prog.wp_bind_of (wp_compose_quiet hE .pause) (fun _ s₁ h₁ => ?_) fun _ _ h => by cases h.1
    refine Prog.wp_bind_of (wp_reclaimComposeStack hE) (fun _ s₂ h₂ => ?_) fun _ _ h => by cases h.1
    have hsame : s₂.world.status = s.world.status := h₂.2.trans h₁.2
    have hrow : s₂.world.status name ≠ none := by
      rw [hsame, hst]
      exact Option.some_ne_none _
    rw [← hsame]
    exact wp_announced (wp_writeStatus_update hE hrow)
  · dsimp only
    rw [onlyIf_neg hst, if_neg hst]
    rfl

theorem wp_dockerStopApp_update :
    (dockerStopApp name true).wp (Act E i) (fun _ s' => s'.world.status =
      if s.world.status name ∈ stoppableStatus.map some then Function.update s.world.status name (some .stopped)
      else s.world.status) s := by
  refine (Prog.wp_bind _ _ _ _).mpr (wp_readStatus (hE.trans Env.succeeding_le_reliable) ?_)
  by_cases hst : s.world.status name ∈ stoppableStatus.map some
  · dsimp only
    rw [onlyIf_pos hst, if_pos hst]
    have hunpause : (onlyIf (s.world.status name = some .paused) (compose name .unpause)).wp (Act E i)
        (fun r s' => r.isOk = true ∧ s'.world.status = s.world.status) (s.looked i name) := by
      unfold onlyIf
      split
      · exact wp_compose_quiet hE .unpause
      · exact ⟨rfl, rfl⟩
    refine Prog.wp_bind_of hunpause (fun _ s₁ h₁ => ?_) fun _ _ h => by cases h.1
    refine Prog.wp_bind_of (wp_compose_quiet hE .stop) (fun _ s₂ h₂ => ?_) fun _ _ h => by cases h.1
    have hsame : s₂.world.status = s.world.status := h₂.2.trans h₁.2
    have hrow : s₂.world.status name ≠ none := by
      intro hnone
      rw [← hsame, hnone] at hst
      revert hst
      decide
    rw [onlyIf_pos rfl, ← hsame]
    exact wp_announced (wp_writeStatus_update hE hrow)
  · dsimp only
    rw [onlyIf_neg hst, if_neg hst]
    rfl

end Effects

end Freeshard

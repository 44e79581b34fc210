import Freeshard.Service.Specs

/-! # `docker_stop_app` on containers that have drifted

Which command comes first is decided by the stored status alone, and Docker refuses `stop` on a frozen
container and `unpause` on one that is not. -/

namespace Freeshard
open Coroutine
set_option autoImplicit false

/-! ## Docker's side -/

/-- `unpause` needs every container paused, `stop` none. -/
def ComposeCmd.accepted (cmd : ComposeCmd) (K : Stack) : Bool :=
  match cmd with
  | .unpause => K.states.all (· == .paused)
  | cmd => cmd.allowed K

/-- Docker carries out the commands it accepts and refuses the others without effect; nothing else fails. -/
def Env.exact : Env := fun s _ op c =>
  match op with
  | .compose name cmd =>
    match s.world.appCompose name, c with
    | .ok _, .docker (.ok _) K =>
      cmd.accepted (s.world.stack name) = true ∧ cmd.leaves (s.world.stack name) K = true
    | .ok _, .docker (.error _) K => cmd.accepted (s.world.stack name) = false ∧ K = s.world.stack name
    | .ok _, _ => False
    | .error _, c => c = .proceed
  | .throttle _ => c.raised = none
  | _ => c = .proceed

instance (s : State) (i : Call) (op : Op) (c : Choice) : Decidable (Env.exact s i op c) := by
  apply @Op.casesOn (fun op => Decidable (Env.exact s i op c)) op
  case compose =>
    intro name cmd
    unfold Env.exact
    dsimp only
    refine Except.casesOn (s.world.appCompose name) (fun e => ?_) fun cc => ?_
    · infer_instance
    · refine Choice.casesOn c ?_ (fun e => ?_) (fun e => ?_) (fun exit K => ?_) (fun now => ?_) fun dir e => ?_
      case refine_4 => refine Except.casesOn exit (fun e => ?_) (fun u => ?_) <;> infer_instance
      all_goals infer_instance
  all_goals
    intros
    unfold Env.exact
    infer_instance

theorem Env.exact_le_reliable : exact ≤ reliable := by
  refine Env.le_reliable fun s i op c h hop => ?_
  cases op <;> first | exact h | simp [Op.internal, Op.ignoresErrors] at hop

theorem Stack.frozen_mapState_running (K : Stack) : (K.mapState fun _ => .running).frozen = false := by
  rw [frozen, states_mapState, List.any_eq_false]
  intro state hmem
  obtain ⟨_, -, rfl⟩ := List.mem_map.mp hmem
  decide

theorem Stack.live_mapState_stopped {K : Stack} (h : K.frozen = false) :
    (K.mapState ComposeCmd.stopped).live = false := by
  rw [frozen, List.any_eq_false] at h
  rw [live, states_mapState, List.any_eq_false]
  intro state hmem
  obtain ⟨old, hold, rfl⟩ := List.mem_map.mp hmem
  have hpaused := h old hold
  revert hpaused
  cases old <;> decide

variable {i : Call} {s s' : State} {name : String} {status : Status}

/-- A command either fails and leaves everything as it is, which is when it cannot be built or Docker does not accept
it, or it has had its effect. -/
theorem Act.compose_exact {cmd : ComposeCmd} {r : Answer (.compose name cmd)}
    (h : Act .exact i s (.compose name cmd) r s') :
    (r.isOk = false ∧ s'.world = s.world ∧
      ((∃ cc, s.world.appCompose name = .ok cc) → cmd.accepted (s.world.stack name) = false)) ∨
    (r = .ok () ∧ cmd.accepted (s.world.stack name) = true ∧ ∃ K, cmd.leaves (s.world.stack name) K = true ∧
      s'.world = s.world.setStack (normalizeProjectName name) K) := by
  obtain ⟨c, hc, he⟩ := h.inv
  cases hcompose : s.world.appCompose name with
  | error e =>
    simp only [Env.exact, hcompose] at hc
    subst hc
    simp only [World.exec, World.effect, hcompose] at he
    obtain ⟨rfl, hw⟩ := Prod.mk.inj (Option.some.inj he)
    refine .inl ⟨rfl, hw.symm, ?_⟩
    rintro ⟨cc, hcc⟩
    cases hcc
  | ok cc =>
    simp only [Env.exact, hcompose] at hc
    cases c with
    | docker exit K =>
      simp only [World.exec, hcompose] at he
      obtain ⟨rfl, hw⟩ := Prod.mk.inj (Option.some.inj he)
      rw [World.appCompose_project hcompose] at hw
      cases exit with
      | error text =>
        obtain ⟨hrefused, rfl⟩ := hc
        refine .inl ⟨rfl, ?_, fun _ => hrefused⟩
        rw [← hw]
        unfold World.setStack World.stack
        rw [Function.update_eq_self]
      | ok u => exact .inr ⟨rfl, hc.1, K, hc.2, hw.symm⟩
    | _ => cases hc

theorem Act.composed_exact {cmd : ComposeCmd} {r : Answer (.compose name cmd)}
    (h : Act .exact i s (.compose name cmd) r s') (hcompose : ∃ cc, s.world.appCompose name = .ok cc)
    (haccepted : cmd.accepted (s.world.stack name) = true) :
    r = .ok () ∧ s'.world.status name = s.world.status name ∧
      cmd.leaves (s.world.stack name) (s'.world.stack name) = true ∧
      s'.world.appDirs name = s.world.appDirs name := by
  obtain ⟨-, -, hrefused⟩ | ⟨hr, -, K, hleaves, hw⟩ := h.compose_exact
  · rw [hrefused hcompose] at haccepted
    cases haccepted
  · refine ⟨hr, h.frame.status name rfl, ?_, h.frame.appDirs name nofun⟩
    rw [hw, World.setStack_stack_self]
    exact hleaves

/-- A command that cannot be built, or that Docker does not accept, may fail and leave everything as it is. -/
theorem exists_act_refused {cmd : ComposeCmd} (h : ¬ ((∃ cc, s.world.appCompose name = .ok cc) ∧
      cmd.accepted (s.world.stack name) = true)) :
    ∃ e s', Act .exact i s (.compose name cmd) (.error e) s' := by
  cases hcompose : s.world.appCompose name with
  | error e =>
    have heffect : s.world.effect i (.compose name cmd) = some (.error e, s.world) := by
      simp only [World.effect, hcompose]
    have hproceed : Env.exact s i (.compose name cmd) .proceed := by
      simp only [Env.exact, hcompose]
    exact ⟨e, _, act_of_effect hproceed heffect⟩
  | ok cc =>
    have hrefused : cmd.accepted (s.world.stack name) = false :=
      Bool.eq_false_iff.mpr fun haccepted => h ⟨⟨cc, hcompose⟩, haccepted⟩
    have hallowed : Env.exact s i (.compose name cmd) (.docker (.error "") (s.world.stack name)) := by
      simp only [Env.exact, hcompose]
      exact ⟨hrefused, trivial⟩
    have hexec : s.world.exec i (.compose name cmd) (.docker (.error "") (s.world.stack name)) =
        some (.error (.subprocessError ""), s.world.setStack cc.project (s.world.stack name)) := by
      simp only [World.exec, hcompose]
      rfl
    exact ⟨.subprocessError "", _, _, _, hallowed, hexec, rfl⟩

/-! ## Stopping -/

/-- The app's compose commands can be built, and its containers are as frozen as its status says. -/
structure Stoppable (name : String) (w : World) : Prop where
  compose : ∃ cc, w.appCompose name = .ok cc
  running : w.status name = some .running → (w.stack name).frozen = false
  paused : w.status name = some .paused → (w.stack name).states.all (· == .paused) = true

/-- The stored status is STOPPED, and no container is running or paused. -/
structure World.Halted (w : World) (name : String) : Prop where
  status_eq : w.status name = some .stopped
  not_live : (w.stack name).live = false

theorem wp_stop (hrow : s.world.status name ≠ none) (hcompose : ∃ cc, s.world.appCompose name = .ok cc)
    (hfrozen : (s.world.stack name).frozen = false) :
    (do
      compose name .stop
      onlyIf (true = true) (writeStatus name .stopped)
      sendOnAppsUpdate : Coro Unit).wp (Act .exact i) (fun _ s' => s'.world.Halted name) s := by
  refine (Prog.wp_bind _ _ _ _).mpr ((Prog.wp_perform _ _ _).mpr fun r s₁ ha => ?_)
  have haccepted : ComposeCmd.stop.accepted (s.world.stack name) = true := by
    simp [ComposeCmd.accepted, ComposeCmd.allowed, hfrozen]
  obtain ⟨rfl, hstatus, hleaves, -⟩ := ha.composed_exact hcompose haccepted
  rw [ComposeCmd.leaves, beq_iff_eq] at hleaves
  refine (Prog.wp_bind _ _ _ _).mpr (wp_writeStatus Env.exact_le_reliable fun row => ?_)
  refine wp_sendOnAppsUpdate fun _ => ⟨?_, ?_⟩
  · obtain ⟨old, hold⟩ := Option.ne_none_iff_exists'.mp hrow
    rw [World.setStatus_status_self, hstatus, hold, Option.map_some]
  · rw [World.setStatus_stack, hleaves]
    exact Stack.live_mapState_stopped hfrozen

theorem wp_dockerStopApp_exact (h : Stoppable name s.world)
    (hstatus : s.world.status name = some .running ∨ s.world.status name = some .paused) :
    (dockerStopApp name true).wp (Act .exact i) (fun _ s' => s'.world.Halted name) s := by
  refine (Prog.wp_bind _ _ _ _).mpr (wp_readStatus Env.exact_le_reliable ?_)
  dsimp only
  obtain hrunning | hpaused := hstatus
  · rw [hrunning, onlyIf_pos (by decide), onlyIf_neg (by decide), pure_bind]
    exact wp_stop (by simp [hrunning]) h.compose (h.running hrunning)
  · rw [hpaused, onlyIf_pos (by decide), onlyIf_pos rfl]
    refine (Prog.wp_bind _ _ _ _).mpr ((Prog.wp_perform _ _ _).mpr fun r s₁ ha => ?_)
    obtain ⟨rfl, hstatus, hleaves, hdir⟩ := ha.composed_exact h.compose (h.paused hpaused)
    rw [ComposeCmd.leaves, beq_iff_eq] at hleaves
    refine wp_stop ?_ ?_ ?_
    · rw [hstatus]
      simp [hpaused]
    · unfold World.appCompose
      rw [hdir]
      exact h.compose
    · rw [hleaves]
      exact Stack.frozen_mapState_running _

/-- If a run whose first command is `cmd` always halts the app, then Docker accepts `cmd`. -/
theorem accepted_of_wp {cmd : ComposeCmd} {rest : Unit → Coro Unit} (hstatus : s.world.status name ≠ some .stopped)
    (hwp : (compose name cmd >>= rest).wp (Act .exact i) (fun _ s' => s'.world.Halted name) s) :
    (∃ cc, s.world.appCompose name = .ok cc) ∧ cmd.accepted (s.world.stack name) = true := by
  by_contra hnot
  obtain ⟨e, s', ha⟩ := exists_act_refused hnot
  have hhalted : s'.world.Halted name := (Prog.wp_perform _ _ _).mp ((Prog.wp_bind _ _ _ _).mp hwp) _ _ ha
  have hsame : s'.world.status name = s.world.status name := ha.frame.status name rfl
  exact hstatus (hsame.symm.trans hhalted.status_eq)

theorem exec_readStatus :
    Prog.Exec (Act .exact i) (readStatus name) s (.ok (s.world.status name)) (s.looked i name) :=
  (Prog.exec_perform.mpr (act_of_effect rfl rfl)).bind (.ret _ _)

/-- `docker_stop_app` stops a running or paused app exactly if the app's compose commands can be built and
its containers have not drifted: none is paused if the status is RUNNING, all are if it is PAUSED. -/
theorem docker_stop_app_halts_iff (name : String) (i : Call) (s : State)
    (hstatus : s.world.status name = some .running ∨ s.world.status name = some .paused) :
    (dockerStopApp name true).wp (Act .exact i) (fun _ s' => s'.world.Halted name) s ↔
      Stoppable name s.world := by
  refine ⟨fun hwp => ?_, fun h => wp_dockerStopApp_exact h hstatus⟩
  have hrest := exec_readStatus.wp ((Prog.wp_bind _ _ _ _).mp hwp)
  dsimp only at hrest
  obtain hrunning | hpaused := hstatus
  · rw [hrunning, onlyIf_pos (by decide), onlyIf_neg (by decide), pure_bind] at hrest
    obtain ⟨hcompose, hstop⟩ := accepted_of_wp (by rw [hrunning]; exact nofun) hrest
    refine ⟨hcompose, fun _ => ?_, fun hpaused => ?_⟩
    · simpa [ComposeCmd.accepted, ComposeCmd.allowed] using hstop
    · rw [hrunning] at hpaused
      cases hpaused
  · rw [hpaused, onlyIf_pos (by decide), onlyIf_pos rfl] at hrest
    obtain ⟨hcompose, hunpause⟩ := accepted_of_wp (by rw [hpaused]; exact nofun) hrest
    refine ⟨hcompose, fun hrunning => ?_, fun _ => hunpause⟩
    rw [hpaused] at hrunning
    cases hrunning

/-- A running app whose container is running. -/
theorem docker_stop_app_halts_running : (dockerStopApp "app" true).wp (Act .exact ⟨.stopApp, 0⟩)
    (fun _ s' => s'.world.Halted "app") ⟨.withApp "app" .running (.single .running), []⟩ := by
  refine (docker_stop_app_halts_iff "app" ⟨.stopApp, 0⟩ _ (.inl (by decide))).mpr ⟨?_, fun _ => by decide, ?_⟩
  · exact ⟨⟨"app", "app"⟩, by decide⟩
  · intro hpaused
    exact absurd hpaused (by decide)

/-- A container that was paused behind the app's back keeps a running app from being stopped. -/
theorem docker_stop_app_stuck : ¬ ∀ (name : String) (i : Call) (s : State),
    (∃ cc, s.world.appCompose name = .ok cc) →
    s.world.status name = some .running ∨ s.world.status name = some .paused →
    (dockerStopApp name true).wp (Act .exact i) (fun _ s' => s'.world.Halted name) s := by
  intro h
  have hwp := h "app" ⟨.stopApp, 0⟩ ⟨.withApp "app" .running (.single .paused), []⟩
    ⟨⟨"app", "app"⟩, by decide⟩ (.inl (by decide))
  obtain ⟨r, s', hrun, hP⟩ := State.exists_exec .exact ⟨.stopApp, 0⟩ (dockerStopApp "app" true)
    ⟨.withApp "app" .running (.single .paused), []⟩
    [.proceed, .docker (.error "cannot stop a paused container") (.single .paused)]
    (fun _ s' => s'.world.status "app" != some .stopped) (by decide)
  rw [(hrun.wp hwp).status_eq] at hP
  cases hP

end Freeshard

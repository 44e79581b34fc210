import Freeshard.Service.Specs

/-! # `start_app` as a revive primitive

The stored status and the containers may disagree in any way, and every command of the nested fallbacks may
fail in turn. A call that returns has brought both to "running"; a call that raises has not touched the
status. The next call then finds a running stack and leaves it alone, unless its own look at the containers
fails: `get_app_container_state` reports a failed query as `missing`. -/

namespace Freeshard
open Coroutine
set_option autoImplicit false

/-! ## What a command that succeeds has done -/

/-- There are containers, and all of them are running. -/
def Stack.up (K : Stack) : Bool := K.states != [] && K.states.all (· == .running)

theorem Stack.state_of_up {K : Stack} (h : K.up = true) : K.state = .running := by
  simp only [up, Bool.and_eq_true, bne_iff_ne, ne_eq, List.all_eq_true, beq_iff_eq] at h
  have hpaused : K.states.any (· == .paused) = false := by
    rw [List.any_eq_false]
    intro state hmem
    rw [h.2 state hmem]
    decide
  have hall : K.states.all (· == .running) = true := by
    rw [List.all_eq_true]
    intro state hmem
    rw [h.2 state hmem]
    rfl
  have hempty : K.states.isEmpty = false := by rw [List.isEmpty_eq_false_iff]; exact h.1
  rw [Stack.state_eq, if_neg h.1, containerState, hpaused, hall, hempty]
  rfl

theorem Stack.up_of_state {K : Stack} (h : K.state = .running) : K.up = true := by
  rw [Stack.state_eq] at h
  split at h
  · cases h
  · next hne =>
    unfold containerState at h
    split at h
    · cases h
    · split at h
      · next hall =>
        rw [Bool.and_eq_true] at hall
        rw [Stack.up, hall.2, Bool.and_true, bne_iff_ne]
        exact hne
      · cases h

theorem Stack.up_mapState_running {K : Stack} (h : K.states ≠ []) : (K.mapState fun _ => .running).up = true := by
  rw [up, states_mapState, Bool.and_eq_true, bne_iff_ne, List.all_eq_true]
  refine ⟨fun hnil => h (List.map_eq_nil_iff.mp hnil), fun state hmem => ?_⟩
  obtain ⟨_, -, rfl⟩ := List.mem_map.mp hmem
  rfl

/-- `unpause` succeeds only on a stack that is frozen as a whole. -/
def ComposeCmd.succeeds (cmd : ComposeCmd) (K K' : Stack) : Bool :=
  (cmd != .unpause || K.states.all (· == .paused)) && cmd.leaves K K'

/-- Database and handlers work. A command that fails may leave anything behind, and so may the queries fail;
a command that succeeds has had its effect. -/
def Env.honest : Env := fun s _ op c =>
  match op with
  | .compose name cmd =>
    match c with
    | .docker (.ok _) K => cmd.succeeds (s.world.stack name) K = true
    | _ => True
  | .composePs _ _ => True
  | .inspect _ _ => True
  | .reclaimContainer _ => True
  | .throttle _ => c.raised = none
  | .onAppsUpdate => c = .proceed ∧ s.world.sendAppsUpdate.isOk = true
  | _ => c = .proceed

instance (s : State) (i : Call) (op : Op) (c : Choice) : Decidable (Env.honest s i op c) := by
  apply @Op.casesOn (fun op => Decidable (Env.honest s i op c)) op
  case compose =>
    intro name cmd
    unfold Env.honest
    refine Choice.casesOn c ?_ (fun e => ?_) (fun e => ?_) (fun exit K => ?_) (fun now => ?_) fun dir e => ?_
    case refine_4 => refine Except.casesOn exit (fun e => ?_) (fun u => ?_) <;> infer_instance
    all_goals infer_instance
  all_goals
    intros
    unfold Env.honest
    infer_instance

theorem Env.honest_le_reliable : honest ≤ reliable := by
  refine Env.le_reliable fun s i op c h hop => ?_
  cases op <;> first | exact h | simp [Op.internal, Op.ignoresErrors] at hop

variable {i j : Call} {s s' : State} {name : String}

/-! ## What a run has issued -/

/-- A state-changing command; the queries are none. -/
def Op.changes : Op → Bool
  | .compose _ _ => true
  | _ => false

def Op.queries : Op → Bool
  | .composePs _ _ => true
  | .inspect _ _ => true
  | _ => false

/-- How many state-changing commands have been issued. -/
def State.commands (s : State) : ℕ := s.log.countP fun e => e.op.changes

/-- How many queries for containers have failed. -/
def State.failedQueries (s : State) : ℕ := s.log.countP fun e => e.op.queries && !e.ok

section Log
variable {E : Env} {op : Op} {r : Answer op}

theorem Act.commands_eq (h : Act E i s op r s') (hop : op.changes = false) : s'.commands = s.commands := by
  unfold State.commands
  rw [h.log, List.countP_cons_of_neg]
  exact Bool.eq_false_iff.mp hop

theorem Act.failedQueries_eq (h : Act E i s op r s') (hop : op.queries = false) :
    s'.failedQueries = s.failedQueries := by
  unfold State.failedQueries
  rw [h.log, List.countP_cons_of_neg]
  simp [hop]

theorem Act.failedQueries_le (h : Act E i s op r s') : s.failedQueries ≤ s'.failedQueries := by
  unfold State.failedQueries
  rw [h.log, List.countP_cons]
  omega

theorem Act.failedQueries_lt (h : Act E i s op r s') (hop : op.queries = true) (hr : r.isOk = false) :
    s.failedQueries < s'.failedQueries := by
  unfold State.failedQueries
  rw [h.log, List.countP_cons_of_pos]
  · omega
  · simp [Event.ok, hop, hr]

end Log

/-! ## The real state -/

theorem find_id {containers : List Container} (hnodup : (containers.map (·.id)).Nodup) {c : Container}
    (hmem : c ∈ containers) : containers.find? (·.id == c.id) = some c := by
  cases hfind : containers.find? (·.id == c.id) with
  | none =>
    have hne := List.find?_eq_none.mp hfind c hmem
    simp at hne
  | some c' =>
    have hid : c'.id = c.id := by simpa using List.find?_some hfind
    rw [List.inj_on_of_nodup_map hnodup (List.mem_of_find?_eq_some hfind) hmem hid]

theorem World.containerIds_stack (w : World) (name : String) :
    w.containerIds (normalizeProjectName name) true = (w.stack name).containers.map (·.id) := by
  unfold World.containerIds World.stack
  simp

/-- Every container that `compose ps -a` lists is inspected. -/
theorem World.inspectStates_stack (w : World) (name : String) :
    w.inspectStates name ((w.stack name).containers.map (·.id)) = some (w.stack name).states := by
  have hlist : ∀ l ⊆ (w.stack name).containers, w.inspectStates name (l.map (·.id)) = some (l.map (·.state)) := by
    intro l hl
    induction l with
    | nil => rfl
    | cons c l ih =>
      have hhead := find_id (w.stack name).nodup (hl List.mem_cons_self)
      have htail := ih fun _ hmem => hl (List.mem_cons_of_mem _ hmem)
      unfold World.inspectStates at htail ⊢
      rw [List.map_cons, List.mapM_cons, hhead, htail]
      rfl
  exact hlist _ (List.Subset.refl _)

theorem Act.listed {E : Env} {all : Bool} {r : Answer (.composePs name all)}
    (h : Act E i s (.composePs name all) r s') :
    r.isOk = false ∨ r = .ok (s.world.containerIds (normalizeProjectName name) all) := by
  obtain ⟨c, -, he⟩ := h.inv
  cases c with
  | proceed =>
    simp only [World.exec, World.effect] at he
    split at he
    · obtain ⟨rfl, -⟩ := Prod.mk.inj (Option.some.inj he)
      exact .inl rfl
    · next cc hcc =>
      rw [World.appCompose_project hcc] at he
      exact .inr (Prod.mk.inj (Option.some.inj he)).1.symm
  | raise e =>
    obtain ⟨rfl, -⟩ := Prod.mk.inj (Option.some.inj he)
    exact .inl rfl
  | proceedRaise e =>
    simp only [World.exec, Option.map_eq_some_iff, Prod.mk.injEq] at he
    obtain ⟨_, -, rfl, -⟩ := he
    exact .inl rfl
  | docker exit stack | clock now | leaves dir e => cases he

theorem Act.inspected {E : Env} {ids : List ℕ} {r : Answer (.inspect name ids)}
    (h : Act E i s (.inspect name ids) r s') :
    r.isOk = false ∨ ∃ states, s.world.inspectStates name ids = some states ∧ r = .ok states := by
  obtain ⟨c, -, he⟩ := h.inv
  cases c with
  | proceed =>
    simp only [World.exec, World.effect] at he
    split at he
    · next states hstates => exact .inr ⟨states, hstates, (Prod.mk.inj (Option.some.inj he)).1.symm⟩
    · obtain ⟨rfl, -⟩ := Prod.mk.inj (Option.some.inj he)
      exact .inl rfl
  | raise e =>
    obtain ⟨rfl, -⟩ := Prod.mk.inj (Option.some.inj he)
    exact .inl rfl
  | proceedRaise e =>
    simp only [World.exec, Option.map_eq_some_iff, Prod.mk.injEq] at he
    obtain ⟨_, -, rfl, -⟩ := he
    exact .inl rfl
  | docker exit stack | clock now | leaves dir e => cases he

theorem Act.queried {E : Env} {op : Op} {r : Answer op} (h : Act E i s op r s') (hop : op.queries = true) :
    s'.world = s.world ∧ s'.commands = s.commands := by
  have heffect : ∀ i w r w', World.effect i w op = some (r, w') → w' = w := by
    intro i w r w' he
    cases op with
    | composePs other all | inspect other ids =>
      simp only [World.effect] at he
      split at he <;> cases he <;> rfl
    | _ => cases hop
  cases op with
  | composePs other all | inspect other ids =>
    exact ⟨h.world_eq heffect (fun _ _ h => by cases h) (fun _ h => by cases h) rfl, h.commands_eq rfl⟩
  | _ => cases hop

/-- What a query for the state of the containers ends in: the real state, or `missing` after a failure. -/
structure Observed (name : String) (s : State) (r : Except Exn ContainerState) (s' : State) : Prop where
  world_eq : s'.world = s.world
  commands_eq : s'.commands = s.commands
  real : r = .ok (s.world.stack name).state ∨
    s.failedQueries < s'.failedQueries ∧ ∀ state, r = .ok state → state = .missing

theorem Observed.missing {e : Exn} (h : Observed name s (.error e) s') :
    Observed name s (.ok .missing) s' := by
  refine ⟨h.world_eq, h.commands_eq, .inr ?_⟩
  obtain hreal | hfailed := h.real
  · cases hreal
  · exact ⟨hfailed.1, fun state hstate => (Except.ok.inj hstate).symm⟩

theorem wp_inspect {E : Env} (hne : (s.world.stack name).containers ≠ []) :
    (do
      let states ← inspect name ((s.world.stack name).containers.map (·.id))
      pure (containerState states) : Coro ContainerState).wp (Act E i) (Observed name s) s := by
  refine (Prog.wp_bind _ _ _ _).mpr ((Prog.wp_perform _ _ _).mpr fun r s₁ ha => ?_)
  obtain ⟨hw, hc⟩ := ha.queried rfl
  obtain hfailed | ⟨states, hstates, rfl⟩ := ha.inspected
  · cases r with
    | error e => exact ⟨hw, hc, .inr ⟨ha.failedQueries_lt rfl rfl, fun _ h => by cases h⟩⟩
    | ok states => cases hfailed
  · rw [World.inspectStates_stack] at hstates
    obtain rfl := Option.some.inj hstates
    refine ⟨hw, hc, .inl ?_⟩
    rw [Stack.state, if_neg (by rwa [List.isEmpty_iff])]

theorem wp_getAppContainerState {E : Env} :
    (getAppContainerState name).wp (Act E i) (Observed name s) s := by
  have hquery : (do
      let ids ← composePs name true
      if ids.isEmpty then
        pure .missing
      else do
        let states ← inspect name ids
        pure (containerState states) : Coro ContainerState).wp (Act E i) (Observed name s) s := by
    refine (Prog.wp_bind _ _ _ _).mpr ((Prog.wp_perform _ _ _).mpr fun r s₁ ha => ?_)
    obtain ⟨hw, hc⟩ := ha.queried rfl
    obtain hfailed | rfl := ha.listed
    · cases r with
      | error e => exact ⟨hw, hc, .inr ⟨ha.failedQueries_lt rfl rfl, fun _ h => by cases h⟩⟩
      | ok ids => cases hfailed
    · rw [World.containerIds_stack]
      dsimp only
      split
      · next hempty =>
        rw [List.isEmpty_iff, List.map_eq_nil_iff] at hempty
        refine ⟨hw, hc, .inl ?_⟩
        rw [Stack.state, hempty]
        rfl
      · next hne =>
        rw [List.isEmpty_iff, List.map_eq_nil_iff, ← hw] at hne
        have hgrown := ha.failedQueries_le
        rw [← hw]
        refine Prog.wp_mono (wp_inspect hne) fun r s₂ h₂ => ⟨h₂.world_eq.trans hw, h₂.commands_eq.trans hc, ?_⟩
        rw [← hw]
        exact h₂.real.imp_right fun hfailed => ⟨by omega, hfailed.2⟩
  refine Prog.wp_tryCatch_of hquery (fun _ _ h => h) fun e s₁ h₁ => ?_
  cases e with
  | subprocessError text => exact h₁.missing
  | _ => exact h₁

/-! ## One call -/

theorem Act.composed_honest {cmd : ComposeCmd} {r : Answer (.compose name cmd)}
    (h : Act .honest i s (.compose name cmd) r s') :
    s'.world.status name = s.world.status name ∧
      (r = .ok () → cmd.succeeds (s.world.stack name) (s'.world.stack name) = true) := by
  refine ⟨h.frame.status name rfl, ?_⟩
  rintro rfl
  obtain ⟨c, hc, he⟩ := h.inv
  cases c with
  | proceed =>
    simp only [World.exec, World.effect] at he
    split at he <;> cases he
  | raise e => cases he
  | proceedRaise e =>
    simp only [World.exec, Option.map_eq_some_iff, Prod.mk.injEq] at he
    obtain ⟨_, -, hr, -⟩ := he
    cases hr
  | docker exit K =>
    simp only [World.exec] at he
    split at he
    · next cc hcc =>
      obtain ⟨hexit, hw⟩ := Prod.mk.inj (Option.some.inj he)
      cases exit with
      | error text => cases hexit
      | ok u =>
        rw [← hw, World.appCompose_project hcc, World.setStack_stack_self]
        exact hc
    · cases he
  | clock now | leaves dir e => cases he

theorem wp_compose_honest (cmd : ComposeCmd) : (compose name cmd).wp (Act .honest i) (fun r s' =>
    s'.world.status name = s.world.status name ∧
      (r = .ok () → cmd.succeeds (s.world.stack name) (s'.world.stack name) = true)) s :=
  (Prog.wp_perform _ _ _).mpr fun _ _ ha => ha.composed_honest

/-- The status is as it was, and a call that returned has brought everything up. -/
structure Raised (name : String) (s : State) (r : Except Exn Unit) (s' : State) : Prop where
  status_eq : s'.world.status name = s.world.status name
  up : r = .ok () → (s'.world.stack name).up = true

theorem Raised.of_status {s₁ : State} {r : Except Exn Unit} (h : Raised name s₁ r s')
    (hstatus : s₁.world.status name = s.world.status name) : Raised name s r s' :=
  ⟨h.status_eq.trans hstatus, h.up⟩

theorem wp_up : (compose name .up).wp (Act .honest i) (Raised name s) s := by
  refine Prog.wp_mono (wp_compose_honest .up) fun r s' h => ⟨h.1, fun hr => ?_⟩
  simpa [ComposeCmd.succeeds, ComposeCmd.leaves, Stack.up] using h.2 hr

theorem wp_composeUp : (composeUp name).wp (Act .honest i) (Raised name s) s := by
  have hretry : ∀ s₁ : State, s₁.world.status name = s.world.status name →
      (do
        compose name .down
        compose name .up : Coro Unit).wp (Act .honest i) (Raised name s) s₁ := by
    intro s₁ h₁
    refine Prog.wp_bind_of (wp_compose_honest .down) (fun _ s₂ h₂ => ?_) fun e s₂ h₂ => ?_
    · exact Prog.wp_mono wp_up fun r s₃ h₃ => h₃.of_status (h₂.1.trans h₁)
    · exact ⟨h₂.1.trans h₁, fun h => by cases h⟩
  refine Prog.wp_tryCatch_of wp_up (fun _ _ h => h) fun e s₁ h₁ => ?_
  have hraised : Raised name s (.error e) s₁ := ⟨h₁.status_eq, fun h => by cases h⟩
  cases e with
  | subprocessError text =>
    dsimp only
    split
    · exact hretry s₁ h₁.status_eq
    · split
      · exact hretry s₁ h₁.status_eq
      · exact hraised
  | _ => exact hraised

/-- Row and containers both say that the app is running. -/
structure World.Runs (w : World) (name : String) : Prop where
  status_eq : w.status name = some .running
  up : (w.stack name).up = true

theorem wp_markRunning (hrow : s.world.status name ≠ none) (hup : (s.world.stack name).up = true) :
    (markRunning name).wp (Act .honest i) (fun r s' => r = .ok () ∧ s'.world.Runs name) s := by
  refine (Prog.wp_bind _ _ _ _).mpr (wp_writeStatus Env.honest_le_reliable fun row => ?_)
  refine (Prog.wp_perform _ _ _).mpr fun r s' ha => ?_
  obtain ⟨c, ⟨rfl, hsent⟩, he⟩ := ha.inv
  obtain ⟨hr, hw⟩ := Prod.mk.inj (Option.some.inj he)
  rw [← hw]
  refine ⟨?_, ?_, hup⟩
  · rw [← hr]
    cases hmessage : (s.world.setStatus name .running).sendAppsUpdate with
    | ok message => rfl
    | error e =>
      rw [hmessage] at hsent
      cases hsent
  · obtain ⟨old, hold⟩ := Option.ne_none_iff_exists'.mp hrow
    rw [World.setStatus_status_self, hold, Option.map_some]

/-- What a call for a revivable app ends in. -/
structure Revived (name : String) (s : State) (r : Except Exn Unit) (s' : State) : Prop where
  runs : r = .ok () → s'.world.Runs name
  status_eq : ∀ e, r = .error e → s'.world.status name = s.world.status name

theorem wp_then_markRunning {p : Coro Unit} (hp : p.wp (Act .honest i) (Raised name s) s)
    (hrow : s.world.status name ≠ none) :
    (do
      p
      markRunning name : Coro Unit).wp (Act .honest i) (Revived name s) s := by
  refine Prog.wp_bind_of hp (fun _ s₁ h₁ => ?_) fun e s₁ h₁ =>
    ⟨fun h => (by cases h), fun _ _ => h₁.status_eq⟩
  rw [← h₁.status_eq] at hrow
  refine Prog.wp_mono (wp_markRunning hrow (h₁.up rfl)) ?_
  rintro _ s₂ ⟨rfl, h₂⟩
  exact ⟨fun _ => h₂, fun _ h => by cases h⟩

theorem Revived.of_eq {s₁ : State} {r : Except Exn Unit} (h : Revived name s₁ r s')
    (hw : s₁.world = s.world) : Revived name s r s' :=
  ⟨h.runs, fun e he => (h.status_eq e he).trans (by rw [hw])⟩

theorem wp_revive (hrow : s.world.status name ≠ none) :
    (revive name (s.world.status name)).wp (Act .honest i) (Revived name s) s := by
  refine Prog.wp_bind_of wp_getAppContainerState (fun state s₁ h₁ => ?_) fun e s₁ h₁ => ?_
  · have hrow₁ : s₁.world.status name ≠ none := by rwa [h₁.world_eq]
    cases state with
    | running =>
      have hup : (s.world.stack name).up = true := by
        obtain hreal | ⟨-, hmissing⟩ := h₁.real
        · exact Stack.up_of_state (Except.ok.inj hreal).symm
        · cases hmissing _ rfl
      by_cases hst : s.world.status name = some .running
      · dsimp only
        rw [onlyIf_neg (not_not_intro hst)]
        refine ⟨fun _ => ?_, fun _ h => by cases h⟩
        rw [h₁.world_eq]
        exact ⟨hst, hup⟩
      · dsimp only
        rw [onlyIf_pos hst]
        refine Prog.wp_mono (wp_markRunning hrow₁ (by rwa [h₁.world_eq])) ?_
        rintro _ s₂ ⟨rfl, h₂⟩
        exact ⟨fun _ => h₂, fun _ h => by cases h⟩
    | paused =>
      have hne : (s.world.stack name).states ≠ [] := by
        obtain hreal | ⟨-, hmissing⟩ := h₁.real
        · intro hnil
          have hstate := (Except.ok.inj hreal).symm
          rw [Stack.state_eq, if_pos hnil] at hstate
          cases hstate
        · cases hmissing _ rfl
      have hunpause : (exceptSubprocessError (doUnpause name) fun _ => composeUp name).wp (Act .honest i)
          (Raised name s₁) s₁ := by
        refine Prog.wp_tryCatch_of (wp_compose_honest .unpause) (fun _ s₂ h₂ => ?_) fun e s₂ h₂ => ?_
        · refine ⟨h₂.1, fun _ => ?_⟩
          have hthawed : s₂.world.stack name = (s₁.world.stack name).mapState fun _ => .running := by
            have h := h₂.2 rfl
            simp only [ComposeCmd.succeeds, ComposeCmd.leaves, Bool.and_eq_true, beq_iff_eq] at h
            exact h.2
          rw [hthawed, h₁.world_eq]
          exact Stack.up_mapState_running hne
        · cases e with
          | subprocessError text => exact Prog.wp_mono wp_composeUp fun _ _ h => h.of_status h₂.1
          | _ => exact ⟨h₂.1, fun h => by cases h⟩
      exact Prog.wp_mono (wp_then_markRunning hunpause hrow₁) fun _ _ h => h.of_eq h₁.world_eq
    | exited | missing =>
      exact Prog.wp_mono (wp_then_markRunning wp_composeUp hrow₁) fun _ _ h => h.of_eq h₁.world_eq
  · exact ⟨fun h => (by cases h), fun _ _ => by rw [h₁.world_eq]⟩

/-! ## The next call -/

/-- No state-changing command since `s`, or a query for the containers has failed since. -/
def Idle (s s' : State) : Prop := s'.commands = s.commands ∨ s.failedQueries < s'.failedQueries

theorem Idle.step {E : Env} {s₀ : State} {op : Op} {r : Answer op} (h : Idle s₀ s) (ha : Act E i s op r s')
    (hop : op.changes = false) : Idle s₀ s' := by
  obtain hsame | hfailed := h
  · exact .inl ((ha.commands_eq hop).trans hsame)
  · exact .inr (Nat.lt_of_lt_of_le hfailed ha.failedQueries_le)

theorem wp_of_failed {E : Env} {α : Type} {s₀ : State} (p : Coro α)
    (h : s₀.failedQueries < s.failedQueries) : p.wp (Act E i) (fun _ s' => Idle s₀ s') s := by
  have hkept : p.wp (Act E i) (fun _ s' => s₀.failedQueries < s'.failedQueries) s := by
    refine Prog.Uses.wp (Prog.uses_true p) (fun op _ s₁ r s₂ hlt ha => ?_) h
    exact Nat.lt_of_lt_of_le hlt ha.failedQueries_le
  exact Prog.wp_mono hkept fun _ _ hlt => .inr hlt

theorem wp_revive_again (h : s.world.Runs name) :
    (revive name (some .running)).wp (Act .honest j) (fun _ s' => Idle s s') s := by
  refine Prog.wp_bind_of wp_getAppContainerState (fun state s₁ h₁ => ?_) fun _ _ h₁ => .inl h₁.commands_eq
  obtain hreal | ⟨hfailed, -⟩ := h₁.real
  · rw [Stack.state_of_up h.up] at hreal
    obtain rfl := Except.ok.inj hreal
    dsimp only
    rw [onlyIf_neg (not_not_intro rfl)]
    exact .inl h₁.commands_eq
  · exact wp_of_failed _ hfailed

theorem wp_startAppUnthrottled_again (h : s.world.Runs name) :
    (startAppUnthrottled name).wp (Act .honest j) (fun _ s' => Idle s s') s := by
  refine (Prog.wp_bind _ _ _ _).mpr ((Prog.wp_perform _ _ _).mpr fun r s₁ ha => ?_)
  obtain ⟨-, rfl, hw₁⟩ := ha.acquired Env.honest_le_reliable
  refine Prog.wp_tryFinally_same ?_ fun s₂ h₂ => (Prog.wp_perform _ _ _).mpr fun _ _ hrelease => h₂.step hrelease rfl
  have hstatus : s₁.world.status name = some .running := by rw [hw₁, World.setLock_status, h.status_eq]
  refine (Prog.wp_bind _ _ _ _).mpr (wp_readStatus Env.honest_le_reliable ?_)
  dsimp only
  rw [hstatus, onlyIf_pos (by decide)]
  have hruns : (s₁.looked j name).world.Runs name :=
    ⟨hstatus, by rw [hw₁, World.setLock_stack]; exact h.up⟩
  refine Prog.wp_mono (wp_revive_again hruns) fun _ s₂ h₂ => ?_
  have hcommands : (s₁.looked j name).commands = s.commands := ha.commands_eq rfl
  have hqueries : (s₁.looked j name).failedQueries = s.failedQueries := ha.failedQueries_eq rfl
  unfold Idle at h₂ ⊢
  rwa [← hcommands, ← hqueries]

theorem wp_startApp_again (h : s.world.Runs name) :
    (startApp name).wp (Act .honest j) (fun _ s' => Idle s s') s := by
  refine (Prog.wp_bind _ _ _ _).mpr ((Prog.wp_perform _ _ _).mpr fun r s₁ ha => ?_)
  have hcommands := ha.commands_eq rfl
  have hqueries := ha.failedQueries_eq rfl
  have hruns : s₁.world.Runs name :=
    ⟨(ha.frame.status name rfl).trans h.status_eq, by rw [ha.frame.stack name rfl]; exact h.up⟩
  cases r with
  | error e => exact .inl hcommands
  | ok passes =>
    dsimp only [onlyIf]
    split
    · refine Prog.wp_mono (wp_startAppUnthrottled_again hruns) fun _ s₂ h₂ => ?_
      unfold Idle at h₂ ⊢
      rwa [← hcommands, ← hqueries]
    · exact .inl hcommands

/-! ## The contract -/

theorem World.setLock_setLock_none {w : World} (h : w.opLocks name = none) :
    (w.setLock name (some i)).setLock name none = w := by
  unfold World.setLock
  rw [Function.update_idem, ← h, Function.update_eq_self]

/-- A call that is not throttled leaves an app alone that may not be revived; for the others it returns with
everything running or raises with the status as it was, and once it has returned the next call issues no
state-changing command unless a query of its own fails. -/
theorem start_app_revives (name : String) (i j : Call) (s : State) :
    (startAppUnthrottled name).wp (Act .honest i) (fun r s' =>
      if s.world.status name ∈ revivableStatus.map some then
        (r = .ok () → s'.world.Runs name ∧
          (startApp name).wp (Act .honest j) (fun _ s'' => s''.commands = s'.commands ∨
            s'.failedQueries < s''.failedQueries) s') ∧
        (∀ e, r = .error e → s'.world.status name = s.world.status name)
      else r = .ok () ∧ s'.world = s.world ∧ s'.commands = s.commands) s := by
  refine (Prog.wp_bind _ _ _ _).mpr ((Prog.wp_perform _ _ _).mpr fun r s₁ ha => ?_)
  obtain ⟨hfree, rfl, hw₁⟩ := ha.acquired Env.honest_le_reliable
  have hstatus : s₁.world.status name = s.world.status name := by rw [hw₁, World.setLock_status]
  by_cases hmem : s.world.status name ∈ revivableStatus.map some
  · have hrow : s₁.world.status name ≠ none := by
      rw [hstatus]
      intro hnone
      rw [hnone] at hmem
      exact absurd hmem (by decide)
    have hbody : (do
        let dbStatus ← readStatus name
        onlyIf (dbStatus ∈ revivableStatus.map some) (revive name dbStatus) : Coro Unit).wp (Act .honest i)
        (Revived name s₁) s₁ := by
      refine (Prog.wp_bind _ _ _ _).mpr (wp_readStatus Env.honest_le_reliable ?_)
      dsimp only
      rw [onlyIf_pos (by rwa [hstatus])]
      exact Prog.wp_mono (wp_revive (s := s₁.looked i name) hrow) fun _ _ h => h.of_eq rfl
    refine Prog.wp_tryFinally_of hbody fun r s₂ h₂ => (Prog.wp_perform _ _ _).mpr fun r' s₃ hrelease => ?_
    obtain ⟨-, rfl, hw₃⟩ := hrelease.released Env.honest_le_reliable
    rw [if_pos hmem]
    refine ⟨fun hr => ?_, fun e he => ?_⟩
    · have hruns : s₃.world.Runs name := by
        rw [hw₃]
        exact ⟨(h₂.runs hr).status_eq, (h₂.runs hr).up⟩
      exact ⟨hruns, wp_startApp_again hruns⟩
    · rw [hw₃, World.setLock_status, h₂.status_eq e he, hstatus]
  · have hbody : (do
        let dbStatus ← readStatus name
        onlyIf (dbStatus ∈ revivableStatus.map some) (revive name dbStatus) : Coro Unit).wp (Act .honest i)
        (fun r s' => r = .ok () ∧ s'.world = s₁.world ∧ s'.commands = s₁.commands) s₁ := by
      refine (Prog.wp_bind _ _ _ _).mpr (wp_readStatus Env.honest_le_reliable ?_)
      dsimp only
      rw [onlyIf_neg (by rwa [hstatus])]
      exact ⟨rfl, rfl, rfl⟩
    refine Prog.wp_tryFinally_of hbody fun r s₂ h₂ => (Prog.wp_perform _ _ _).mpr fun r' s₃ hrelease => ?_
    obtain ⟨-, rfl, hw₃⟩ := hrelease.released Env.honest_le_reliable
    rw [if_neg hmem]
    refine ⟨h₂.1, ?_, ?_⟩
    · rw [hw₃, h₂.2.1, hw₁, World.setLock_setLock_none hfree]
    · rw [hrelease.commands_eq rfl, h₂.2.2, ha.commands_eq rfl]

/-- The second call takes an app that is running to be missing, as its own query fails. -/
theorem start_app_again_after_failed_query : ¬ ∀ (name : String) (i j : Call) (s : State),
    s.world.status name ∈ revivableStatus.map some →
    (startAppUnthrottled name).wp (Act .honest i) (fun r s' => r = .ok () →
      (startApp name).wp (Act .honest j) (fun _ s'' => s''.commands = s'.commands) s') s := by
  intro h
  have hwp := h "app" ⟨.startApp, 0⟩ ⟨.startApp, 1⟩ ⟨.withApp "app" .running (.single .running), []⟩ (by decide)
  obtain ⟨r, s₁, hfirst, hP⟩ := State.exists_exec .honest ⟨.startApp, 0⟩ (startAppUnthrottled "app")
    ⟨.withApp "app" .running (.single .running), []⟩ (List.replicate 5 .proceed)
    (fun r s₁ => r.isOk && s₁.commands == 0 && ((startApp "app").follow (State.exec .honest ⟨.startApp, 1⟩) s₁
      ([.clock 10, .proceed, .proceed, .raise (.subprocessError "timeout"),
        .docker (.ok ()) (.single .running)] ++ List.replicate 3 .proceed)).any fun run => run.2.commands == 1)
    (by decide)
  rw [Bool.and_eq_true, Bool.and_eq_true, beq_iff_eq] at hP
  obtain ⟨⟨hok, hnone⟩, hfollow⟩ := hP
  obtain ⟨r', s₂, hsecond, hone⟩ := State.exists_exec .honest ⟨.startApp, 1⟩ (startApp "app") s₁ _
    (fun _ s => s.commands == 1) hfollow
  cases r with
  | error e => cases hok
  | ok u =>
    have hsame := hsecond.wp (hfirst.wp hwp rfl)
    rw [hnone, beq_iff_eq.mp hone] at hsame
    cases hsame

end Freeshard

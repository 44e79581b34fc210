import Freeshard.Service.Footprints
import Freeshard.Service.Specs

/-! # Which containers an uninstall leaves behind

The request, then the worker's task, in an obedient environment with nothing interleaved. `Ready`
is what every step before the removal of the app's directory can rely on; the specifications below
move it from one status and one stack to the next.

`uninstall_app` has replaced PAUSED by UNINSTALLATION_QUEUED when the worker looks, so the worker
never unpauses: a frozen stack survives its row and its directory. -/

namespace Freeshard
open Coroutine
set_option autoImplicit false

/-- The app has this status and these containers, compose commands for it can be built, and
notifications succeed. -/
structure Ready (name : String) (status : Status) (K : Stack) (w : World) : Prop where
  status_eq : w.status name = some status
  stack_eq : w.stack name = K
  compose : ∃ cc, w.appCompose name = .ok cc
  notifiable : w.Notifiable

variable {E : Env} {i : Call} {s : State} {w : World} {log : List Event} {name : String}
  {status : Status} {K : Stack}

theorem Ready.setStatus (h : Ready name status K w) (status' : Status) :
    Ready name status' K (w.setStatus name status') where
  status_eq := by rw [World.setStatus_status_self, h.status_eq, Option.map_some]
  stack_eq := h.stack_eq
  compose := h.compose
  notifiable := h.notifiable.setStatus name status'

theorem Ready.setStack (h : Ready name status K w) (K' : Stack) :
    Ready name status K' (w.setStack (normalizeProjectName name) K') where
  status_eq := h.status_eq
  stack_eq := w.setStack_stack_self name K'
  compose := h.compose
  notifiable := h.notifiable

/-! ## The steps -/

section Steps
variable (hE : E ≤ Env.obedient)
include hE

theorem wp_writeStatus_ready (h : Ready name status K w) (status' : Status) :
    (writeStatus name status').wp (Act E i)
      (fun r s' => r = .ok () ∧ Ready name status' K s'.world) ⟨w, log⟩ :=
  wp_writeStatus (hE.trans Env.obedient_le_reliable) fun _ => ⟨rfl, h.setStatus status'⟩

theorem wp_sendOnAppsUpdate_ready (h : Ready name status K w) :
    sendOnAppsUpdate.wp (Act E i) (fun r s' => r = .ok () ∧ Ready name status K s'.world) ⟨w, log⟩ := by
  refine (Prog.wp_perform _ _ _).mpr fun r s' ha => ?_
  obtain ⟨message, hm⟩ := World.sendAppsUpdate_isOk.mpr h.notifiable
  have he := ha.undisturbed hE nofun nofun
  simp only [World.effect, hm, Option.some.injEq, Prod.mk.injEq] at he
  exact ⟨he.1.symm, he.2 ▸ h⟩

theorem wp_updateAppStatus_ready (h : Ready name status K w) (status' : Status) :
    (updateAppStatus name status').wp (Act E i)
      (fun r s' => r = .ok () ∧ Ready name status' K s'.world) ⟨w, log⟩ := by
  refine wp_updateAppStatus (hE.trans Env.obedient_le_reliable) (by simp [h.status_eq]) fun r => ?_
  exact wp_sendOnAppsUpdate_ready hE (h.setStatus status')

theorem wp_compose_ready (h : Ready name status K w) (cmd : ComposeCmd) :
    (compose name cmd).wp (Act E i) (fun r s' =>
      (cmd.allowed K = true ∧ r = .ok () ∧ ∃ K', cmd.leaves K K' = true ∧
        Ready name status K' s'.world) ∨
      (cmd.allowed K = false ∧ (∃ text, r = .error (.subprocessError text)) ∧
        Ready name status K s'.world)) ⟨w, log⟩ := by
  refine (Prog.wp_perform _ _ _).mpr fun r s' ha => ?_
  have hc := ha.composed (hE.trans Env.obedient_le_daemon) h.compose
  rw [h.stack_eq] at hc
  obtain ⟨hal, hr, K', hK', hw⟩ | ⟨hal, hw, text, hr, -⟩ := hc
  · exact .inl ⟨hal, hr, K', hK', hw ▸ h.setStack K'⟩
  · exact .inr ⟨hal, ⟨text, hr⟩, hw ▸ h⟩

/-! ## The teardown functions -/

theorem wp_dockerStopApp_ready (h : Ready name .uninstalling K w) (hK : K.frozen = false) :
    (dockerStopApp name true).wp (Act E i) (fun r s' => r = .ok () ∧
      ∃ K', K'.frozen = false ∧ Ready name .stopped K' s'.world) ⟨w, log⟩ := by
  have hst := h.status_eq
  refine wp_dockerStopApp (hE.trans Env.obedient_le_reliable) (by simp [hst, stoppableStatus]) (by simp [hst]) ?_
  refine Prog.wp_bind_of (wp_compose_ready hE h .stop) ?_ ?_
  · rintro _ s₂ (⟨-, -, K', hK', h₂⟩ | ⟨-, ⟨_, ⟨⟩⟩, -⟩)
    obtain rfl : K' = K.mapState ComposeCmd.stopped := by simpa [ComposeCmd.leaves] using hK'
    refine Prog.wp_bind_of (wp_writeStatus_ready hE h₂ .stopped) ?_ fun _ _ h => by cases h.1
    rintro _ s₃ ⟨-, h₃⟩
    refine Prog.wp_mono (wp_sendOnAppsUpdate_ready hE h₃) ?_
    rintro _ s₄ ⟨rfl, h₄⟩
    exact ⟨rfl, _, by rw [ComposeCmd.frozen_mapState_stopped, hK], h₄⟩
  · rintro e s₂ (⟨-, ⟨⟩, -⟩ | ⟨hal, -⟩)
    simp [ComposeCmd.allowed, hK] at hal

/-- A frozen stack stays as it is: once the status is UNINSTALLING, nobody unpauses. -/
theorem wp_dockerStopApp_frozen (h : Ready name .uninstalling K w) (hK : K.frozen = true) :
    (dockerStopApp name true).wp (Act E i) (fun r s' =>
      (∃ text, r = .error (.subprocessError text)) ∧ s'.world.stack name = K) ⟨w, log⟩ := by
  have hst := h.status_eq
  refine wp_dockerStopApp (hE.trans Env.obedient_le_reliable) (by simp [hst, stoppableStatus]) (by simp [hst]) ?_
  refine Prog.wp_bind_of (wp_compose_ready hE h .stop) ?_ ?_
  · rintro _ s₂ (⟨hal, -⟩ | ⟨-, ⟨_, ⟨⟩⟩, -⟩)
    simp [ComposeCmd.allowed, hK] at hal
  · rintro e s₂ (⟨-, ⟨⟩, -⟩ | ⟨-, ⟨text, ⟨⟩⟩, h₂⟩)
    exact ⟨⟨text, rfl⟩, h₂.stack_eq⟩

theorem wp_dockerShutdownApp_ready (h : Ready name .stopped K w) (hK : K.frozen = false) :
    (dockerShutdownApp name true false).wp (Act E i) (fun r s' => r = .ok () ∧
      s'.world.stack name = .empty) ⟨w, log⟩ := by
  have hst := h.status_eq
  refine wp_dockerShutdownApp (hE.trans Env.obedient_le_reliable) (by simp [hst]) (by simp [hst]) ?_
  refine Prog.wp_bind_of (wp_compose_ready hE h .down) ?_ ?_
  · rintro _ s₂ (⟨-, -, K', hK', h₂⟩ | ⟨-, ⟨_, ⟨⟩⟩, -⟩)
    obtain rfl : K' = .empty := by simpa [ComposeCmd.leaves] using hK'
    refine Prog.wp_bind_of (wp_writeStatus_ready hE h₂ .down) ?_ fun _ _ h => by cases h.1
    rintro _ s₃ ⟨-, h₃⟩
    exact Prog.wp_mono (wp_sendOnAppsUpdate_ready hE h₃) fun _ _ h => ⟨h.1, h.2.stack_eq⟩
  · rintro e s₂ (⟨-, ⟨⟩, -⟩ | ⟨hal, -⟩)
    simp [ComposeCmd.allowed, hK] at hal

/-! ## The request and the task -/

theorem wp_markQueued_ready (hrow : s.world.status name ≠ none)
    (hcompose : ∃ cc, s.world.appCompose name = .ok cc) :
    (updateAppStatus name .uninstallationQueued).wp (Act E i) (fun r s' => r = .ok () →
      Ready name .uninstallationQueued (s.world.stack name) s'.world) s := by
  refine wp_updateAppStatus (hE.trans Env.obedient_le_reliable) hrow fun _ => ?_
  refine (Prog.wp_perform _ _ _).mpr fun r s' ha hr => ?_
  have he := ha.undisturbed hE nofun nofun
  simp only [World.effect, Option.some.injEq, Prod.mk.injEq] at he
  obtain ⟨hm, hw⟩ := he
  rw [← hw]
  refine ⟨?_, rfl, hcompose, World.sendAppsUpdate_isOk.mp ?_⟩
  · obtain ⟨st, hst⟩ := Option.ne_none_iff_exists'.mp hrow
    rw [World.setStatus_status_self, hst, Option.map_some]
  · rw [hr] at hm
    cases hsend : (s.world.setStatus name .uninstallationQueued).sendAppsUpdate with
    | ok message => exact ⟨message, rfl⟩
    | error e =>
      rw [hsend] at hm
      cases hm

/-- An accepted request leaves the containers alone and the app ready for the worker. -/
theorem wp_uninstallApp_ready (hcompose : ∃ cc, s.world.appCompose name = .ok cc) :
    (uninstallApp name).wp (Act E i) (fun r s' => r = .ok () →
      Ready name .uninstallationQueued (s.world.stack name) s'.world) s := by
  have hEr := hE.trans Env.obedient_le_reliable
  refine (Prog.wp_bind _ _ _ _).mpr (wp_appExistsInDb hEr ?_)
  dsimp only
  by_cases hrow : s.world.installedApps.contains name = true
  · rw [raiseUnless_pos hrow, pure_bind]
    rw [InstalledApps.contains_eq, Option.isSome_iff_ne_none] at hrow
    refine Prog.wp_bind_of (wp_markQueued_ready hE hrow hcompose) ?_ nofun
    intro _ s₁ h₁
    refine (Prog.wp_bind _ _ _ _).mpr (wp_enqueue hEr ?_)
    obtain ⟨h₁₁, h₁₂, h₁₃, h₁₄⟩ := h₁ rfl
    refine Prog.wp_mono (wp_sendOnAppsUpdate_ready hE ?_) fun _ _ h _ => h.2
    exact ⟨h₁₁, h₁₂, h₁₃, h₁₄⟩
  · rw [raiseUnless_neg hrow]
    exact nofun

theorem wp_markUninstalling_ready (h : Ready name .uninstallationQueued K s.world) :
    (Worker.markUninstalling name).wp (Act E i)
      (fun r s' => r = .ok () ∧ Ready name .uninstalling K s'.world) s := by
  refine (Prog.wp_tryCatch _ _ _ _).mpr ((Prog.wp_bind _ _ _ _).mpr
    (wp_getAppFromDb (hE.trans Env.obedient_le_reliable) ?_))
  have hst := h.status_eq
  cases hrow : s.world.installedApps.getByName name with
  | none => simp [World.status, InstalledApps.status, hrow] at hst
  | some app =>
    have happ : app.status = .uninstallationQueued := by
      simpa [World.status, InstalledApps.status, hrow] using hst
    dsimp only
    rw [onlyIf_neg (by simp [happ]), pure_bind]
    refine Prog.wp_mono (wp_updateAppStatus_ready hE h .uninstalling) ?_
    rintro _ s' ⟨rfl, h'⟩
    exact ⟨rfl, h'⟩

theorem wp_stopAndShutdown_ready (h : Ready name .uninstalling K s.world) :
    (exceptException
      (do
        dockerStopApp name true
        dockerShutdownApp name true false)
      fun _ => pure ()).wp (Act E i)
      (fun r s' => r = .ok () ∧ s'.world.stack name = if K.frozen then K else .empty) s := by
  refine (Prog.wp_tryCatch _ _ _ _).mpr ((Prog.wp_bind _ _ _ _).mpr ?_)
  cases hK : K.frozen with
  | true =>
    refine Prog.wp_mono (wp_dockerStopApp_frozen hE h hK) ?_
    rintro _ s' ⟨⟨text, rfl⟩, hs⟩
    exact ⟨rfl, hs⟩
  | false =>
    refine Prog.wp_mono (wp_dockerStopApp_ready hE h hK) ?_
    rintro _ s₁ ⟨rfl, K', hK', h₁⟩
    refine Prog.wp_mono (wp_dockerShutdownApp_ready hE h₁ hK') ?_
    rintro _ s₂ ⟨rfl, hs⟩
    exact ⟨rfl, hs⟩

omit hE in
/-- Removing the directory and the row, and reporting it, leaves the containers alone. -/
theorem wp_cleanup_stack {K' : Stack} (hs : s.world.stack name = K') :
    (do
      awaitOp (.rmtree name)
      awaitOp (.remove name)
      writeTraefikDynConfig
      sendOnAppsUpdate : Coro Unit).wp (Act E i) (fun _ s' => s'.world.stack name = K') s := by
  have hb : Bounded { removes := true } name _ := Worker.bounds_cleanup rfl
  refine Prog.Uses.wp hb.uses (fun op hop w r w' hw ha => ?_) hs
  exact (ha.frame.stack name (hop.commands rfl _)).trans hw

/-- The whole task: what is left of the containers depends on whether they were frozen. -/
theorem wp_worker_uninstallApp (h : Ready name .uninstallationQueued K s.world) :
    (Worker.uninstallApp name).wp (Act E i) (fun _ s' =>
      s'.world.stack name = if K.frozen then K else .empty) s := by
  refine (Prog.wp_bind _ _ _ _).mpr ((Prog.wp_perform _ _ _).mpr fun r s₁ ha => ?_)
  obtain ⟨-, rfl, hw₁⟩ := ha.acquired (hE.trans Env.obedient_le_reliable)
  have h₁ : Ready name .uninstallationQueued K s₁.world := by
    rw [hw₁]
    exact ⟨h.status_eq, h.stack_eq, h.compose, h.notifiable⟩
  have hbody : (do
      Worker.markUninstalling name
      exceptException
        (do
          dockerStopApp name true
          dockerShutdownApp name true false)
        fun _ => pure ()
      awaitOp (.rmtree name)
      awaitOp (.remove name)
      writeTraefikDynConfig
      sendOnAppsUpdate : Coro Unit).wp (Act E i)
      (fun _ s' => s'.world.stack name = if K.frozen then K else .empty) s₁ := by
    refine Prog.wp_bind_of (wp_markUninstalling_ready hE h₁) ?_ nofun
    rintro _ s₂ ⟨-, h₂⟩
    refine Prog.wp_bind_of (wp_stopAndShutdown_ready hE h₂) ?_ nofun
    rintro _ s₃ ⟨-, h₃⟩
    exact wp_cleanup_stack h₃
  refine Prog.wp_tryFinally_of hbody fun r s₄ h₄ => (Prog.wp_perform _ _ _).mpr fun r' s₅ ha => ?_
  have h₅ := (ha.frame.stack name rfl).trans h₄
  cases r' <;> exact h₅

end Steps

/-- After an accepted `uninstall_app` and the worker's task no container is left, exactly if none
of the app's containers was paused when the request came in. -/
theorem uninstall_empties_iff {name : String} {request worker : Call} {s s₁ s₂ : State}
    {r : Except Exn Unit}
    (hfile : (s.world.appDirs name).any (·.compose) = true)
    (hreq : Prog.Exec (Act .obedient request) (uninstallApp name) s (.ok ()) s₁)
    (htask : Prog.Exec (Act .obedient worker) (Worker.process ⟨name, .uninstall⟩) s₁ r s₂) :
    s₂.world.containers name = .empty ↔ (s.world.containers name).frozen = false := by
  cases hproject : appProject name with
  | none => simp [World.containers, hproject, Stack.frozen, Stack.states, Stack.empty]
  | some project =>
    have hcompose : ∃ cc, s.world.appCompose name = .ok cc :=
      appComposeCommand_ok_iff.mpr ⟨hfile, by simp [hproject]⟩
    have hready := hreq.wp (wp_uninstallApp_ready le_rfl hcompose) rfl
    have hleft := htask.wp (wp_worker_uninstallApp le_rfl hready)
    rw [World.containers_eq hproject, World.containers_eq hproject, hleft]
    cases hK : (s.world.stack name).frozen with
    | false => simp
    | true =>
      have hne : s.world.stack name ≠ .empty := fun he => by
        rw [he] at hK
        cases hK
      simpa using hne

/-- A running app is stopped, shut down and gone. -/
theorem uninstall_empties_running : ∃ r s₁ s₂,
    Prog.Exec (Act .obedient ⟨.uninstallRequest, 0⟩) (uninstallApp "app")
      ⟨.withApp "app" .running (.single .running), []⟩ (.ok ()) s₁ ∧
    Prog.Exec (Act .obedient ⟨.worker, 0⟩) (Worker.process ⟨"app", .uninstall⟩) s₁ r s₂ ∧
    s₂.world.containers "app" = .empty := by
  obtain ⟨r, s₁, s₂, hreq, htask, -⟩ := State.exists_exec_then .obedient
    ⟨.uninstallRequest, 0⟩ ⟨.worker, 0⟩ (uninstallApp "app") (Worker.process ⟨"app", .uninstall⟩)
    ⟨.withApp "app" .running (.single .running), []⟩
    (List.replicate 5 Choice.proceed)
    (List.replicate 5 Choice.proceed ++ [Choice.docker (.ok ()) (.single .exited)] ++
      List.replicate 3 Choice.proceed ++ [Choice.docker (.ok ()) .empty] ++ List.replicate 9 Choice.proceed)
    (fun _ => true) (by decide)
  exact ⟨r, s₁, s₂, hreq, htask, (uninstall_empties_iff (by decide) hreq htask).mpr (by decide)⟩

/-- The containers are all running, all paused, all exited, or missing. -/
def Stack.Uniform (s : Stack) : Prop :=
  ∃ state ∈ [DockerState.running, .paused, .exited], ∀ st ∈ s.states, st = state

/-- A paused app's containers outlive the app. -/
theorem uninstall_leaves_paused : ¬ ∀ (name : String) (request worker : Call) (s s₁ s₂ : State)
    (r : Except Exn Unit), (s.world.appDirs name).any (·.compose) = true →
    (s.world.containers name).Uniform →
    Prog.Exec (Act .obedient request) (uninstallApp name) s (.ok ()) s₁ →
    Prog.Exec (Act .obedient worker) (Worker.process ⟨name, .uninstall⟩) s₁ r s₂ →
    s₂.world.containers name = .empty := by
  intro h
  obtain ⟨r, s₁, s₂, hreq, htask, hP⟩ := State.exists_exec_then .obedient
    ⟨.uninstallRequest, 0⟩ ⟨.worker, 0⟩ (uninstallApp "app") (Worker.process ⟨"app", .uninstall⟩)
    ⟨.withApp "app" .paused (.single .paused), []⟩
    (List.replicate 5 Choice.proceed)
    (List.replicate 5 Choice.proceed ++ [Choice.docker (.error "frozen") (.single .paused)] ++
      List.replicate 7 Choice.proceed)
    (fun s => s.world.containers "app" != .empty) (by decide)
  have hleft := h _ _ _ _ _ _ _ (by decide) ⟨.paused, by decide, by decide⟩ hreq htask
  rw [hleft] at hP
  exact absurd hP (by decide)

end Freeshard

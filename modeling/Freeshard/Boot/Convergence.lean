import Freeshard.Boot.Reconcile
import Freeshard.Service.Footprints

/-! # Finishing interrupted uninstalls

The next boot enqueues the interrupted uninstalls and the worker takes them up from wherever they stopped. If
nothing but Docker fails, this removes exactly their rows and directories, and doing the same once more changes
nothing. -/

namespace Freeshard
open Coroutine
set_option autoImplicit false

variable {i : Call} {s s' : State} {w w' w'' : World} {name : String}

/-! ## The traefik configuration -/

/-- An app with its metadata, if that can be read. -/
def World.appInfo (w : World) (app : InstalledApp) : Option (InstalledApp × AppMeta) :=
  (w.getAppMetadata app.name).toOption.map fun appMeta => (app, appMeta)

/-- What `write_traefik_dyn_config` writes if nothing disturbs it. -/
def World.appInfos (w : World) : List (InstalledApp × AppMeta) :=
  (w.installedApps.rows.filter fun app => app.status ∉ notRoutableStatus).filterMap w.appInfo

theorem World.appInfos_congr (hrows : w'.installedApps = w.installedApps) (hdirs : w'.appDirs = w.appDirs) :
    w'.appInfos = w.appInfos := by
  unfold appInfos appInfo getAppMetadata
  rw [hrows, hdirs]

theorem wp_appInfos (apps : List InstalledApp) : (Freeshard.appInfos apps).wp (Act .calm i)
    (fun r s' => r = .ok (apps.filterMap s.world.appInfo) ∧ s'.world = s.world) s := by
  induction apps generalizing s with
  | nil => exact ⟨rfl, rfl⟩
  | cons app apps ih =>
    have hinfo : (exceptException (do
          let appMeta ← getAppMetadata app.name
          pure [(app, appMeta)])
        fun _ => pure []).wp (Act .calm i)
        (fun r s' => r = .ok (s.world.appInfo app).toList ∧ s'.world = s.world) s := by
      refine wp_exceptException ((Prog.wp_bind _ _ _ _).mpr ((Prog.wp_perform _ _ _).mpr fun r s₁ ha => ?_))
      have he := ha.proceeded fun _ hc => hc
      obtain ⟨rfl, hw⟩ := Prod.mk.inj (Option.some.inj he)
      unfold World.appInfo
      cases hmeta : s.world.getAppMetadata app.name with
      | ok appMeta => exact ⟨rfl, hw.symm⟩
      | error e =>
        simp only [World.getAppMetadata_isException hmeta, if_true]
        exact ⟨rfl, hw.symm⟩
    refine Prog.wp_bind_of hinfo (fun info s₁ h₁ => ?_) fun _ _ h => by cases h.1
    obtain ⟨hresult, hw₁⟩ := h₁
    obtain rfl := Except.ok.inj hresult
    refine Prog.wp_bind_of ih (fun infos s₂ h₂ => ?_) fun _ _ h => by cases h.1
    obtain ⟨hresult, hw₂⟩ := h₂
    obtain rfl := Except.ok.inj hresult
    refine ⟨?_, hw₂.trans hw₁⟩
    rw [hw₁, List.filterMap_cons]
    cases s.world.appInfo app <;> rfl

theorem wp_writeTraefikDynConfig (hidentity : s.world.defaultIdentity ≠ none) :
    writeTraefikDynConfig.wp (Act .calm i)
      (fun r s' => r = .ok () ∧ s'.world = { s.world with traefikDyn := s.world.appInfos }) s := by
  refine (Prog.wp_bind _ _ _ _).mpr ((Prog.wp_perform _ _ _).mpr fun r s₁ ha => ?_)
  obtain ⟨rfl, hw₁⟩ := ha.gotAll Env.calm_le_reliable
  refine Prog.wp_bind_of (wp_appInfos _) (fun infos s₂ h₂ => ?_) fun _ _ h => by cases h.1
  obtain ⟨hinfos, hw₂⟩ := h₂
  have hidentity' : getDefaultIdentity.wp (Act .calm i)
      (fun r s' => r.isOk = true ∧ s'.world = s₂.world) s₂ := by
    refine (Prog.wp_bind _ _ _ _).mpr ((Prog.wp_perform _ _ _).mpr fun r s₃ ha => ?_)
    obtain ⟨rfl, hw₃⟩ := Prod.mk.inj (Option.some.inj (ha.proceeded fun _ hc => hc))
    obtain ⟨identity, hid⟩ := Option.ne_none_iff_exists'.mp hidentity
    rw [hw₂, hw₁, hid]
    exact ⟨rfl, by rw [← hw₃, hw₂, hw₁]⟩
  refine Prog.wp_bind_of hidentity' (fun _ s₃ h₃ => ?_) fun _ _ h => by cases h.1
  refine (Prog.wp_perform _ _ _).mpr fun r s₄ ha => ?_
  obtain ⟨rfl, hw₄⟩ := Prod.mk.inj (Option.some.inj (ha.proceeded fun _ hc => hc))
  refine ⟨rfl, ?_⟩
  rw [← hw₄, h₃.2, hw₂, hw₁, Except.ok.inj hinfos, hw₁]
  rfl

/-! ## The teardown -/

theorem wp_sendOnAppsUpdate_calm : sendOnAppsUpdate.wp (Act .calm i)
    (fun r s' => r = .ok () ∧ s'.world = s.world) s := by
  refine (Prog.wp_perform _ _ _).mpr fun r s' ha => ?_
  obtain ⟨c, hc, he⟩ := ha.inv
  obtain ⟨rfl, hnotifiable⟩ := hc
  obtain ⟨message, hmessage⟩ := World.sendAppsUpdate_isOk.mpr hnotifiable
  simp only [World.exec, World.effect, hmessage, Option.some.injEq, Prod.mk.injEq] at he
  exact ⟨he.1.symm, he.2.symm⟩

/-- The operations of a teardown before anything is deleted. -/
def Op.tearsDown (name : String) : Op → Prop
  | .getByName other => other = name
  | .updateStatus other _ => other = name
  | .compose other _ => other = name
  | .onAppsUpdate => True
  | _ => False

/-- A teardown on its way: but for the row and the containers of the app nothing has changed. -/
structure Midway (name : String) (w w' : World) : Prop where
  removed : w'.installedApps.remove name = w.installedApps.remove name
  others : w' = { w with installedApps := w'.installedApps, projects := w'.projects }

theorem Midway.refl (name : String) (w : World) : Midway name w w := ⟨rfl, rfl⟩

theorem Midway.trans (h : Midway name w w') (h' : Midway name w' w'') : Midway name w w'' where
  removed := h'.removed.trans h.removed
  others := by
    rw [h'.others, h.others]

theorem Midway.setStatus (h : Midway name w w') (status : Status) :
    Midway name w (w'.setStatus name status) where
  removed := (InstalledApps.remove_updateStatus _ _ _).trans h.removed
  others := by
    unfold World.setStatus
    rw [h.others]

theorem Midway.step {op : Op} {r : Answer op} (hop : op.tearsDown name) (h : Midway name w s.world)
    (ha : Act .calm i s op r s') : Midway name w s'.world := by
  cases op with
  | getByName other =>
    rw [(ha.gotByName Env.calm_le_reliable).2]
    exact h
  | updateStatus other status =>
    obtain rfl : other = name := hop
    rw [(ha.updatedStatus Env.calm_le_reliable).2]
    exact h.setStatus status
  | compose other cmd =>
    obtain hw | ⟨K, hw⟩ := ha.composed_world
    · rw [hw]
      exact h
    · rw [hw]
      refine ⟨h.removed, ?_⟩
      unfold World.setStack
      rw [h.others]
  | onAppsUpdate =>
    rw [ha.notified]
    exact h
  | _ => exact absurd hop id

theorem Midway.wp {p : Coro Unit} (hp : p.Uses (Op.tearsDown name)) :
    p.wp (Act .calm i) (fun _ s' => Midway name s.world s'.world) s :=
  Prog.Uses.wp hp (fun _ hop _ _ _ h ha => h.step hop ha) (Midway.refl name s.world)

theorem wp_markUninstalling_calm (hpaused : s.world.status name ≠ some .paused) :
    (Worker.markUninstalling name).wp (Act .calm i) (fun r s' => r = .ok () ∧
      Midway name s.world s'.world ∧ (s.world.status name = none → s'.world = s.world)) s := by
  refine (Prog.wp_tryCatch _ _ _ _).mpr ((Prog.wp_bind _ _ _ _).mpr
    (wp_getAppFromDb Env.calm_le_reliable ?_))
  cases hrow : s.world.installedApps.getByName name with
  | none => exact ⟨rfl, .refl _ _, fun _ => rfl⟩
  | some app =>
    have hstatus : s.world.status name = some app.status := by
      simp [World.status, InstalledApps.status, hrow]
    have happ : app.status ≠ .paused := fun h => hpaused (by rw [hstatus, h])
    dsimp only
    rw [onlyIf_neg happ, pure_bind]
    refine wp_updateAppStatus Env.calm_le_reliable (by simp [hstatus]) fun row => ?_
    refine Prog.wp_mono wp_sendOnAppsUpdate_calm ?_
    rintro _ s' ⟨rfl, hw⟩
    refine ⟨rfl, ?_, fun hnone => ?_⟩
    · rw [hw]
      exact (Midway.refl name _).setStatus _
    · rw [hstatus] at hnone
      cases hnone

theorem uses_onlyIf {φ : Op → Prop} {c : Prop} [Decidable c] {body : Coro Unit} (h : body.Uses φ) :
    (onlyIf c body).Uses φ := by
  unfold onlyIf
  split
  · exact h
  · trivial

theorem tearsDown_perform {op : Op} (h : op.tearsDown name) :
    (awaitOp op).Uses (Op.tearsDown name) := (Prog.uses_perform op).mpr h

theorem tearsDown_readStatus : (readStatus name).Uses (Op.tearsDown name) :=
  (tearsDown_perform (by rfl)).bind fun _ => trivial

theorem tearsDown_writeStatus (status : Status) :
    (writeStatus name status).Uses (Op.tearsDown name) :=
  (tearsDown_perform (by rfl)).bind fun _ => trivial

theorem tearsDown_dockerUnpauseApp : (dockerUnpauseApp name).Uses (Op.tearsDown name) := by
  refine tearsDown_readStatus.bind fun _ => uses_onlyIf ((tearsDown_perform (by rfl)).bind fun _ => ?_)
  exact (tearsDown_writeStatus _).bind fun _ => tearsDown_perform (by trivial)

theorem tearsDown_dockerStopApp (setStatus : Bool) :
    (dockerStopApp name setStatus).Uses (Op.tearsDown name) := by
  refine tearsDown_readStatus.bind fun _ => uses_onlyIf ?_
  refine (uses_onlyIf (tearsDown_perform (by rfl))).bind fun _ => (tearsDown_perform (by rfl)).bind fun _ => ?_
  exact (uses_onlyIf (tearsDown_writeStatus _)).bind fun _ => tearsDown_perform (by trivial)

theorem tearsDown_dockerShutdownApp (setStatus force : Bool) :
    (dockerShutdownApp name setStatus force).Uses (Op.tearsDown name) := by
  refine tearsDown_readStatus.bind fun _ => uses_onlyIf ?_
  refine (uses_onlyIf (tearsDown_perform (by rfl))).bind fun _ => (tearsDown_perform (by rfl)).bind fun _ => ?_
  exact (uses_onlyIf (tearsDown_writeStatus _)).bind fun _ => tearsDown_perform (by trivial)

/-- Stopping and shutting down, which may fail at any command, touches only the row and the containers. -/
theorem wp_stopAndShutdown_calm : (exceptException
      (do
        dockerStopApp name true
        dockerShutdownApp name true false)
      fun _ => pure ()).wp (Act .calm i) (fun r s' => r = .ok () ∧
        Midway name s.world s'.world ∧ (s.world.status name = none → s'.world = s.world)) s := by
  by_cases habsent : s.world.status name = none
  · have hskip : (do
          dockerStopApp name true
          dockerShutdownApp name true false : Coro Unit).wp (Act .calm i)
        (fun r s' => s'.world = s.world ∧ ∀ e, r = .error e → e.isException = true) s := by
      refine (Prog.wp_bind _ _ _ _).mpr (wp_dockerStopApp_skip Env.calm_le_reliable ?_ ?_)
      · simp [habsent, stoppableStatus]
      · refine wp_dockerShutdownApp_skip Env.calm_le_reliable ?_ ⟨rfl, fun _ h => by cases h⟩
        change s.world.status name ≠ _ ∧ s.world.status name ≠ _
        simp [habsent]
    refine Prog.wp_mono (wp_swallow_ok hskip) fun r s' h => ⟨h.1, ?_, fun _ => h.2⟩
    rw [h.2]
    exact .refl name _
  · have huses : (do
          dockerStopApp name true
          dockerShutdownApp name true false : Coro Unit).Uses (Op.tearsDown name) :=
      (tearsDown_dockerStopApp _).bind fun _ => tearsDown_dockerShutdownApp _ _
    have hbounded : Bounded { statuses := [.stopped, .down], commands := [.unpause, .stop, .down] } name
        (do
          dockerStopApp name true
          dockerShutdownApp name true false : Coro Unit) :=
      .bind ((bounds_dockerStopApp true).mono (by decide)) fun _ =>
        (bounds_dockerShutdownApp true false).mono (by decide)
    have hraises : (do
          dockerStopApp name true
          dockerShutdownApp name true false : Coro Unit).wp (Act .calm i)
        (fun r _ => ∀ e, r = .error e → e.isException = true) s :=
      hbounded.raises.wp (fun _ _ _ _ ha => ha.isException Env.calm_le_uncancelled) s
    have hswallow := wp_swallow_ok (P := fun s' => Midway name s.world s'.world)
      (Prog.wp_and (Midway.wp huses) hraises)
    refine Prog.wp_mono hswallow fun r s' h => ?_
    exact ⟨h.1, h.2, fun hnone => absurd hnone habsent⟩

/-! ## One task -/

/-- What an uninstall leaves: the row and the directory are gone, and nothing else has changed but the containers
of an app that was there and the configuration. -/
structure Uninstalled (name : String) (w w' : World) : Prop where
  rows : w'.installedApps = w.installedApps.remove name
  dirs : w'.appDirs = Function.update w.appDirs name none
  config : w'.traefikDyn = w'.appInfos
  projects : w.status name = none → w'.projects = w.projects
  others : w' = { w with installedApps := w'.installedApps, appDirs := w'.appDirs,
                         projects := w'.projects, traefikDyn := w'.traefikDyn }

theorem wp_cleanup_calm (hidentity : s.world.defaultIdentity ≠ none) : (do
      awaitOp (.rmtree name)
      awaitOp (.remove name)
      writeTraefikDynConfig
      sendOnAppsUpdate : Coro Unit).wp (Act .calm i)
      (fun r s' => r = .ok () ∧ Uninstalled name s.world s'.world ∧ s'.world.projects = s.world.projects) s := by
  refine (Prog.wp_bind _ _ _ _).mpr ((Prog.wp_perform _ _ _).mpr fun r s₁ ha => ?_)
  obtain ⟨rfl, hw₁⟩ := Prod.mk.inj (Option.some.inj (ha.proceeded fun _ hc => hc))
  refine (Prog.wp_bind _ _ _ _).mpr ((Prog.wp_perform _ _ _).mpr fun r s₂ ha => ?_)
  obtain ⟨rfl, hw₂⟩ := ha.removed Env.calm_le_reliable
  have hidentity₂ : s₂.world.defaultIdentity ≠ none := by
    rw [hw₂, ← hw₁]
    exact hidentity
  refine Prog.wp_bind_of (wp_writeTraefikDynConfig hidentity₂) (fun _ s₃ h₃ => ?_) fun _ _ h => by cases h.1
  refine Prog.wp_mono wp_sendOnAppsUpdate_calm ?_
  rintro _ s' ⟨rfl, hw'⟩
  have hworld : s'.world = { s.world with
      installedApps := s.world.installedApps.remove name
      appDirs := Function.update s.world.appDirs name none
      traefikDyn := s₂.world.appInfos } := by
    rw [hw', h₃.2, hw₂, ← hw₁]
    rfl
  refine ⟨rfl, ⟨?_, ?_, ?_, fun _ => ?_, ?_⟩, ?_⟩
  · rw [hworld]
  · rw [hworld]
  · rw [hw', h₃.2]
    exact (World.appInfos_congr rfl rfl).symm
  · rw [hworld]
  · rw [hworld]
  · rw [hworld]

theorem wp_uninstallApp_calm (hidentity : s.world.defaultIdentity ≠ none)
    (hpaused : s.world.status name ≠ some .paused) :
    (Worker.uninstallApp name).wp (Act .calm i)
      (fun r s' => r = .ok () ∧ Uninstalled name s.world s'.world) s := by
  refine (Prog.wp_bind _ _ _ _).mpr ((Prog.wp_perform _ _ _).mpr fun r s₁ ha => ?_)
  obtain ⟨hfree, rfl, hw₁⟩ := ha.acquired Env.calm_le_reliable
  have hbody : (do
      Worker.markUninstalling name
      exceptException
        (do
          dockerStopApp name true
          dockerShutdownApp name true false)
        fun _ => pure ()
      awaitOp (.rmtree name)
      awaitOp (.remove name)
      writeTraefikDynConfig
      sendOnAppsUpdate : Coro Unit).wp (Act .calm i)
      (fun r s' => r = .ok () ∧ Uninstalled name s₁.world s'.world) s₁ := by
    have hpaused₁ : s₁.world.status name ≠ some .paused := by
      rw [hw₁]
      exact hpaused
    refine Prog.wp_bind_of (wp_markUninstalling_calm hpaused₁) (fun _ s₂ h₂ => ?_) fun _ _ h => by cases h.1
    obtain ⟨-, hmid₂, habsent₂⟩ := h₂
    refine Prog.wp_bind_of wp_stopAndShutdown_calm (fun _ s₃ h₃ => ?_) fun _ _ h => by cases h.1
    obtain ⟨-, hmid₃, habsent₃⟩ := h₃
    have hmid := hmid₂.trans hmid₃
    have hidentity₃ : s₃.world.defaultIdentity ≠ none := by
      rw [hmid.others, hw₁]
      exact hidentity
    refine Prog.wp_mono (wp_cleanup_calm hidentity₃) fun r s' h => ⟨h.1, ?_⟩
    obtain ⟨-, hgone, hprojects⟩ := h
    refine ⟨hgone.rows.trans hmid.removed, ?_, hgone.config, fun hnone => ?_, ?_⟩
    · rw [hgone.dirs, hmid.others]
    · have hworld₂ := habsent₂ hnone
      rw [hprojects, habsent₃ (by rw [hworld₂, hnone]), hworld₂]
    · rw [hgone.others, hmid.others]
  refine Prog.wp_tryFinally_of hbody fun r s₂ h₂ => (Prog.wp_perform _ _ _).mpr fun r' s' ha => ?_
  obtain ⟨rfl, hgone⟩ := h₂
  obtain ⟨-, rfl, hw'⟩ := ha.released Env.calm_le_reliable
  refine ⟨rfl, ?_⟩
  have hlocks : Function.update (Function.update s.world.opLocks name (some i)) name none =
      s.world.opLocks := by
    rw [Function.update_idem, ← hfree, Function.update_eq_self]
  have hrows := hgone.rows
  have hdirs := hgone.dirs
  have hothers := hgone.others
  rw [hw₁] at hrows hdirs hothers
  refine ⟨?_, ?_, ?_, fun hnone => ?_, ?_⟩
  · rw [hw']
    exact hrows
  · rw [hw']
    exact hdirs
  · rw [hw']
    exact hgone.config.trans (World.appInfos_congr rfl rfl)
  · rw [hw']
    exact hgone.projects (by rw [hw₁]; exact hnone) |>.trans (by rw [hw₁]; rfl)
  · rw [hw', hothers]
    unfold World.setLock
    simp only [hlocks]

/-! ## All tasks -/

/-- What the uninstalls of these apps leave. -/
structure Drained (names : List String) (w w' : World) : Prop where
  rows : w'.installedApps.rows = w.installedApps.rows.filter fun app => app.name ∉ names
  dirs : ∀ name, w'.appDirs name = if name ∈ names then none else w.appDirs name
  config : w'.traefikDyn = if names = [] then w.traefikDyn else w'.appInfos
  projects : (∀ name ∈ names, w.status name = none) → w'.projects = w.projects
  others : w' = { w with installedApps := w'.installedApps, appDirs := w'.appDirs,
                         projects := w'.projects, traefikDyn := w'.traefikDyn,
                         taskQueue := [], currentTask := none }

theorem Drained.nil (hqueue : w.taskQueue = []) (hcurrent : w.currentTask = none) : Drained [] w w where
  rows := by simp
  dirs _ := by simp
  config := by rw [if_pos rfl]
  projects _ := rfl
  others := by
    rw [← hqueue, ← hcurrent]

theorem Uninstalled.status_of_eq (h : Uninstalled name w w') {other : String} {status : Status}
    (hstatus : w'.status other = some status) : w.status other = some status := by
  unfold World.status at hstatus
  rw [h.rows] at hstatus
  by_cases hname : other = name
  · rw [hname, InstalledApps.status_remove_self] at hstatus
    cases hstatus
  · rw [InstalledApps.status_remove_ne _ hname] at hstatus
    exact hstatus

theorem Drained.cons {names : List String} {tasks : List InstallationTask}
    {current : Option InstallationTask} {w₁ : World}
    (h₁ : Uninstalled name { w with taskQueue := tasks, currentTask := current } w₁)
    (h : Drained names { w₁ with currentTask := none } w') : Drained (name :: names) w w' where
  rows := by
    rw [h.rows]
    change w₁.installedApps.rows.filter _ = _
    rw [h₁.rows]
    unfold InstalledApps.remove
    rw [List.filter_filter]
    refine List.filter_congr fun app _ => ?_
    by_cases hname : app.name = name <;> simp [hname]
  dirs other := by
    have hdirs := h.dirs other
    change w'.appDirs other = if other ∈ names then none else w₁.appDirs other at hdirs
    rw [hdirs, h₁.dirs]
    by_cases hname : other = name
    · simp [hname]
    · rw [Function.update_of_ne hname]
      simp [hname]
  config := by
    have hconfig := h.config
    rw [if_neg (List.cons_ne_nil _ _)]
    by_cases hnil : names = []
    · rw [if_pos hnil] at hconfig
      rw [hconfig]
      refine h₁.config.trans (World.appInfos_congr ?_ ?_)
      · apply InstalledApps.ext
        rw [h.rows, hnil]
        simp
      · funext other
        rw [h.dirs, hnil]
        simp
    · rw [if_neg hnil] at hconfig
      exact hconfig
  projects hnone := by
    have hprojects := h₁.projects (hnone name List.mem_cons_self)
    rw [h.projects, hprojects]
    intro other hother
    cases hother' : w₁.status other with
    | none => exact hother'
    | some status =>
      have hrow : w.status other = some status := h₁.status_of_eq hother'
      rw [hnone other (List.mem_cons_of_mem _ hother)] at hrow
      cases hrow
  others := by
    rw [h.others, h₁.others]

theorem wp_processCurrent_calm {tasks : List InstallationTask} {current : Option InstallationTask}
    (hworld : s.world = { w with taskQueue := tasks, currentTask := current })
    (hidentity : w.defaultIdentity ≠ none) (hpaused : w.status name ≠ some .paused) :
    (Worker.processCurrent ⟨name, .uninstall⟩).wp (Act .calm i) (fun r s' => r = .ok () ∧ ∃ w₁,
      Uninstalled name { w with taskQueue := tasks, currentTask := current } w₁ ∧
        s'.world = { w₁ with currentTask := none }) s := by
  have htask : (Worker.process ⟨name, .uninstall⟩).wp (Act .calm i)
      (fun r s' => r = .ok () ∧ Uninstalled name s.world s'.world) s :=
    wp_uninstallApp_calm (by rw [hworld]; exact hidentity) (by rw [hworld]; exact hpaused)
  have hbody : (exceptException (Worker.process ⟨name, .uninstall⟩) fun _ => pure ()).wp (Act .calm i)
      (fun r s' => r = .ok () ∧ Uninstalled name s.world s'.world) s := by
    refine wp_exceptException (Prog.wp_mono htask ?_)
    rintro _ s' ⟨rfl, h⟩
    exact ⟨rfl, h⟩
  refine Prog.wp_tryFinally_of hbody fun r s₁ h₁ => (Prog.wp_perform _ _ _).mpr fun r' s' ha => ?_
  obtain ⟨rfl, hgone⟩ := h₁
  obtain ⟨rfl, hw'⟩ := ha.finished Env.calm_le_reliable
  rw [hworld] at hgone
  exact ⟨rfl, s₁.world, hgone, hw'⟩

theorem wp_run_calm {names : List String}
    (hqueue : s.world.taskQueue = names.map fun name => ⟨name, .uninstall⟩)
    (hcurrent : s.world.currentTask = none) (hidentity : s.world.defaultIdentity ≠ none)
    (hpaused : ∀ name ∈ names, s.world.status name ≠ some .paused) :
    (Worker.run names.length).wp (Act .calm i)
      (fun r s' => r = .ok () ∧ Drained names s.world s'.world) s := by
  induction names generalizing s with
  | nil => exact ⟨rfl, .nil hqueue hcurrent⟩
  | cons name names ih =>
    refine (Prog.wp_bind _ _ _ _).mpr ((Prog.wp_perform _ _ _).mpr fun r s₁ ha => ?_)
    obtain ⟨task, tasks, hq, rfl, hw₁⟩ := ha.dequeued Env.calm_le_reliable
    rw [hqueue] at hq
    obtain ⟨rfl, rfl⟩ := List.cons.inj hq
    refine Prog.wp_bind_of (wp_processCurrent_calm hw₁ hidentity (hpaused name List.mem_cons_self))
      (fun _ s₂ h₂ => ?_) fun _ _ h => by cases h.1
    obtain ⟨-, w₁, hgone, hw₂⟩ := h₂
    have hkept : s₂.world.defaultIdentity = s.world.defaultIdentity ∧
        s₂.world.taskQueue = names.map fun name => ⟨name, .uninstall⟩ := by
      rw [hw₂, hgone.others]
      exact ⟨rfl, rfl⟩
    refine Prog.wp_mono (ih hkept.2 (by rw [hw₂]) (by rw [hkept.1]; exact hidentity) ?_) fun r s' h => ?_
    · intro other hother hpause
      rw [hw₂] at hpause
      exact hpaused other (List.mem_cons_of_mem _ hother) (hgone.status_of_eq hpause)
    · obtain ⟨rfl, hdrained⟩ := h
      rw [hw₂] at hdrained
      exact ⟨rfl, .cons hgone hdrained⟩

/-! ## Nothing blocks -/

/-- The operations of an uninstall under its op lock. -/
def Op.uninstalls (name : String) (op : Op) : Prop :=
  op.tearsDown name ∨ op = .rmtree name ∨ op = .remove name ∨ op = .getAll ∨ op = .getDefaultIdentity ∨
    (∃ other, op = .getAppMetadata other) ∨ ∃ apps, op = .writeTraefikDyn apps

theorem Op.tearsDown.uninstalls {op : Op} (h : op.tearsDown name) : op.uninstalls name := .inl h

theorem uninstalls_updateAppStatus (status : Status) :
    (updateAppStatus name status).Uses (Op.uninstalls name) := by
  refine Prog.Uses.bind ((Prog.uses_perform _).mpr (.inl rfl)) fun row => ?_
  cases row
  · trivial
  · exact (Prog.uses_perform _).mpr (.inl trivial)

theorem uninstalls_markUninstalling : (Worker.markUninstalling name).Uses (Op.uninstalls name) := by
  refine Prog.Uses.tryCatch ?_ fun e => by cases e <;> trivial
  have hrow : (getAppFromDb name).Uses (Op.uninstalls name) := by
    refine Prog.Uses.bind ((Prog.uses_perform _).mpr (.inl rfl)) fun row => ?_
    cases row <;> trivial
  have hunpause : (dockerUnpauseApp name).Uses (Op.uninstalls name) :=
    tearsDown_dockerUnpauseApp.mono fun _ => Op.tearsDown.uninstalls
  exact hrow.bind fun _ => (uses_onlyIf hunpause).bind fun _ => uninstalls_updateAppStatus _

theorem uninstalls_writeTraefikDynConfig : writeTraefikDynConfig.Uses (Op.uninstalls name) := by
  have hinfos : ∀ apps, (Freeshard.appInfos apps).Uses (Op.uninstalls name) := by
    intro apps
    induction apps with
    | nil => trivial
    | cons app apps ih =>
      refine Prog.Uses.bind (Prog.Uses.tryCatch ?_ fun e => ?_) fun _ => ih.bind fun _ => trivial
      · exact Prog.Uses.bind ((Prog.uses_perform _).mpr (by simp [Op.uninstalls])) fun _ => trivial
      · split <;> trivial
  refine Prog.Uses.bind ((Prog.uses_perform _).mpr (by simp [Op.uninstalls])) fun _ => (hinfos _).bind fun _ => ?_
  refine Prog.Uses.bind ?_ fun _ => (Prog.uses_perform _).mpr (by simp [Op.uninstalls])
  refine Prog.Uses.bind ((Prog.uses_perform _).mpr (by simp [Op.uninstalls])) fun row => ?_
  cases row <;> trivial

theorem uninstalls_body : (do
      Worker.markUninstalling name
      exceptException
        (do
          dockerStopApp name true
          dockerShutdownApp name true false)
        fun _ => pure ()
      awaitOp (.rmtree name)
      awaitOp (.remove name)
      writeTraefikDynConfig
      sendOnAppsUpdate : Coro Unit).Uses (Op.uninstalls name) := by
  have hstop : (exceptException
      (do
        dockerStopApp name true
        dockerShutdownApp name true false)
      fun _ => pure ()).Uses (Op.tearsDown name) := by
    refine Prog.Uses.tryCatch ((tearsDown_dockerStopApp _).bind fun _ => tearsDown_dockerShutdownApp _ _)
      fun e => ?_
    split <;> trivial
  refine uninstalls_markUninstalling.bind fun _ => ?_
  refine (hstop.mono fun _ => Op.tearsDown.uninstalls).bind fun _ => ?_
  refine Prog.Uses.bind ((Prog.uses_perform _).mpr (by simp [Op.uninstalls])) fun _ => ?_
  refine Prog.Uses.bind ((Prog.uses_perform _).mpr (by simp [Op.uninstalls])) fun _ => ?_
  exact uninstalls_writeTraefikDynConfig.bind fun _ => (Prog.uses_perform _).mpr (.inl trivial)

theorem World.Notifiable.remove (h : w.Notifiable) (name : String) :
    World.Notifiable { w with installedApps := w.installedApps.remove name } := by
  refine h.mono (fun other hmem => ?_) rfl
  obtain ⟨app, happ, rfl⟩ := List.mem_map.mp hmem
  exact List.mem_map_of_mem (List.mem_filter.mp happ).1

theorem World.Notifiable.setDir_none (h : w.Notifiable) (name : String) :
    (w.setDir name none).Notifiable := by
  intro app happ dir reason hdir
  change Function.update w.appDirs name none app.name = some dir at hdir
  by_cases hname : app.name = name
  · rw [hname, Function.update_self] at hdir
    cases hdir
  · rw [Function.update_of_ne hname] at hdir
    exact h app happ dir reason hdir

theorem Op.uninstalls.notifiable {op : Op} {r : Answer op} (hop : op.uninstalls name)
    (h : s.world.Notifiable) (ha : Act .calm i s op r s') : s'.world.Notifiable := by
  obtain hop | rfl | rfl | rfl | rfl | ⟨_, rfl⟩ | ⟨_, rfl⟩ := hop
  · cases op with
    | updateStatus other status =>
      rw [(ha.updatedStatus Env.calm_le_reliable).2]
      exact h.setStatus other status
    | getByName other =>
      rw [(ha.gotByName Env.calm_le_reliable).2]
      exact h
    | onAppsUpdate =>
      rw [ha.notified]
      exact h
    | compose other cmd =>
      obtain hw | ⟨K, hw⟩ := ha.composed_world
      · rw [hw]
        exact h
      · rw [hw]
        exact h
    | _ => exact absurd hop id
  · rw [← (Prod.mk.inj (Option.some.inj (ha.proceeded fun _ hc => hc))).2]
    exact h.setDir_none name
  · rw [(ha.removed Env.calm_le_reliable).2]
    exact h.remove name
  · rw [(ha.gotAll Env.calm_le_reliable).2]
    exact h
  · rw [← (Prod.mk.inj (Option.some.inj (ha.proceeded fun _ hc => hc))).2]
    exact h
  · rw [← (Prod.mk.inj (Option.some.inj (ha.proceeded fun _ hc => hc))).2]
    exact h
  · rw [← (Prod.mk.inj (Option.some.inj (ha.proceeded fun _ hc => hc))).2]
    exact h

theorem Op.uninstalls.progress {op : Op} (hop : op.uninstalls name) (h : s.world.Notifiable) :
    ∃ r s', Act .calm i s op r s' := by
  obtain hop | rfl | rfl | rfl | rfl | ⟨_, rfl⟩ | ⟨_, rfl⟩ := hop
  · cases op with
    | compose other cmd =>
      cases hcompose : s.world.appCompose other with
      | error e =>
        have heffect : s.world.effect i (.compose other cmd) = some (.error e, s.world) := by
          simp only [World.effect, hcompose]
        exact ⟨_, _, act_of_effect (by simp [Env.calm, Choice.raised]) heffect⟩
      | ok c =>
        have hexec : s.world.exec i (.compose other cmd) (.docker (.ok ()) .empty) =
            some (.ok (), s.world.setStack c.project .empty) := by
          simp only [World.exec, hcompose]
          rfl
        exact ⟨_, _, _, _, by simp [Env.calm, Choice.raised], hexec, rfl⟩
    | onAppsUpdate => exact ⟨_, _, act_of_effect ⟨rfl, h⟩ rfl⟩
    | getByName other | updateStatus other status => exact ⟨_, _, act_of_effect rfl rfl⟩
    | _ => exact absurd hop id
  all_goals exact ⟨_, _, act_of_effect rfl rfl⟩

theorem Op.uninstalls.locks {op : Op} (hop : op.uninstalls name) (other : String) :
    op.locks other = false := by
  obtain hop | rfl | rfl | rfl | rfl | ⟨_, rfl⟩ | ⟨_, rfl⟩ := hop
  · cases op <;> first | rfl | exact absurd hop id
  all_goals rfl

theorem unblocked_uninstallApp (hnotifiable : s.world.Notifiable) (hfree : s.world.opLocks name = none) :
    (Worker.uninstallApp name).Unblocked (Act .calm i) s := by
  have hacquire : s.world.effect i (.acquire name) = some (.ok (), s.world.setLock name (some i)) := by
    simp only [World.effect, hfree, if_true]
  refine (Prog.unblocked_perform ⟨_, _, act_of_effect rfl hacquire⟩).bind
    (Prog.wpOk_perform fun _ s₁ ha => ?_)
  obtain ⟨-, -, hw₁⟩ := ha.acquired Env.calm_le_reliable
  have hstep : ∀ op, Op.uninstalls name op → ∀ (v : State) (r : Answer op) (v' : State),
      v.world.Notifiable ∧ v.world.opLocks name = some i → Act .calm i v op r v' →
      v'.world.Notifiable ∧ v'.world.opLocks name = some i := by
    intro op hop v r v' hv hact
    refine ⟨hop.notifiable hv.1 hact, ?_⟩
    rw [hact.frame.opLocks name (hop.locks name)]
    exact hv.2
  have hstart : s₁.world.Notifiable ∧ s₁.world.opLocks name = some i := by
    rw [hw₁]
    exact ⟨hnotifiable, World.setLock_opLocks_self ..⟩
  refine Prog.Unblocked.tryFinally
    (uninstalls_body.unblocked hstep (fun op hop v hv => hop.progress hv.1) hstart) ?_
  refine Prog.wp_mono (uninstalls_body.wp hstep hstart) fun _ s₂ h₂ => ?_
  have hrelease : s₂.world.effect i (.release name) = some (.ok (), s₂.world.setLock name none) := by
    simp only [World.effect, h₂.2, if_true]
  exact Prog.unblocked_perform ⟨_, _, act_of_effect rfl hrelease⟩

theorem Uninstalled.notifiable (h : Uninstalled name w w') (hnotifiable : w.Notifiable) : w'.Notifiable := by
  rw [h.others]
  refine ((hnotifiable.setDir_none name).remove name).mono ?_ ?_
  · change w'.installedApps.rows.map _ ⊆ _
    rw [h.rows]
    exact List.Subset.refl _
  · exact h.dirs

theorem unblocked_run {names : List String}
    (hqueue : s.world.taskQueue = names.map fun name => ⟨name, .uninstall⟩)
    (hidentity : s.world.defaultIdentity ≠ none) (hnotifiable : s.world.Notifiable)
    (hfree : ∀ name, s.world.opLocks name = none)
    (hpaused : ∀ name ∈ names, s.world.status name ≠ some .paused) :
    (Worker.run names.length).Unblocked (Act .calm i) s := by
  induction names generalizing s with
  | nil => trivial
  | cons name names ih =>
    have hdequeue : s.world.effect i .dequeue = some (.ok ⟨name, .uninstall⟩, { s.world with
        taskQueue := names.map fun name => ⟨name, .uninstall⟩
        currentTask := some ⟨name, .uninstall⟩ }) := by
      simp only [World.effect, hqueue, List.map_cons]
    refine (Prog.unblocked_perform ⟨_, _, act_of_effect rfl hdequeue⟩).bind
      (Prog.wpOk_perform fun task s₁ ha => ?_)
    obtain ⟨htask, hw₁⟩ := Prod.mk.inj (Option.some.inj
      (hdequeue.symm.trans (ha.internal Env.calm_le_reliable rfl)))
    obtain rfl := Except.ok.inj htask
    have hstatus : s₁.world.status = s.world.status := by rw [← hw₁]; rfl
    have hbody : (exceptException (Worker.process ⟨name, .uninstall⟩) fun _ => pure ()).Unblocked
        (Act .calm i) s₁ := by
      have hprocess : (Worker.process ⟨name, .uninstall⟩).Unblocked (Act .calm i) s₁ :=
        unblocked_uninstallApp (by rw [← hw₁]; exact hnotifiable) (by rw [← hw₁]; exact hfree name)
      refine hprocess.tryCatch (Prog.wp_of_forall fun r _ e _ => ?_)
      split <;> trivial
    refine Prog.Unblocked.bind (hbody.tryFinally (Prog.wp_of_forall fun _ _ =>
      Prog.unblocked_perform ⟨_, _, act_of_effect rfl rfl⟩)) ?_
    refine Prog.wp_mono (wp_processCurrent_calm hw₁.symm hidentity (hpaused name List.mem_cons_self)) ?_
    rintro _ s₂ ⟨-, w₁, hgone, hw₂⟩ u -
    have hkept : s₂.world.defaultIdentity = s.world.defaultIdentity ∧
        s₂.world.taskQueue = (names.map fun name => ⟨name, .uninstall⟩) ∧
        s₂.world.opLocks = s.world.opLocks := by
      rw [hw₂, hgone.others]
      exact ⟨rfl, rfl, rfl⟩
    refine ih hkept.2.1 (by rw [hkept.1]; exact hidentity) ?_ (by rw [hkept.2.2]; exact hfree) ?_
    · rw [hw₂]
      exact hgone.notifiable hnotifiable
    · intro other hother hpause
      rw [hw₂] at hpause
      exact hpaused other (List.mem_cons_of_mem _ hother) (hgone.status_of_eq hpause)

/-! ## Main result -/

/-- The names of the apps whose uninstall was interrupted. -/
def World.interrupted (w : World) : List String :=
  (w.installedApps.rows.filter fun app => app.status ∈ interruptedStatus).map (·.name)

theorem World.mem_interrupted : name ∈ w.interrupted ↔ w.status name ∈ interruptedStatus.map some := by
  rw [World.status, ← mem_interruptedTasks]
  simp [interrupted, interruptedTasks]

theorem World.interruptedTasks_eq : interruptedTasks w.installedApps.rows =
    w.interrupted.map fun name => ⟨name, .uninstall⟩ := by
  rw [interrupted, List.map_map]
  rfl

/-- The rows with an interrupted status and their directories are gone, all others are as they were. -/
structure Finished (w w' : World) : Prop where
  rows : w'.installedApps.rows = w.installedApps.rows.filter fun app => app.status ∉ interruptedStatus
  dirs : ∀ name, w'.appDirs name =
    if w.status name ∈ interruptedStatus.map some then none else w.appDirs name

theorem Drained.finished (h : Drained w.interrupted w w') : Finished w w' where
  rows := by
    rw [h.rows]
    refine List.filter_congr fun app happ => ?_
    have hstatus : w.status app.name = some app.status := by
      simp [World.status, InstalledApps.status, InstalledApps.mem_rows_iff.mp happ]
    have hiff : app.name ∈ w.interrupted ↔ app.status ∈ interruptedStatus := by
      rw [World.mem_interrupted, hstatus]
      simp
    simp only [hiff]
  dirs name := by
    rw [h.dirs]
    simp only [World.mem_interrupted]

theorem Drained.status_eq {names : List String} (h : Drained names w w') (hname : name ∈ names) :
    w'.status name = none := by
  rw [World.status, InstalledApps.status, Option.map_eq_none_iff, InstalledApps.getByName,
    List.find?_eq_none]
  intro app happ heq
  rw [h.rows, List.mem_filter] at happ
  have hnot : app.name ∉ names := by simpa using happ.2
  rw [beq_iff_eq] at heq
  exact hnot (heq ▸ hname)

theorem Drained.again {names : List String} (h : Drained names w w')
    (h' : Drained names { w' with taskQueue := names.map fun name => ⟨name, .uninstall⟩ } w'') :
    w'' = w' := by
  have hrows : w''.installedApps = w'.installedApps := by
    apply InstalledApps.ext
    rw [h'.rows]
    change w'.installedApps.rows.filter _ = _
    rw [h.rows, List.filter_filter]
    simp
  have hdirs : w''.appDirs = w'.appDirs := by
    funext name
    rw [h'.dirs]
    change (if name ∈ names then none else w'.appDirs name) = _
    rw [h.dirs]
    split <;> rfl
  have hconfig : w''.traefikDyn = w'.traefikDyn := by
    have hc := h.config
    rw [h'.config]
    by_cases hnil : names = []
    · rw [if_pos hnil]
    · rw [if_neg hnil] at hc ⊢
      rw [hc]
      exact World.appInfos_congr hrows hdirs
  have hprojects : w''.projects = w'.projects := by
    exact h'.projects fun name hname => h.status_eq hname
  rw [h'.others, hrows, hdirs, hconfig, hprojects, h.others]

/-- The next boot finishes the interrupted uninstalls and touches nothing else, and repeating its tasks leaves
the world as it is. -/
theorem uninstalls_finished {w : World} {boot worker again : Call} {r : Except Exn Unit} {s : State}
    (hidentity : w.defaultIdentity ≠ none)
    (hboot : Prog.Exec (Act .calm boot) reconcileInterruptedUninstalls ⟨w.reboot, []⟩ r s) :
    (w.Notifiable → (Worker.run s.world.taskQueue.length).Unblocked (Act .calm worker) s) ∧
    ∀ r' s', Prog.Exec (Act .calm worker) (Worker.run s.world.taskQueue.length) s r' s' →
      r' = .ok () ∧ s'.world.taskQueue = [] ∧ Finished w s'.world ∧
      ∀ r'' s'', Prog.Exec (Act .calm again) (Worker.run s.world.taskQueue.length)
        ⟨{ s'.world with taskQueue := s.world.taskQueue }, s'.log⟩ r'' s'' → s''.world = s'.world := by
  have hworld := hboot.wp (wp_reconcile Env.calm_le_reliable)
  have hqueue : s.world.taskQueue = w.interrupted.map fun name => ⟨name, .uninstall⟩ := by
    rw [hworld, ← World.interruptedTasks_eq]
    rfl
  have hlength : s.world.taskQueue.length = w.interrupted.length := by rw [hqueue, List.length_map]
  have hidentity₁ : s.world.defaultIdentity ≠ none := by
    rw [hworld]
    exact hidentity
  have hstatus : s.world.status = w.status := by
    rw [hworld]
    rfl
  have hpaused : ∀ name ∈ w.interrupted, s.world.status name ≠ some .paused := by
    intro name hname hpause
    rw [World.mem_interrupted, ← hstatus, hpause] at hname
    exact absurd hname (by decide)
  rw [hlength]
  constructor
  · intro hnotifiable
    refine unblocked_run hqueue hidentity₁ ?_ (fun name => ?_) hpaused
    · rw [hworld]
      exact hnotifiable
    · rw [hworld]
      rfl
  · intro r' s' hrun
    obtain ⟨rfl, hdrained⟩ := hrun.wp (wp_run_calm hqueue (by rw [hworld]; rfl) hidentity₁ hpaused)
    have hfinished : Finished s.world s'.world := by
      refine Drained.finished ?_
      have hinterrupted : s.world.interrupted = w.interrupted := by
        rw [hworld]
        rfl
      rw [hinterrupted]
      exact hdrained
    rw [hworld] at hfinished
    refine ⟨rfl, by rw [hdrained.others], ⟨hfinished.rows, hfinished.dirs⟩, fun r'' s'' hagain => ?_⟩
    have hgone : ∀ name ∈ w.interrupted, s'.world.status name ≠ some .paused := by
      intro name hname hpause
      rw [hdrained.status_eq hname] at hpause
      cases hpause
    obtain ⟨-, hdrained'⟩ := hagain.wp (wp_run_calm hqueue (by rw [hdrained.others])
      (by rw [hdrained.others]; exact hidentity₁) hgone)
    rw [hqueue] at hdrained'
    exact hdrained.again hdrained'

theorem exists_reconcile_calm (s : State) : ∃ r s',
    Prog.Exec (Act .calm i) reconcileInterruptedUninstalls s r s' := by
  refine uses_reconcile.exists_exec ?_ s
  rintro op (rfl | ⟨task, rfl⟩) w <;> exact ⟨_, _, act_of_effect rfl rfl⟩

/-- An app whose uninstall was interrupted before its containers were stopped. -/
theorem uninstalls_finished_app : ∃ r s r' s',
    Prog.Exec (Act .calm ⟨.worker, 0⟩) reconcileInterruptedUninstalls
      ⟨(World.withApp "app" .uninstalling (.single .running)).reboot, []⟩ r s ∧
    Prog.Exec (Act .calm ⟨.worker, 1⟩) (Worker.run s.world.taskQueue.length) s r' s' ∧
    Finished (.withApp "app" .uninstalling (.single .running)) s'.world := by
  have hnotifiable : (World.withApp "app" .uninstalling (.single .running)).Notifiable := by
    intro app happ dir reason hdir
    obtain rfl := List.mem_singleton.mp happ
    obtain rfl := Option.some.inj hdir
    simp
  obtain ⟨r, s, hboot⟩ := exists_reconcile_calm (i := ⟨.worker, 0⟩)
    ⟨(World.withApp "app" .uninstalling (.single .running)).reboot, []⟩
  have hidentity : (World.withApp "app" .uninstalling (.single .running)).defaultIdentity ≠ none := by decide
  obtain ⟨hunblocked, hfinished⟩ := @uninstalls_finished _ _ ⟨.worker, 1⟩ ⟨.worker, 2⟩ _ _ hidentity hboot
  obtain ⟨r', s', hrun⟩ := (hunblocked hnotifiable).exists_exec
  exact ⟨r, s, r', s', hboot, hrun, (hfinished r' s' hrun).2.2.1⟩

end Freeshard

import Freeshard.Boot.Reconcile
import Freeshard.Service.Footprints

/-! # What the shutdown step does to the status column

`docker_shutdown_all_apps(force=True)` gathers one `docker_shutdown_app` for each row, and with
`force` each of them stores DOWN as soon as its `down` has succeeded, whatever the row said. For the
statuses that a revive must not act on this loses the uninstalls the next boot should take up, and
makes half-installed and failed apps revivable. -/

namespace Freeshard
open Coroutine
set_option autoImplicit false

/-! ## The step -/

/-- The statuses that are not in `_REVIVABLE_STATUS`, but for UNKNOWN. -/
def protectedStatus : List Status :=
  [.installationQueued, .installing, .uninstallationQueued, .uninstalling, .reinstallationQueued,
    .reinstalling, .error]

theorem interrupted_protected : interruptedStatus ⊆ protectedStatus := by decide

/-- A complete run of `docker_shutdown_all_apps`. -/
def DockerShutdownAllApps (E : Env) (caller : Call) (force : Bool) (s s' : State) : Prop :=
  ∃ apps s₁, Prog.Exec (Act E caller) getAll s (.ok apps) s₁ ∧
    Gathers (Act E) (apps.map fun app => dockerShutdownApp app.name true force)
      (Call.mk .shutdownApp) s₁ s'

/-- Every protected row has kept its status, every accepted uninstall will be taken up again, and
no protected row has become revivable. -/
structure KeepsProtected (w w' : World) : Prop where
  unchanged : ∀ name, ∀ status ∈ protectedStatus, w.status name = some status →
    w'.status name = some status
  recovered : ∀ name, w.status name ∈ interruptedStatus.map some → Recovered name w'
  not_revivable : ∀ name, w.status name ∈ protectedStatus.map some →
    w'.status name ∉ revivableStatus.map some

theorem KeepsProtected.of_unchanged {w w' : World}
    (h : ∀ name, ∀ status ∈ protectedStatus, w.status name = some status →
      w'.status name = some status) : KeepsProtected w w' := by
  refine ⟨h, fun name hst => ?_, fun name hst => ?_⟩
  · obtain ⟨status, hmem, hstatus⟩ := List.mem_map.mp hst
    rw [recovered_iff, h name status (interrupted_protected hmem) hstatus.symm]
    exact List.mem_map_of_mem hmem
  · obtain ⟨status, hmem, hstatus⟩ := List.mem_map.mp hst
    rw [h name status hmem hstatus.symm]
    have hdisjoint : ∀ status ∈ protectedStatus, some status ∉ revivableStatus.map some := by decide
    exact hdisjoint status hmem

/-! ## One app's part -/

variable {i : Call} {s s' : State} {op : Op} {r : Answer op} {names : List String} {name : String}
  {status : Option Status} {down : Bool}

/-- The row's status, and whether the app's `down` has succeeded. -/
structure Row (name : String) (status : Option Status) (down : Bool) (s : State) : Prop where
  status_eq : s.world.status name = status
  down_iff : Succeeded (.compose name .down) s.log ↔ down = true

/-- What one `docker_shutdown_app` may do. -/
abbrev shutdownFootprint : Footprint := { statuses := [.down], commands := [.unpause, .down] }

/-- The `k`-th coroutine keeps to the `k`-th app. -/
def KeepsTo (names : List String) (i : Call) (_ : State) (op : Op) (_ : Answer op) (_ : State) :
    Prop :=
  ∃ k name, i = ⟨.shutdownApp, k⟩ ∧ names[k]? = some name ∧ shutdownFootprint.Covers name op

theorem Row.step (h : Row name status down s) (ha : s'.Follows i op r s)
    (hst : s'.world.status name = s.world.status name) (hop : op ≠ .compose name .down) :
    Row name status down s' :=
  ⟨hst.trans h.status_eq, (ha.succeeded_of_ne hop).trans h.down_iff⟩

theorem Row.stable (hnodup : names.Nodup) {k : ℕ} (hk : names[k]? = some name) :
    Stable (Act .reliable) (KeepsTo names) ⟨.shutdownApp, k⟩ (Row name status down) := by
  rintro j hj s op r s' h ha ⟨k', name', rfl, hk', hcovers⟩
  have hne : name ≠ name' := by
    rintro rfl
    have hlt := (List.getElem?_eq_some_iff.mp hk).1
    have hkk := (List.getElem?_inj hlt hnodup).mp (hk.trans hk'.symm)
    exact hj (by rw [hkk])
  refine h.step ha.follows (ha.frame.status name (hcovers.writesRow hne)) ?_
  rintro rfl
  exact hne hcovers.1

theorem Row.outline (hnodup : names.Nodup) {k : ℕ} (hk : names[k]? = some name)
    {Q : Answer op → State → Prop} (hop : shutdownFootprint.Covers name op)
    (h : ∀ s r s', Row name status down s → Act .reliable ⟨.shutdownApp, k⟩ s op r s' → Q r s') :
    Outline (Act .reliable) (KeepsTo names) ⟨.shutdownApp, k⟩ (awaitOp op)
      (Row name status down) Q :=
  Outline.perform (Row.stable hnodup hk) fun s r s' hs ha =>
    ⟨⟨k, name, rfl, hk, hop⟩, h s r s' hs ha⟩

/-- How the app's part ends: with the row as it was, or with DOWN after a successful `down`. -/
def Ended (name : String) (status : Option Status) (s : State) : Prop :=
  Row name status false s ∨ Row name (status.map fun _ => .down) true s

theorem Row.outline_keep (hnodup : names.Nodup) {k : ℕ} (hk : names[k]? = some name)
    (hop : shutdownFootprint.Covers name op) (hrow : op.writesRow name = false)
    (hdown : op ≠ .compose name .down) :
    Outline (Act .reliable) (KeepsTo names) ⟨.shutdownApp, k⟩ (awaitOp op)
      (Row name status down) fun _ => Row name status down :=
  Row.outline hnodup hk hop fun _ _ _ hs ha => hs.step ha.follows (ha.frame.status name hrow) hdown

theorem outline_takeDown (hnodup : names.Nodup) {k : ℕ} (hk : names[k]? = some name) :
    Outline (Act .reliable) (KeepsTo names) ⟨.shutdownApp, k⟩ (do
      compose name .down
      onlyIf (true = true) (writeStatus name .down)
      sendOnAppsUpdate) (Row name status false) fun _ => Ended name status := by
  have hdown : Outline (Act .reliable) (KeepsTo names) ⟨.shutdownApp, k⟩ (compose name .down)
      (Row name status false) fun r => Row name status r.isOk := by
    refine Row.outline hnodup hk ⟨rfl, by decide⟩ fun s r s' hs ha => ?_
    refine ⟨(ha.frame.status name rfl).trans hs.status_eq, ?_⟩
    rw [ha.follows.succeeded, hs.down_iff]
    simp
  have hupdate : Outline (Act .reliable) (KeepsTo names) ⟨.shutdownApp, k⟩ (updateStatus name .down)
      (Row name status true) fun _ => Row name (status.map fun _ => .down) true := by
    refine Row.outline hnodup hk ⟨rfl, by decide⟩ fun s r s' hs ha => ?_
    have hne : Op.updateStatus name .down ≠ .compose name .down := nofun
    refine ⟨?_, (ha.follows.succeeded_of_ne hne).trans hs.down_iff⟩
    rw [(ha.updatedStatus le_rfl).2, World.setStatus_status_self, hs.status_eq]
  have hwrite : Outline (Act .reliable) (KeepsTo names) ⟨.shutdownApp, k⟩ (writeStatus name .down)
      (Row name status true) fun _ => Row name (status.map fun _ => .down) true :=
    hupdate.bind (fun _ _ h => h) fun _ _ h => h
  have hnotify : Outline (Act .reliable) (KeepsTo names) ⟨.shutdownApp, k⟩ sendOnAppsUpdate
      (Row name (status.map fun _ => .down) true)
      fun _ => Row name (status.map fun _ => .down) true :=
    Row.outline_keep hnodup hk trivial rfl nofun
  refine hdown.bind (fun u => ?_) fun e s h => .inl h
  rw [onlyIf_pos rfl]
  refine hwrite.bind (fun _ => hnotify.mono (fun _ h => h) fun _ _ h => .inr h) fun _ _ h => .inr h

theorem outline_dockerShutdownApp (hnodup : names.Nodup) {k : ℕ} (hk : names[k]? = some name) :
    Outline (Act .reliable) (KeepsTo names) ⟨.shutdownApp, k⟩ (dockerShutdownApp name true true)
      (Row name status false) fun _ => Ended name status := by
  have hget : Outline (Act .reliable) (KeepsTo names) ⟨.shutdownApp, k⟩ (getByName name)
      (Row name status false) fun _ => Row name status false :=
    Row.outline_keep hnodup hk rfl rfl nofun
  have hunpause : Outline (Act .reliable) (KeepsTo names) ⟨.shutdownApp, k⟩ (compose name .unpause)
      (Row name status false) fun _ => Row name status false :=
    Row.outline_keep hnodup hk ⟨rfl, by decide⟩ rfl nofun
  have hread : Outline (Act .reliable) (KeepsTo names) ⟨.shutdownApp, k⟩ (readStatus name)
      (Row name status false) fun _ => Row name status false :=
    hget.bind (fun _ _ h => h) fun _ _ h => h
  refine hread.bind (fun found => ?_) fun _ _ h => .inl h
  rw [onlyIf_pos (.inl rfl)]
  by_cases hpaused : found = some .paused
  · rw [onlyIf_pos hpaused]
    exact hunpause.bind (fun _ => outline_takeDown hnodup hk) fun _ _ h => .inl h
  · rw [onlyIf_neg hpaused, pure_bind]
    exact outline_takeDown hnodup hk

/-! ## All apps -/

theorem sound_shutdownAll {apps : List InstalledApp} (hnodup : (apps.map (·.name)).Nodup)
    (w : World) :
    Sound (Act .reliable) (KeepsTo (apps.map (·.name)))
      (fun i s => ∀ k name, i = ⟨.shutdownApp, k⟩ → (apps.map (·.name))[k]? = some name →
        Row name (w.status name) false s)
      (fun i _ s => ∀ k name, i = ⟨.shutdownApp, k⟩ → (apps.map (·.name))[k]? = some name →
        Ended name (w.status name) s)
      fun i p => ∃ k, (apps.map fun app => dockerShutdownApp app.name true true)[k]? = some p ∧
        i = ⟨.shutdownApp, k⟩ where
  pre_stable := by
    rintro i j hj s op r s' h ha hg k name rfl hk
    exact Row.stable hnodup hk j hj _ _ _ _ (h k name rfl hk) ha hg
  post_stable := by
    rintro i _ j hj s op r s' h ha hg k name rfl hk
    exact (h k name rfl hk).imp (fun h => Row.stable hnodup hk j hj _ _ _ _ h ha hg)
      fun h => Row.stable hnodup hk j hj _ _ _ _ h ha hg
  outline := by
    rintro _ p ⟨k, hp, rfl⟩
    obtain ⟨app, happ, rfl⟩ : ∃ app, apps[k]? = some app ∧
        dockerShutdownApp app.name true true = p := by simpa using hp
    have hk : (apps.map (·.name))[k]? = some app.name := by simp [happ]
    refine (outline_dockerShutdownApp hnodup hk).mono (fun s h => h k app.name rfl hk) ?_
    rintro _ s h _ name ⟨⟩ hk'
    obtain rfl := Option.some.inj (hk.symm.trans hk')
    exact h

/-- After the shutdown step each row is as it was, or DOWN if the app's `down` has succeeded. -/
theorem DockerShutdownAllApps.ended {caller : Call} {w : World}
    (h : DockerShutdownAllApps .reliable caller true ⟨w, []⟩ s') {name : String} {status : Status}
    (hrow : w.status name = some status) : Ended name (some status) s' := by
  obtain ⟨apps, s₁, hget, hgather⟩ := h
  have hfirst : apps = w.installedApps.rows ∧ s₁.world = w ∧
      ∀ name, ¬Succeeded (.compose name .down) s₁.log := by
    have hwp : getAll.wp (Act .reliable caller) (fun r s' => ∀ apps, r = .ok apps →
        apps = w.installedApps.rows ∧ s'.world = w ∧
          ∀ name, ¬Succeeded (.compose name .down) s'.log) ⟨w, []⟩ := by
      refine (Prog.wp_perform _ _ _).mpr fun r s' ha => ?_
      obtain ⟨rfl, hw⟩ := ha.gotAll le_rfl
      rintro _ ⟨⟩
      refine ⟨rfl, hw, fun name hs => ?_⟩
      have hne : Op.getAll ≠ .compose name .down := nofun
      have hnil : Succeeded (.compose name .down) [] := (ha.follows.succeeded_of_ne hne).mp hs
      simp [Succeeded] at hnil
    exact hget.wp hwp apps rfl
  obtain ⟨rfl, hw, hlog⟩ := hfirst
  have hpre : ∀ (i : Call) (k : ℕ) (name : String), i = ⟨.shutdownApp, k⟩ →
      (w.installedApps.rows.map (·.name))[k]? = some name → Row name (w.status name) false s₁ :=
    fun _ _ name _ _ => ⟨by rw [hw], by simpa using hlog name⟩
  obtain ⟨app, hget, rfl⟩ := Option.map_eq_some_iff.mp hrow
  have hname := InstalledApps.getByName_name hget
  have hmem : app ∈ w.installedApps.rows := by
    rw [InstalledApps.mem_rows_iff, hname, hget]
  obtain ⟨k, hk, happ⟩ := List.getElem_of_mem hmem
  obtain ⟨r, hend⟩ := hgather.ended (sound_shutdownAll w.installedApps.nodup w) hpre
    (show k < _ by simpa using hk)
  have hkname : (w.installedApps.rows.map (·.name))[k]? = some name := by
    rw [List.getElem?_map, List.getElem?_eq_getElem hk, happ]
    simpa using hname
  have hfinal := hend k name rfl hkname
  rwa [hrow] at hfinal

/-- The forced shutdown keeps the protected rows, exactly if no `down` of their apps succeeds. -/
theorem keepsProtected_iff {caller : Call} {w : World}
    (h : DockerShutdownAllApps .reliable caller true ⟨w, []⟩ s') :
    KeepsProtected w s'.world ↔ ∀ name, w.status name ∈ protectedStatus.map some →
      ¬Succeeded (.compose name .down) s'.log := by
  constructor
  · intro hkeeps name hst hdown
    obtain ⟨status, hmem, hstatus⟩ := List.mem_map.mp hst
    obtain hrow | hrow := h.ended hstatus.symm
    · exact absurd (hrow.down_iff.mp hdown) Bool.false_ne_true
    · have hkept := hkeeps.unchanged name status hmem hstatus.symm
      rw [hrow.status_eq] at hkept
      obtain rfl : status = .down := by simpa [eq_comm] using hkept
      exact absurd hmem (by decide)
  · intro hnone
    refine .of_unchanged fun name status hmem hst => ?_
    obtain hrow | hrow := h.ended hst
    · exact hrow.status_eq
    · exact absurd (hrow.down_iff.mpr rfl) (hnone name (hst ▸ List.mem_map_of_mem hmem))

theorem exists_shutdown_single (caller : Call) (w : World) (app : InstalledApp)
    (hrows : w.installedApps.rows = [app]) (choices : List Choice) (P : State → Bool)
    (h : ((dockerShutdownApp app.name true true).follow (State.exec .reliable ⟨.shutdownApp, 0⟩)
      ⟨w, [⟨caller, .getAll, .ok w.installedApps.rows, w⟩]⟩ choices).any
        (fun run => P run.2) = true) :
    ∃ s', DockerShutdownAllApps .reliable caller true ⟨w, []⟩ s' ∧ P s' = true := by
  obtain ⟨r, s', hrun, hP⟩ := State.exists_exec .reliable _ _ _ choices (fun _ s => P s) h
  have hact : Act .reliable caller ⟨w, []⟩ .getAll (.ok w.installedApps.rows)
      ⟨w, [⟨caller, .getAll, .ok w.installedApps.rows, w⟩]⟩ :=
    ⟨.proceed, w, ⟨fun _ => rfl, fun _ => rfl⟩, rfl, rfl⟩
  refine ⟨s', ⟨_, _, .await hact (.ret _ _), ?_⟩, hP⟩
  have htasks : (w.installedApps.rows.map fun app => dockerShutdownApp app.name true true) =
      [dockerShutdownApp app.name true true] := by rw [hrows]; rfl
  rw [htasks]
  exact Gathers.single hrun

end Freeshard

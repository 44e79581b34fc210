import Freeshard.Lifecycle.Demand
import Freeshard.Lifecycle.LowDisk
import Freeshard.Lifecycle.Succeeding

/-! # The tasks of a tick whose commands succeed

What the statuses of a tick's apps can have become while its tasks are interleaved with each other and with passing
time. Every task returns, so the demotion is reached. -/

namespace Freeshard.ControlLoop
open Coroutine
set_option autoImplicit false

/-- The steps of a task while commands succeed. -/
abbrev Pressed (settings : Lifecycle.Settings) (i : Task) : Record → (op : Op) → Answer op → Record → Prop :=
  Recorded.Act (act settings .succeeding) Recorded.anyway i

/-- The tasks of the tick and the machine, without any access. -/
def ofQuietTick : Task → Bool
  | .machine _ => true
  | .controlApps tick => tick == 0
  | .controlAppTime tick _ => tick == 0
  | .demoteLru tick => tick == 0
  | _ => false

def createAlone (c : Loop) (i : Task) : Option (Coro Unit) := if ofQuietTick i then create c i else none

/-- A tick without accesses whose commands succeed. -/
abbrev PressureRun (settings : Lifecycle.Settings) (v : Shard) (c : Loop) : Prop :=
  Evolves (Pressed settings) createAlone (.idle ⟨v, []⟩) c

/-! ## Statuses -/

/-- What may have become of the status of an app since the tick has begun. -/
inductive Came (w : World) (name : String) : Option Status → Prop where
  | kept : Came w name (w.status name)
  | stopped (hrow : w.status name ≠ none) : Came w name (some .stopped)
  | started {appMeta : AppMeta} (hrow : w.status name ≠ none) (hmeta : w.getAppMetadata name = .ok appMeta)
    (halways : appMeta.lifecycle.alwaysOn = true) : Came w name (some .running)
  | paused {appMeta : AppMeta} (hrunning : w.status name = some .running)
    (hmeta : w.getAppMetadata name = .ok appMeta) (hskip : appMeta.lifecycle.skipPause = false) :
    Came w name (some .paused)

theorem Came.row {w : World} {name : String} {st : Option Status} (h : Came w name st) (hst : st ≠ none) :
    w.status name ≠ none := by
  cases h with
  | kept => exact hst
  | stopped hrow => exact hrow
  | started hrow => exact hrow
  | paused hrunning =>
    rw [hrunning]
    exact Option.some_ne_none _

theorem status_of_mem {w : World} {app : InstalledApp} (hmem : app ∈ w.installedApps.rows) :
    w.status app.name = some app.status := by
  unfold World.status InstalledApps.status
  rw [InstalledApps.mem_rows_iff.mp hmem]
  rfl

theorem exists_mem_of_status {w : World} {name : String} {st : Status} (h : w.status name = some st) :
    ∃ app ∈ w.installedApps.rows, app.name = name ∧ app.status = st := by
  obtain ⟨app, hrow, hst⟩ := Option.map_eq_some_iff.mp h
  have hname := InstalledApps.getByName_name hrow
  exact ⟨app, InstalledApps.mem_rows_iff.mpr (by rw [hname, hrow]), hname, hst⟩

theorem came_of_due {w : World} {u : Lifecycle.World} {settings : Lifecycle.Settings} {pauseEnabled : Bool}
    {app : InstalledApp} {appMeta : AppMeta} {operation : Lifecycle.Operation} (hmem : app ∈ w.installedApps.rows)
    (hmeta : w.getAppMetadata app.name = .ok appMeta) (h : u.due settings pauseEnabled app appMeta = some operation) :
    Came w operation.target (some operation.leaves) := by
  have hst := status_of_mem hmem
  have hrow : w.status app.name ≠ none := by
    rw [hst]
    exact Option.some_ne_none _
  unfold Lifecycle.World.due at h
  split at h
  · obtain rfl := Option.some.inj h
    exact .stopped hrow
  · split at h
    · next halways =>
      split at h
      · obtain rfl := Option.some.inj h
        exact .started hrow hmeta halways
      · cases h
    · split at h
      · split at h
        · obtain rfl := Option.some.inj h
          exact .stopped hrow
        · cases h
      · next hpauses =>
        split at h
        · next hrunning =>
          obtain rfl := Option.some.inj h
          refine .paused (hst.trans (congrArg some hrunning.1)) hmeta ?_
          exact Bool.eq_false_iff.mpr fun hskip => hpauses (.inr hskip)
        · split at h
          · obtain rfl := Option.some.inj h
            exact .stopped hrow
          · cases h

theorem came_of_demotion {w : World} {app : InstalledApp} {appMeta : AppMeta} (hmem : app ∈ w.installedApps.rows)
    (hmeta : w.getAppMetadata app.name = .ok appMeta) :
    Came w (Lifecycle.demotionOf app appMeta).target (some (Lifecycle.demotionOf app appMeta).leaves) := by
  have hst := status_of_mem hmem
  unfold Lifecycle.demotionOf
  split
  · next h => exact .paused (hst.trans (congrArg some h.1)) hmeta h.2
  · refine .stopped fun hnone => ?_
    rw [show w.status app.name = none from hnone] at hst
    cases hst

/-! ## Steps -/

/-- The metadata of every app can be read. -/
def Readable (w : World) : Prop := ∀ name, w.status name ≠ none → (w.getAppMetadata name).isOk = true

/-- What holds throughout a tick that has begun in `v`. -/
structure Steady (v : Shard) (s : Record) : Prop where
  appDirs : (worldOf s).appDirs = v.state.world.appDirs
  before : s.world.gathering 0 = none → worldOf s = v.state.world
  gathered : ∀ g, s.world.gathering 0 = some g → g.apps = gathered v.state.world
  came : ∀ name, Came v.state.world name ((worldOf s).status name)

/-- The tick has gathered its apps. -/
structure InTick (v : Shard) (s : Record) : Prop where
  steady : Steady v s
  gathered : (s.world.gathering 0).isSome = true

/-- A step of the tick. -/
structure Steps (v : Shard) (s s' : Record) : Prop where
  steady : Steady v s → Steady v s'
  gathered : (s.world.gathering 0).isSome = true → (s'.world.gathering 0).isSome = true

/-- A step that leaves the apps alone, up to the gathering. -/
structure Rests (s s' : Record) : Prop where
  state : s'.world.state = s.world.state
  gathering : s'.world.gathering 0 = s.world.gathering 0 ∨ s.world.gathering 0 = none ∧
    ∃ g, g.apps = gathered (worldOf s) ∧ s'.world.gathering 0 = some g

variable {settings : Lifecycle.Settings} {v : Shard} {i : Task} {s s' : Record} {name : String} {status : Status}

theorem InTick.steps (h : InTick v s) (hs : Steps v s s') : InTick v s' := ⟨hs.steady h.steady, hs.gathered h.gathered⟩

theorem Steps.looked (op : Op) (r : Answer op) : Steps v s (s.next i op r s.world) :=
  ⟨fun h => ⟨h.appDirs, h.before, h.gathered, h.came⟩, fun h => h⟩

theorem getAppMetadata_congr {w w' : World} (h : w'.appDirs = w.appDirs) (name : String) :
    w'.getAppMetadata name = w.getAppMetadata name := by
  unfold World.getAppMetadata
  rw [h]

theorem Steady.notifiable (h : Steady v s) (hread : Readable v.state.world) : (worldOf s).Notifiable := by
  intro app hmem dir reason hdir hrejected
  have hrow : v.state.world.status app.name ≠ none := by
    refine (h.came app.name).row ?_
    rw [status_of_mem hmem]
    exact Option.some_ne_none _
  have hok := hread app.name hrow
  rw [← getAppMetadata_congr h.appDirs, World.getAppMetadata, hdir] at hok
  dsimp only at hok
  rw [hrejected] at hok
  cases hok

theorem Rests.steps (h : Rests s s') : Steps v s s' := by
  have hworld : worldOf s' = worldOf s := congrArg State.world h.state
  obtain hsame | ⟨hnone, g, happs, hset⟩ := h.gathering
  · refine ⟨fun hs => ⟨?_, fun hg => ?_, fun g hg => hs.gathered g (hsame ▸ hg), fun name => ?_⟩, fun hsome => ?_⟩
    · rw [hworld]
      exact hs.appDirs
    · rw [hworld]
      exact hs.before (hsame ▸ hg)
    · rw [hworld]
      exact hs.came name
    · rw [hsame]
      exact hsome
  · refine ⟨fun hs => ⟨?_, fun hg => ?_, fun g' hg' => ?_, fun name => ?_⟩, fun _ => ?_⟩
    · rw [hworld]
      exact hs.appDirs
    · rw [hset] at hg
      cases hg
    · rw [hset] at hg'
      obtain rfl := Option.some.inj hg'
      rw [happs, hs.before hnone]
    · rw [hworld]
      exact hs.came name
    · rw [hset]
      rfl

theorem Pressed.tends {op : Freeshard.Op} {r : Answer (.tools op)} (hread : Readable v.state.world)
    (h : Pressed settings i s (.tools op) r s') (hs : InTick v s) (hop : op.Tends name status)
    (hcame : Came v.state.world name (some status)) : Answers op r ∧ Steps v s s' ∧ InTick v s' := by
  obtain ⟨-, w', ⟨t, ha, rfl⟩, rfl⟩ := h
  have hE : clocked .succeeding s.world.clock ≤ .succeeding := clocked_le _ _
  obtain ⟨hdirs, hstatus⟩ := ha.tends hE hop
  have hsteps : Steps v s (s.next i (.tools op) r { s.world with state := t }) := by
    refine ⟨fun hsteady => ⟨hdirs.trans hsteady.appDirs, fun hnone => ?_, fun g hg => hsteady.gathered g hg,
      fun other => ?_⟩, id⟩
    · have hsome := hs.gathered
      rw [show s.world.gathering 0 = none from hnone] at hsome
      cases hsome
    · obtain hsame | ⟨rfl, -, hset⟩ := hstatus other
      · exact hsame.symm ▸ hsteady.came other
      · exact hset.symm ▸ hcame
  exact ⟨ha.answers hE hop fun _ => hs.steady.notifiable hread, hsteps, hs.steps hsteps⟩

/-! ## Coroutines -/

section Coroutines
variable (hread : Readable v.state.world)
include hread

theorem rg_tends {p : Freeshard.Coro Unit} (huses : p.Uses (Op.Tends name status))
    (hreturns : p.wp answering (fun r _ => r.isOk = true) ()) (hcame : Came v.state.world name (some status))
    (hs : InTick v s) :
    (tools p).rg (Pressed settings i) (Steps v) (Steps v) (fun r s' => r.isOk = true ∧ InTick v s') s :=
  tools_rg (Prog.rg_of_wp (fun _ => ()) huses (fun _ _ h hrely => ⟨h.steps hrely, rfl⟩)
    (fun _ _ _ _ h hop hstep => hstep.tends hread h hop hcame) hs hreturns)

theorem rg_perform {operation : Lifecycle.Operation}
    (hcame : Came v.state.world operation.target (some operation.leaves)) (hs : InTick v s) :
    (perform operation).rg (Pressed settings i) (Steps v) (Steps v) (fun r s' => r.isOk = true ∧ InTick v s') s := by
  cases operation with
  | startApp name => exact rg_tends hread tends_startApp returns_startApp hcame hs
  | dockerPauseApp name => exact rg_tends hread tends_dockerPauseApp returns_dockerPauseApp hcame hs
  | dockerStopApp name => exact rg_tends hread tends_dockerStopApp returns_dockerStopApp hcame hs

theorem rg_performs {operations : List Lifecycle.Operation}
    (hcame : ∀ operation ∈ operations, Came v.state.world operation.target (some operation.leaves))
    (hs : InTick v s) :
    (operations.forM perform).rg (Pressed settings i) (Steps v) (Steps v)
      (fun r s' => r.isOk = true ∧ InTick v s') s := by
  induction operations generalizing s with
  | nil => exact ⟨rfl, hs⟩
  | cons operation operations ih =>
    obtain ⟨hfirst, hrest⟩ := List.forall_mem_cons.mp hcame
    exact Prog.rg_bind (rg_perform hread hfirst hs) (fun _ _ h => ih hrest h.2) fun _ _ h => by cases h.1

theorem InTick.readable (h : InTick v s) {app : InstalledApp} (hmem : app ∈ v.state.world.installedApps.rows) :
    ∃ appMeta, v.state.world.getAppMetadata app.name = .ok appMeta ∧
      s.world.view.appMetadata app.name = .ok appMeta := by
  have hok := hread app.name (by rw [status_of_mem hmem]; exact Option.some_ne_none _)
  cases hmeta : v.state.world.getAppMetadata app.name with
  | error e =>
    rw [hmeta] at hok
    cases hok
  | ok appMeta =>
    exact ⟨appMeta, rfl, (getAppMetadata_congr h.steady.appDirs app.name).trans hmeta⟩

/-- The task of an app returns, and all it does is among what may become of the app. -/
theorem rg_controlAppTime_returns {app : InstalledApp} (hmem : app ∈ v.state.world.installedApps.rows) (hs : InTick v s) :
    (controlAppTime app).rg (Pressed settings i) (Steps v) (Steps v)
      (fun r s' => r.isOk = true ∧ InTick v s') s := by
  have hdecision : (awaitOp (.controlAppTime app)).rg (Pressed settings i) (Steps v) (Steps v) (fun r s' =>
      ∃ operations : List Lifecycle.Operation, r = .ok operations ∧ InTick v s' ∧
        ∀ operation ∈ operations, Came v.state.world operation.target (some operation.leaves)) s := by
    refine Prog.rg_perform ?_
    rintro s₁ hsteps r _ ⟨-, w', ha, rfl⟩
    have h₁ := hs.steps hsteps
    obtain ⟨rfl, rfl⟩ := Prod.mk.inj (Option.some.inj ha)
    obtain ⟨appMeta, hmeta, hview⟩ := h₁.readable hread hmem
    refine ⟨.looked _ _, (s₁.world.view.due settings settings.pauseEnabled app appMeta).toList, ?_,
      h₁.steps (.looked _ _), ?_⟩
    · rw [decision, Lifecycle.controlAppTime_issues hview, Lifecycle.controlAppTime_eval hview]
      rfl
    · intro operation hoperation
      exact came_of_due hmem hmeta (Option.mem_toList.mp hoperation)
  refine Prog.rg_bind hdecision ?_ ?_
  · rintro operations s₁ ⟨_, ⟨⟩, h₁, hcame⟩
    exact rg_performs hread hcame h₁
  · rintro e s₁ ⟨_, ⟨⟩, -⟩

/-- What `_demote_lru` decides on. -/
theorem decision_demoteLru {apps : List InstalledApp} (hs : InTick v s)
    (hmem : ∀ app ∈ apps, app ∈ v.state.world.installedApps.rows) :
    decision s.world.view (Lifecycle.demoteLru apps) = .ok (s.world.view.demotion
      (s.world.view.candidates .running apps) (s.world.view.candidates .paused apps)).toList := by
  have hreadable : ∀ app ∈ apps, s.world.view.Readable app = true := by
    intro app happ
    obtain ⟨appMeta, -, hview⟩ := hs.readable hread (hmem app happ)
    rw [Lifecycle.World.Readable, hview]
    rfl
  rw [decision, Lifecycle.demoteLru_ok hreadable, Lifecycle.World.issues, Lifecycle.demoteLru_eval hreadable]
  rfl

theorem rg_demoteLru_returns {apps : List InstalledApp} (hmem : ∀ app ∈ apps, app ∈ v.state.world.installedApps.rows)
    (hs : InTick v s) :
    (demoteLru apps).rg (Pressed settings i) (Steps v) (Steps v) (fun r s' => r.isOk = true ∧ InTick v s') s := by
  have hdecision : (awaitOp (.demoteLru apps)).rg (Pressed settings i) (Steps v) (Steps v) (fun r s' =>
      ∃ operations : List Lifecycle.Operation, r = .ok operations ∧ InTick v s' ∧
        ∀ operation ∈ operations, Came v.state.world operation.target (some operation.leaves)) s := by
    refine Prog.rg_perform ?_
    rintro s₁ hsteps r _ ⟨-, w', ha, rfl⟩
    have h₁ := hs.steps hsteps
    obtain ⟨rfl, rfl⟩ := Prod.mk.inj (Option.some.inj ha)
    refine ⟨.looked _ _, _, decision_demoteLru hread h₁ hmem, h₁.steps (.looked _ _), fun operation hoperation => ?_⟩
    obtain ⟨victim, appMeta, hvictim, hview, rfl, -⟩ :=
      Lifecycle.World.demotion_eq_some (Option.mem_toList.mp hoperation)
    have hmeta : v.state.world.getAppMetadata victim.name = .ok appMeta :=
      (getAppMetadata_congr h₁.steady.appDirs victim.name).symm.trans hview
    exact came_of_demotion (hmem victim hvictim.mem) hmeta
  refine Prog.rg_bind hdecision ?_ ?_
  · rintro operations s₁ ⟨_, ⟨⟩, h₁, hcame⟩
    exact rg_performs hread hcame h₁
  · rintro e s₁ ⟨_, ⟨⟩, -⟩

end Coroutines

theorem rg_machine : (awaitOp .pass).rg (Pressed settings i) (fun _ _ => True) Rests (fun _ _ => True) s := by
  refine Prog.rg_perform ?_
  rintro s₁ - r _ ⟨-, w', ⟨-, -, hrest⟩, rfl⟩
  rw [hrest]
  exact ⟨⟨rfl, .inl rfl⟩, trivial⟩

theorem rg_controlApps : (awaitOp (.gather 0)).rg (Pressed settings i) (fun _ _ => True) Rests (fun _ _ => True) s := by
  refine Prog.rg_perform ?_
  rintro s₁ - r _ ⟨-, w', ha, rfl⟩
  simp only [act, Shard.effect] at ha
  split at ha
  · next hnone =>
    obtain ⟨-, rfl⟩ := Prod.mk.inj (Option.some.inj ha)
    have hset : Function.update s₁.world.gathering 0 (some (plan settings s₁.world.view)) 0 =
        some (plan settings s₁.world.view) := Function.update_self ..
    exact ⟨⟨rfl, .inr ⟨hnone, _, rfl, hset⟩⟩, trivial⟩
  · cases ha

end Freeshard.ControlLoop

import Freeshard.Lifecycle.PressureTasks
import Freeshard.Lifecycle.RecentAccess

/-! # The demotion after the time-based step

`_demote_lru` gets the apps as `control_apps` has read them before the time-based step. If that step has paused or
stopped the app that the demotion picks, nothing is demoted, whatever other apps are left. -/

namespace Freeshard.ControlLoop
open Coroutine
set_option autoImplicit false

variable {settings : Lifecycle.Settings} {v : Shard} {i j : Task} {s s' : Record} {c c' c₁ c₂ : Loop}

/-! ## Contracts -/

/-- Of a task that leaves the apps alone. -/
def restContract : Contract Exn Record where
  pre _ := True
  rely _ _ := True
  guar := Rests
  post _ _ := True

/-- Of the task of an app and of the demotion. -/
def taskContract (v : Shard) : Contract Exn Record where
  pre _ := True
  rely := Steps v
  guar := Steps v
  post r _ := r.isOk = true

def tickContract (v : Shard) : Task → Contract Exn Record
  | .controlAppTime _ _ => taskContract v
  | .demoteLru _ => taskContract v
  | _ => restContract

theorem restContract_stable : restContract.Stable :=
  ⟨fun _ => trivial, fun _ _ _ _ _ => trivial, fun _ _ _ _ => trivial, fun _ _ _ _ _ => trivial⟩

theorem taskContract_stable (v : Shard) : (taskContract v).Stable where
  refl _ := ⟨id, id⟩
  trans _ _ _ h h' := ⟨h'.steady ∘ h.steady, h'.gathered ∘ h.gathered⟩
  pre _ _ _ _ := trivial
  post _ _ _ _ h := h

theorem tickContract_stable (v : Shard) (i : Task) : (tickContract v i).Stable := by
  cases i with
  | controlAppTime tick k => exact taskContract_stable v
  | demoteLru tick => exact taskContract_stable v
  | _ => exact restContract_stable

theorem tickContract_guar (h : (tickContract v i).guar s s') : (tickContract v j).rely s s' := by
  have hsteps : Steps v s s' := by
    cases i with
    | controlAppTime tick k => exact h
    | demoteLru tick => exact h
    | _ => exact Rests.steps h
  cases j with
  | controlAppTime tick k => exact hsteps
  | demoteLru tick => exact hsteps
  | _ => trivial

/-! ## What is known of a run -/

/-- The coroutine only calls functions of `app_tools.py` any more. -/
def OnlyTools (p : Coro Unit) : Prop := p.Uses fun op => ∃ op', op = .tools op'

/-- Which tasks there are, and how far the tick has come when the demotion is one of them. -/
structure Standing (v : Shard) (c : Loop) : Prop where
  steady : Steady v c.state
  alone : ∀ i, c.pool i ≠ none → ofQuietTick i = true
  tasks : ∀ k, c.pool (.controlAppTime 0 k) ≠ none → ∃ app, (gathered v.state.world)[k]? = some app
  inTick : ∀ p, c.pool (.demoteLru 0) = some p → (c.state.world.gathering 0).isSome = true
  returned : ∀ p, c.pool (.demoteLru 0) = some p → ∀ k app, (gathered v.state.world)[k]? = some app →
    c.returned (.controlAppTime 0 k) = true
  program : ∀ p, c.pool (.demoteLru 0) = some p → p = demoteLru (gathered v.state.world) ∨ OnlyTools p

theorem returned_setProg {p : Coro Unit} (h : c.returned j = true) (hne : j ≠ i) : (c.setProg i p).returned j = true := by
  unfold Config.returned at h ⊢
  rw [Config.setProg_pool_ne _ _ hne]
  exact h

theorem onlyTools_performs (operations : List Lifecycle.Operation) : OnlyTools (operations.forM perform) := by
  refine Prog.Uses.forM fun operation => ?_
  have htools : ∀ {p : Freeshard.Coro Unit}, p.Uses (fun _ => True) → OnlyTools (tools p) := fun h =>
    (Uses.tools h).mono fun _ ⟨op, hop, _⟩ => ⟨op, hop⟩
  cases operation with
  | startApp name => exact htools (tends_startApp.mono fun _ _ => trivial)
  | dockerPauseApp name => exact htools (tends_dockerPauseApp.mono fun _ _ => trivial)
  | dockerStopApp name => exact htools (tends_dockerStopApp.mono fun _ _ => trivial)

theorem create_of_createAlone {p : Coro Unit} (hp : createAlone c i = some p) :
    ofQuietTick i = true ∧ create c i = some p := by
  unfold createAlone at hp
  split at hp
  · next hof => exact ⟨hof, hp⟩
  · cases hp

theorem Standing.gathering (h : Standing v c) {g : Gathering} (hg : c.state.world.gathering 0 = some g) :
    g.apps = gathered v.state.world := h.steady.gathered g hg

theorem Standing.create (h : Standing v c) {p : Coro Unit} (hi : c.pool i = none) (hp : createAlone c i = some p) :
    Standing v (c.setProg i p) := by
  obtain ⟨hof, hcreate⟩ := create_of_createAlone hp
  refine ⟨h.steady, fun j hj => ?_, fun k hk => ?_, fun q hq => ?_, fun q hq k app happ => ?_, fun q hq => ?_⟩
  · by_cases hji : j = i
    · rw [hji]
      exact hof
    · rw [Config.setProg_pool_ne _ _ hji] at hj
      exact h.alone j hj
  · by_cases hki : .controlAppTime 0 k = i
    · subst hki
      obtain ⟨g, hg, hk⟩ := Option.bind_eq_some_iff.mp hcreate
      obtain ⟨app, happ, -⟩ := Option.map_eq_some_iff.mp hk
      rw [h.gathering hg] at happ
      exact ⟨app, happ⟩
    · rw [Config.setProg_pool_ne _ _ hki] at hk
      exact h.tasks k hk
  all_goals by_cases hdi : .demoteLru 0 = i
  · subst hdi
    obtain ⟨g, hg, -⟩ := Option.bind_eq_some_iff.mp hcreate
    exact Option.isSome_iff_exists.mpr ⟨g, hg⟩
  · rw [Config.setProg_pool_ne _ _ hdi] at hq
    exact h.inTick q hq
  · subst hdi
    obtain ⟨g, hg, hk⟩ := Option.bind_eq_some_iff.mp hcreate
    split at hk
    · next hready =>
      rw [← h.gathering hg] at happ
      have hlt := (List.getElem?_eq_some_iff.mp happ).1
      refine returned_setProg ?_ fun hne => by cases hne
      exact List.all_eq_true.mp (Bool.and_eq_true_iff.mp hready).2 k (List.mem_range.mpr hlt)
    · cases hk
  · rw [Config.setProg_pool_ne _ _ hdi] at hq
    have hreturned := h.returned q hq k app happ
    refine returned_setProg hreturned ?_
    rintro rfl
    rw [Config.pool_of_returned hreturned] at hi
    cases hi
  · subst hdi
    rw [Config.setProg_pool_self] at hq
    obtain rfl := Option.some.inj hq
    obtain ⟨g, hg, hk⟩ := Option.bind_eq_some_iff.mp hcreate
    split at hk
    · obtain rfl := Option.some.inj hk
      exact .inl (by rw [h.gathering hg])
    · cases hk
  · rw [Config.setProg_pool_ne _ _ hdi] at hq
    exact h.program q hq

theorem Standing.fires (h : Standing v c) {op : Op} {r : Answer op} (hf : Fires (Pressed settings) c i op r c')
    (hguar : (tickContract v i).guar c.state c'.state) : Standing v c' := by
  have hsteps : Steps v c.state c'.state := tickContract_guar (j := .demoteLru 0) hguar
  obtain ⟨next, s', hpool, ha, rfl⟩ := hf
  rw [Config.setProg_state] at hsteps
  have hbefore : ∀ j, ({ c with state := s' }.setProg i (next r)).pool j ≠ none → c.pool j ≠ none := by
    intro j hj
    by_cases hji : j = i
    · rw [hji, hpool]
      exact Option.some_ne_none _
    · rwa [Config.setProg_pool_ne _ _ hji] at hj
  have hdemoting : ∀ q, ({ c with state := s' }.setProg i (next r)).pool (.demoteLru 0) = some q →
      ∃ q', c.pool (.demoteLru 0) = some q' := fun q hq =>
    Option.ne_none_iff_exists'.mp (hbefore _ (by rw [hq]; exact Option.some_ne_none _))
  refine ⟨hsteps.steady h.steady, fun j hj => h.alone j (hbefore j hj), fun k hk => h.tasks k (hbefore _ hk),
    fun q hq => ?_, fun q hq k app happ => ?_, fun q hq => ?_⟩
  · obtain ⟨q', hq'⟩ := hdemoting q hq
    exact hsteps.gathered (h.inTick q' hq')
  · obtain ⟨q', hq'⟩ := hdemoting q hq
    have hreturned := h.returned q' hq' k app happ
    refine returned_setProg hreturned ?_
    rintro rfl
    rw [Config.pool_of_returned hreturned] at hpool
    cases hpool
  · by_cases hdi : .demoteLru 0 = i
    · subst hdi
      rw [Config.setProg_pool_self] at hq
      obtain rfl := Option.some.inj hq
      obtain hstart | htools := h.program _ hpool
      · right
        unfold demoteLru at hstart
        change Prog.await op next = Prog.await (Op.demoteLru (gathered v.state.world)) _ at hstart
        cases hstart
        cases r with
        | error e => trivial
        | ok operations => exact onlyTools_performs operations
      · exact .inr (htools.2 r)
    · rw [Config.setProg_pool_ne _ _ hdi] at hq
      exact h.program q hq

theorem PressureRun.standing (hfresh : v.gathering 0 = none) (hread : Readable v.state.world)
    (hrun : PressureRun settings v c) :
    Evolves.Meeting (Pressed settings) (tickContract v) c ∧ Standing v c := by
  refine Evolves.meeting (tickContract_stable v) (fun _ _ _ _ _ => tickContract_guar)
    (fun c i p _ hstanding hi hp => ⟨?_, hstanding.create hi hp⟩)
    (fun c i op r c' _ hstanding hf hguar => hstanding.fires hf hguar) hrun (fun i => ?_) ?_
  · obtain ⟨hof, hcreate⟩ := create_of_createAlone hp
    cases i with
    | machine id =>
      obtain rfl := Option.some.inj hcreate
      exact rg_machine
    | controlApps tick =>
      obtain rfl : tick = 0 := eq_of_beq hof
      obtain rfl := Option.some.inj hcreate
      exact rg_controlApps
    | controlAppTime tick k =>
      obtain rfl : tick = 0 := eq_of_beq hof
      obtain ⟨g, hg, hk⟩ := Option.bind_eq_some_iff.mp hcreate
      obtain ⟨app, happ, rfl⟩ := Option.map_eq_some_iff.mp hk
      rw [hstanding.gathering hg] at happ
      have hmem := (List.mem_filter.mp (List.mem_of_getElem? happ)).1
      exact Prog.rg_mono (rg_controlAppTime_returns hread hmem ⟨hstanding.steady, Option.isSome_iff_exists.mpr ⟨g, hg⟩⟩)
        fun _ _ h => h.1
    | demoteLru tick =>
      obtain rfl : tick = 0 := eq_of_beq hof
      obtain ⟨g, hg, hk⟩ := Option.bind_eq_some_iff.mp hcreate
      split at hk
      · obtain rfl := Option.some.inj hk
        refine Prog.rg_mono (rg_demoteLru_returns hread (fun app hmem => ?_)
          ⟨hstanding.steady, Option.isSome_iff_exists.mpr ⟨g, hg⟩⟩) fun _ _ h => h.1
        rw [hstanding.gathering hg] at hmem
        exact (List.mem_filter.mp hmem).1
      · cases hk
    | ensureAppIsRunning id app | startApp access => cases hof
  · cases i <;> trivial
  · refine ⟨⟨rfl, fun _ => rfl, fun g hg => ?_, fun name => .kept⟩, fun i hi => absurd rfl hi,
      fun k hk => absurd rfl hk, fun p hp => ?_, fun p hp => ?_, fun p hp => ?_⟩
    · rw [show (Config.idle ⟨v, []⟩ : Loop).state.world.gathering 0 = none from hfresh] at hg
      cases hg
    all_goals cases hp

/-! ## The time-based step -/

/-- The tasks of the apps have ended. -/
def timeBasedStepEnded (c : Loop) (g : Gathering) : Prop :=
  ∀ k < g.apps.length, c.finished (.controlAppTime 0 k) = true

theorem returned_of_finished (hmeeting : Evolves.Meeting (Pressed settings) (tickContract v) c) {k : ℕ}
    (h : c.finished (.controlAppTime 0 k) = true) : c.returned (.controlAppTime 0 k) = true := by
  have hmeets := hmeeting (.controlAppTime 0 k)
  unfold Config.finished at h
  unfold Config.returned
  cases hp : c.pool (.controlAppTime 0 k) with
  | none =>
    rw [hp] at h
    cases h
  | some p =>
    rw [hp] at h hmeets
    cases p with
    | ret a => rfl
    | raise e => cases hmeets
    | await op next => cases h

theorem demotion_begins (hfresh : v.gathering 0 = none) (hread : Readable v.state.world)
    (hrun : PressureRun settings v c) {g : Gathering} (hg : c.state.world.gathering 0 = some g)
    (hpressure : g.pressureHigh = true) (hended : timeBasedStepEnded c g) :
    create c (.demoteLru 0) = some (demoteLru (gathered v.state.world)) := by
  obtain ⟨hmeeting, hstanding⟩ := hrun.standing hfresh hread
  have hall : (List.range g.apps.length).all (fun k => c.returned (.controlAppTime 0 k)) = true := by
    rw [List.all_eq_true]
    exact fun k hk => returned_of_finished hmeeting (hended k (List.mem_range.mp hk))
  rw [create, hg]
  change (if _ then _ else _) = _
  rw [hpressure, hall, hstanding.gathering hg]
  rfl

/-! ## The demotion -/

instance : LawfulBEq (Option Status) := inferInstance

/-- The statuses after an operation whose commands succeed; `start_app` is none of a demotion's. -/
def outcome (status : String → Option Status) : Lifecycle.Operation → String → Option Status
  | .startApp _ => status
  | .dockerPauseApp name =>
    if status name = some .running then Function.update status name (some .paused) else status
  | .dockerStopApp name =>
    if status name ∈ stoppableStatus.map some then Function.update status name (some .stopped) else status

/-- Of the demotion, while nothing else touches the apps. -/
def demotionContract (T : String → Option Status) : Contract Exn Record where
  pre _ := True
  rely s s' := s'.world.state = s.world.state
  guar _ _ := True
  post _ s := (worldOf s).status = T

def afterContract (T : String → Option Status) (i : Task) : Contract Exn Record :=
  if i = .demoteLru 0 then demotionContract T else restContract

theorem afterContract_of_ne (T : String → Option Status) (h : i ≠ .demoteLru 0) : afterContract T i = restContract :=
  if_neg h

theorem afterContract_stable (T : String → Option Status) (i : Task) : (afterContract T i).Stable := by
  by_cases hi : i = .demoteLru 0
  · rw [afterContract, if_pos hi]
    refine ⟨fun _ => rfl, fun _ _ _ h h' => h'.trans h, fun _ _ _ _ => trivial, fun s s' _ hrely h => ?_⟩
    exact (congrArg (fun state : State => state.world.status) hrely).trans h
  · rw [afterContract_of_ne T hi]
    exact restContract_stable

theorem afterContract_guar (T : String → Option Status) (hij : i ≠ j) (h : (afterContract T i).guar s s') :
    (afterContract T j).rely s s' := by
  by_cases hj : j = .demoteLru 0
  · rw [afterContract_of_ne T fun hi => hij (hi.trans hj.symm)] at h
    rw [afterContract, if_pos hj]
    exact Rests.state h
  · rw [afterContract_of_ne T hj]
    trivial

theorem rg_outcome {operation : Lifecycle.Operation} {T : String → Option Status}
    (hop : ∀ name, operation ≠ .startApp name) (hT : outcome (worldOf s).status operation = T) :
    (perform operation).rg (Pressed settings i) (demotionContract T).rely (demotionContract T).guar
      (demotionContract T).post s := by
  have hstep : ∀ (s : Record) (op : Freeshard.Op) (r : Freeshard.Answer op) (s' : Record), True → True →
      Pressed settings i s (.tools op) r s' →
        Freeshard.Act .succeeding i.call s.world.state op r s'.world.state ∧ True ∧ True := by
    rintro s op r s' - - ⟨-, w', ⟨t, ha, rfl⟩, rfl⟩
    exact ⟨ha.mono (clocked_le _ _), trivial, trivial⟩
  cases operation with
  | startApp name => exact absurd rfl (hop name)
  | dockerPauseApp name =>
    refine Prog.rg_mono (tools_rg (Prog.rg_of_wp (fun s : Record => s.world.state)
      (tends_dockerPauseApp.mono fun _ _ => trivial) (fun _ _ _ h => ⟨trivial, h⟩) hstep trivial
      (wp_dockerPauseApp_update le_rfl))) fun r s' h => h.1.trans hT
  | dockerStopApp name =>
    refine Prog.rg_mono (tools_rg (Prog.rg_of_wp (fun s : Record => s.world.state)
      (tends_dockerStopApp.mono fun _ _ => trivial) (fun _ _ _ h => ⟨trivial, h⟩) hstep trivial
      (wp_dockerStopApp_update le_rfl))) fun r s' h => h.1.trans hT

theorem rg_demotion {demotion : Option Lifecycle.Operation} {T : String → Option Status}
    (hop : ∀ operation ∈ demotion, ∀ name, operation ≠ .startApp name)
    (hT : (demotion.elim (worldOf s).status fun operation => outcome (worldOf s).status operation) = T) :
    (demotion.toList.forM perform).rg (Pressed settings i) (demotionContract T).rely (demotionContract T).guar
      (demotionContract T).post s := by
  cases demotion with
  | none => exact hT
  | some operation => exact Prog.rg_bind (rg_outcome (hop operation rfl) hT) (fun _ _ h => h) fun _ _ h => h

theorem demotion_ne_start {w : Lifecycle.World} {apps : List InstalledApp} :
    ∀ operation ∈ w.demotion (w.candidates .running apps) (w.candidates .paused apps),
      ∀ name, operation ≠ .startApp name := by
  intro operation hoperation name hstart
  obtain ⟨victim, appMeta, -, -, hdemotion, -⟩ := Lifecycle.World.demotion_eq_some hoperation
  rw [hstart] at hdemotion
  unfold Lifecycle.demotionOf at hdemotion
  split at hdemotion <;> cases hdemotion

theorem pool_of_fires {op : Op} {r : Answer op} (hf : Fires (Pressed settings) c i op r c') {j : Task}
    (h : c.pool j ≠ none) : c'.pool j ≠ none := by
  obtain ⟨next, s', hpool, -, rfl⟩ := hf
  by_cases hj : j = i
  · rw [hj, Config.setProg_pool_self]
    exact Option.some_ne_none _
  · rwa [Config.setProg_pool_ne _ _ hj]

theorem Standing.ended (h : Standing v c) (hdemoting : c.pool (.demoteLru 0) ≠ none) {k : ℕ} {app : InstalledApp}
    (happ : (gathered v.state.world)[k]? = some app) : c.pool (.controlAppTime 0 k) = some (.ret ()) := by
  obtain ⟨p, hp⟩ := Option.ne_none_iff_exists'.mp hdemoting
  exact Config.pool_of_returned (h.returned p hp k app happ)

theorem rg_after (hfresh : v.gathering 0 = none) (hread : Readable v.state.world) {T : String → Option Status}
    (hrun : PressureRun settings v c) (hdemoting : c.pool (.demoteLru 0) ≠ none) (hi : c.pool i = none)
    {p : Coro Unit} (hp : createAlone c i = some p) :
    p.rg (Pressed settings i) (afterContract T i).rely (afterContract T i).guar (afterContract T i).post c.state := by
  have hstanding := (hrun.standing hfresh hread).2
  obtain ⟨hof, hcreate⟩ := create_of_createAlone hp
  rw [afterContract_of_ne T fun he => hdemoting (he ▸ hi)]
  cases i with
  | machine id =>
    obtain rfl := Option.some.inj hcreate
    exact rg_machine
  | controlApps tick =>
    obtain rfl : tick = 0 := eq_of_beq hof
    obtain rfl := Option.some.inj hcreate
    exact rg_controlApps
  | controlAppTime tick k =>
    obtain rfl : tick = 0 := eq_of_beq hof
    obtain ⟨g, hg, hk⟩ := Option.bind_eq_some_iff.mp hcreate
    obtain ⟨app, happ, -⟩ := Option.map_eq_some_iff.mp hk
    rw [hstanding.gathering hg] at happ
    rw [hstanding.ended hdemoting happ] at hi
    cases hi
  | demoteLru tick =>
    obtain rfl : tick = 0 := eq_of_beq hof
    exact absurd hi hdemoting
  | ensureAppIsRunning id app | startApp access => cases hof

/-- What has been started besides the demotion leaves the apps alone from now on. -/
theorem meets_after (hfresh : v.gathering 0 = none) (hread : Readable v.state.world)
    (hrun : PressureRun settings v c) (hdemoting : c.pool (.demoteLru 0) ≠ none) (hi : i ≠ .demoteLru 0) :
    restContract.Meets (Pressed settings i) (c.pool i) c.state := by
  obtain ⟨hmeeting, hstanding⟩ := hrun.standing hfresh hread
  have hmeets := hmeeting i
  cases hp : c.pool i with
  | none => trivial
  | some p =>
    have hof := hstanding.alone i (by rw [hp]; exact Option.some_ne_none _)
    cases i with
    | controlAppTime tick k =>
      obtain rfl : tick = 0 := eq_of_beq hof
      obtain ⟨app, happ⟩ := hstanding.tasks k (by rw [hp]; exact Option.some_ne_none _)
      rw [hstanding.ended hdemoting happ] at hp
      obtain rfl := Option.some.inj hp
      trivial
    | demoteLru tick =>
      obtain rfl : tick = 0 := eq_of_beq hof
      exact absurd rfl hi
    | machine id | controlApps tick =>
      rw [hp] at hmeets
      exact hmeets
    | ensureAppIsRunning id app | startApp access => cases hof

/-- From the decision of `_demote_lru` on only the demotion acts on apps. -/
theorem demotion_ends (hfresh : v.gathering 0 = none) (hread : Readable v.state.world) {apps : List InstalledApp}
    {r : Answer (.demoteLru apps)} (hrun : PressureRun settings v c₁)
    (hf : Fires (Pressed settings) c₁ (.demoteLru 0) (.demoteLru apps) r c₂)
    (hafter : Evolves (Pressed settings) createAlone c₂ c) (hended : c.finished (.demoteLru 0) = true) :
    apps = gathered v.state.world ∧ InTick v c₁.state ∧
      (worldOf c.state).status = (c₁.state.world.view.demotion (c₁.state.world.view.candidates .running apps)
        (c₁.state.world.view.candidates .paused apps)).elim (worldOf c₁.state).status
          fun operation => outcome (worldOf c₁.state).status operation := by
  obtain ⟨-, hstanding⟩ := hrun.standing hfresh hread
  have hf' := hf
  obtain ⟨next, s₂, hpool, hact, rfl⟩ := hf'
  have hin : InTick v c₁.state := ⟨hstanding.steady, hstanding.inTick _ hpool⟩
  -- the coroutine is the one that has just been created
  obtain hstart | htools := hstanding.program _ hpool
  case inr =>
    obtain ⟨⟨op', hop⟩, -⟩ := htools
    cases hop
  unfold demoteLru at hstart
  change Prog.await (Op.demoteLru apps) next = Prog.await (Op.demoteLru (gathered v.state.world)) _ at hstart
  cases hstart
  obtain ⟨-, w', ha, rfl⟩ := hact
  obtain ⟨hr, rfl⟩ := Prod.mk.inj (Option.some.inj ha)
  have hmem : ∀ app ∈ gathered v.state.world, app ∈ v.state.world.installedApps.rows :=
    fun app happ => (List.mem_filter.mp happ).1
  rw [decision_demoteLru hread hin hmem] at hr
  subst hr
  refine ⟨rfl, hin, ?_⟩
  generalize hT : Option.elim _ _ _ = T
  have hpost := Evolves.meeting (J := fun c => PressureRun settings v c ∧ c.pool (.demoteLru 0) ≠ none)
    (afterContract_stable T) (fun _ _ hij _ _ => afterContract_guar T hij)
    (fun c i p _ h hi hp => ⟨rg_after hfresh hread h.1 h.2 hi hp, h.1.tail (.create hi hp), fun hnone => ?_⟩)
    (fun c i op r c' _ h hf _ => ⟨h.1.tail (.fires hf), pool_of_fires hf h.2⟩) hafter (fun i => ?_)
    ⟨hrun.tail (.fires hf), by rw [Config.setProg_pool_self]; exact Option.some_ne_none _⟩
  · have hmeets := hpost.1 (.demoteLru 0)
    rw [afterContract, if_pos rfl] at hmeets
    obtain ⟨r, hstatus⟩ := Contract.Meets.post hmeets hended
    exact hstatus
  · by_cases hdi : .demoteLru 0 = i
    · rw [← hdi, Config.setProg_pool_self] at hnone
      cases hnone
    · rw [Config.setProg_pool_ne _ _ hdi] at hnone
      exact h.2 hnone
  · by_cases hi : i = .demoteLru 0
    · rw [hi, Config.setProg_pool_self, afterContract, if_pos rfl]
      exact rg_demotion demotion_ne_start hT
    · rw [afterContract_of_ne T hi]
      exact meets_after hfresh hread (hrun.tail (.fires hf)) (pool_of_fires hf (by rw [hpool]; exact Option.some_ne_none _)) hi

/-! ## Victims of the snapshot -/

theorem demotable_congr {w : Lifecycle.World} {app app' : InstalledApp} (h : app'.name = app.name) :
    w.Demotable app' = w.Demotable app := by
  unfold Lifecycle.World.Demotable Lifecycle.World.lastAccess
  rw [h]

theorem not_alwaysOn {w : Lifecycle.World} {app : InstalledApp} {appMeta : AppMeta} (h : w.Demotable app = true)
    (hmeta : w.appMetadata app.name = .ok appMeta) : appMeta.lifecycle.alwaysOn = false := by
  unfold Lifecycle.World.Demotable at h
  rw [hmeta] at h
  dsimp only at h
  rw [Bool.and_eq_true, Bool.not_eq_true'] at h
  exact h.1

/-- What is running or paused and may be demoted was so when the tick began, up to what has been paused since. -/
theorem snapshot_of_candidate (hs : InTick v s) {app : InstalledApp} (hmem : app ∈ (worldOf s).installedApps.rows)
    (hcandidate : s.world.view.Candidate app) :
    ∃ app₀ ∈ gathered v.state.world, app₀.name = app.name ∧ s.world.view.Candidate app₀ ∧
      (app₀.status = app.status ∨ app₀.status = .running ∧ app.status = .paused) := by
  have hst := status_of_mem hmem
  have hfound : ∀ {st : Status}, v.state.world.status app.name = some st → (st = .running ∨ st = .paused) →
      ∃ app₀ ∈ gathered v.state.world, app₀.name = app.name ∧ s.world.view.Candidate app₀ ∧ app₀.status = st := by
    intro st hst₀ hactive
    obtain ⟨app₀, hmem₀, hname, rfl⟩ := exists_mem_of_status hst₀
    refine ⟨app₀, List.mem_filter.mpr ⟨hmem₀, ?_⟩, hname, ⟨?_, hactive⟩, rfl⟩
    · unfold Lifecycle.controlled
      obtain hrunning | hpaused := hactive
      · rw [hrunning]
        decide
      · rw [hpaused]
        decide
    · rw [demotable_congr hname]
      exact hcandidate.1
  have hcame := hs.steady.came app.name
  rw [hst] at hcame
  generalize hnow : some app.status = now at hcame
  cases hcame with
  | kept =>
    obtain ⟨app₀, hmem₀, hname, hcandidate₀, hsame⟩ := hfound hnow.symm hcandidate.2
    exact ⟨app₀, hmem₀, hname, hcandidate₀, .inl hsame⟩
  | stopped hrow =>
    obtain hrunning | hpaused := hcandidate.2
    · rw [hrunning] at hnow
      cases hnow
    · rw [hpaused] at hnow
      cases hnow
  | started hrow hmeta halways =>
    have hview := (getAppMetadata_congr hs.steady.appDirs app.name).trans hmeta
    rw [not_alwaysOn hcandidate.1 hview] at halways
    cases halways
  | paused hrunning =>
    obtain ⟨app₀, hmem₀, hname, hcandidate₀, hsame⟩ := hfound hrunning (.inl rfl)
    exact ⟨app₀, hmem₀, hname, hcandidate₀, .inr ⟨hsame, Option.some.inj hnow⟩⟩

/-- A demotion changes the status of its app, if that is still the one it was decided for, -/
theorem outcome_changes {status : String → Option Status} {victim : InstalledApp} {appMeta : AppMeta}
    (hactive : victim.status = .running ∨ victim.status = .paused) (hkept : status victim.name = some victim.status)
    (name : String) :
    outcome status (Lifecycle.demotionOf victim appMeta) name ≠ status name ↔ name = victim.name := by
  have hupdate : ∀ st, st ≠ victim.status →
      (Function.update status victim.name (some st) name ≠ status name ↔ name = victim.name) := by
    intro st hst
    by_cases hname : name = victim.name
    · subst hname
      rw [Function.update_self, hkept]
      exact ⟨fun _ => rfl, fun _ he => hst (Option.some.inj he)⟩
    · rw [Function.update_of_ne hname]
      exact ⟨fun h => absurd rfl h, fun h => absurd h hname⟩
  unfold Lifecycle.demotionOf
  split
  · next hpause =>
    rw [outcome, if_pos (by rw [hkept, hpause.1])]
    exact hupdate .paused (by rw [hpause.1]; decide)
  · have hstoppable : status victim.name ∈ stoppableStatus.map some := by
      obtain hrunning | hpaused := hactive
      · rw [hkept, hrunning]
        decide
      · rw [hkept, hpaused]
        decide
    rw [outcome, if_pos hstoppable]
    refine hupdate .stopped ?_
    obtain hrunning | hpaused := hactive
    · rw [hrunning]
      decide
    · rw [hpaused]
      decide

theorem outcome_stale {w : World} {status : String → Option Status} {victim : InstalledApp} {appMeta : AppMeta}
    (hmem : victim ∈ w.installedApps.rows) (hmeta : w.getAppMetadata victim.name = .ok appMeta)
    (halways : appMeta.lifecycle.alwaysOn = false)
    (hcame : Came w victim.name (status victim.name)) (hstale : status victim.name ≠ some victim.status) :
    outcome status (Lifecycle.demotionOf victim appMeta) = status := by
  have hst := status_of_mem hmem
  generalize hnow : status victim.name = now at hcame hstale
  unfold Lifecycle.demotionOf
  cases hcame with
  | kept => exact absurd hst hstale
  | stopped hrow =>
    split
    · rw [outcome, if_neg (by rw [hnow]; decide)]
    · rw [outcome, if_neg (by rw [hnow]; decide)]
  | started hrow hmeta' halways' =>
    obtain rfl := Except.ok.inj (hmeta.symm.trans hmeta')
    rw [halways] at halways'
    cases halways'
  | paused hrunning hmeta' hskip =>
    obtain rfl := Except.ok.inj (hmeta.symm.trans hmeta')
    rw [if_pos ⟨Option.some.inj (hst.symm.trans hrunning), hskip⟩, outcome, if_neg (by rw [hnow]; decide)]

/-! ## Main result -/

/-- If some app may be demoted, exactly one app has another status after the demotion: the least recently used one of
the apps that are running, or else of those that are paused. -/
def DemotesPreferred (w w' : Shard) : Prop :=
  w.view.HasCandidate → ∃ victim, w.view.Victim w.view.installedApps.rows victim ∧
    ((∃ app ∈ w.view.installedApps.rows, w.view.Candidate app ∧ app.status = .running) → victim.status = .running) ∧
    ∀ name, w'.state.world.status name ≠ w.state.world.status name ↔ name = victim.name

/-- The app that comes first among those read before the time-based step still has the status that was read. -/
def FirstUnchanged (apps : List InstalledApp) (w : Shard) : Prop :=
  w.view.HasCandidate → ∀ victim, w.view.preferred apps = some victim →
    w.state.world.status victim.name = some victim.status

/-- Under memory pressure the time-based step is followed by the demotion, and that demotes the preferred one of the
apps that are left exactly if the time-based step has not changed the preferred one of the apps that there were. -/
theorem demotion_step_iff (settings : Lifecycle.Settings) (v : Shard) (hfresh : v.gathering 0 = none)
    (hread : Readable v.state.world) :
    (∀ (c : Loop) (g : Gathering), PressureRun settings v c → c.state.world.gathering 0 = some g →
      g.pressureHigh = true → timeBasedStepEnded c g →
        create c (.demoteLru 0) = some (demoteLru (gathered v.state.world))) ∧
    ∀ (c₁ c₂ c : Loop) (apps : List InstalledApp) (r : Answer (.demoteLru apps)), PressureRun settings v c₁ →
      Fires (Pressed settings) c₁ (.demoteLru 0) (.demoteLru apps) r c₂ →
        Evolves (Pressed settings) createAlone c₂ c → c.finished (.demoteLru 0) = true →
          (DemotesPreferred c₁.state.world c.state.world ↔ FirstUnchanged apps c₁.state.world) := by
  refine ⟨fun c g hrun hg hpressure hended => demotion_begins hfresh hread hrun hg hpressure hended, ?_⟩
  intro c₁ c₂ c apps r hrun hf hafter hended
  obtain ⟨rfl, hin, hstatus⟩ := demotion_ends hfresh hread hrun hf hafter hended
  have hrows : ∀ app ∈ gathered v.state.world, app ∈ v.state.world.installedApps.rows :=
    fun app happ => (List.mem_filter.mp happ).1
  constructor
  · intro hdemotes hsome victim hvictim
    obtain ⟨changed, -, -, hchanged⟩ := hdemotes hsome
    by_contra hstale
    have hvic := (Lifecycle.World.preferred_cases hvictim).1
    obtain ⟨appMeta, hmeta, hview⟩ := hin.readable hread (hrows victim hvic.mem)
    rw [Lifecycle.World.demotion_of_preferred hvictim hview, Option.elim_some,
      outcome_stale (hrows victim hvic.mem) hmeta (not_alwaysOn hvic.candidate.1 hview)
        (hin.steady.came victim.name) hstale] at hstatus
    exact (hchanged changed.name).mpr rfl (congrFun hstatus changed.name)
  · intro hunchanged hsome
    obtain ⟨app, hmem, hdemotable, hactive⟩ := hsome
    obtain ⟨app₀, hmem₀, -, hcandidate₀, -⟩ := snapshot_of_candidate hin hmem ⟨hdemotable, hactive⟩
    obtain ⟨stale, hstale⟩ := Lifecycle.World.exists_preferred hmem₀ hcandidate₀
    have hkept := hunchanged ⟨app, hmem, hdemotable, hactive⟩ stale hstale
    obtain ⟨hvic, hprefers⟩ := Lifecycle.World.preferred_cases hstale
    obtain ⟨appMeta, -, hview⟩ := hin.readable hread (hrows stale hvic.mem)
    rw [Lifecycle.World.demotion_of_preferred hstale hview, Option.elim_some] at hstatus
    obtain ⟨victim, hvictim, hname, hsame⟩ := exists_mem_of_status hkept
    have hrunning : (∃ app ∈ (worldOf c₁.state).installedApps.rows, c₁.state.world.view.Candidate app ∧
        app.status = .running) → stale.status = .running := by
      rintro ⟨app, hmem, hcandidate, hrun⟩
      obtain ⟨app₀, hmem₀, -, hcandidate₀, hbefore⟩ := snapshot_of_candidate hin hmem hcandidate
      refine hprefers ⟨app₀, hmem₀, hcandidate₀, ?_⟩
      obtain heq | ⟨hrun₀, -⟩ := hbefore
      · rw [heq, hrun]
      · exact hrun₀
    refine ⟨victim, ⟨hvictim, ⟨?_, ?_⟩, fun app hmem hcandidate heq => ?_⟩, fun h => hsame.trans (hrunning h),
      fun name => ?_⟩
    · rw [demotable_congr hname]
      exact hvic.candidate.1
    · rw [hsame]
      exact hvic.candidate.2
    · obtain ⟨app₀, hmem₀, hname₀, hcandidate₀, hbefore⟩ := snapshot_of_candidate hin hmem hcandidate
      have hle : app₀.status = stale.status := by
        obtain hsame₀ | ⟨hrun₀, hpaused⟩ := hbefore
        · rw [hsame₀, heq, hsame]
        · rw [hrun₀, hprefers ⟨app₀, hmem₀, hcandidate₀, hrun₀⟩]
      have hleast := hvic.least app₀ hmem₀ hcandidate₀ hle
      unfold Lifecycle.World.lastAccess at hleast ⊢
      rw [hname, ← hname₀]
      exact hleast
    · rw [hname]
      rw [show c.state.world.state.world.status = _ from hstatus]
      exact outcome_changes hvic.candidate.2 hkept name

/-! ## Two running apps -/

/-- The demotion is about to decide. -/
def deciding (c : Loop) : Bool :=
  match c.pool (.demoteLru 0) with
  | some (.await (.demoteLru _) _) => true
  | _ => false

theorem exists_demotion (settings : Lifecycle.Settings) (v : Shard) (turns rest : List (Turn Task Choice))
    (G : Loop → Loop → Bool)
    (h : ((Config.idle ⟨v, []⟩).playTasks (Recorded.exec (answer settings .succeeding) Recorded.anyway) createAlone
      turns).any (fun c₁ => deciding c₁ &&
        (c₁.playTasks (Recorded.exec (answer settings .succeeding) Recorded.anyway) createAlone
          (.fire (.demoteLru 0) .proceed :: rest)).any fun c => c.finished (.demoteLru 0) && G c₁ c) = true) :
    ∃ c₁ c₂ c apps r, PressureRun settings v c₁ ∧
      Fires (Pressed settings) c₁ (.demoteLru 0) (.demoteLru apps) r c₂ ∧
        Evolves (Pressed settings) createAlone c₂ c ∧ c.finished (.demoteLru 0) = true ∧ G c₁ c = true := by
  obtain ⟨c₁, hrun, h₁⟩ := exists_run settings .succeeding Recorded.anyway createAlone v turns _ h
  obtain ⟨hdeciding, hrest⟩ := Bool.and_eq_true_iff.mp h₁
  obtain ⟨c, hplay, hc⟩ := (Option.any_eq_true _ _).mp hrest
  obtain ⟨hended, hG⟩ := Bool.and_eq_true_iff.mp hc
  unfold deciding at hdeciding
  split at hdeciding
  · next apps next hpool =>
    have hexec : ∀ i s op choice r s', Recorded.exec (answer settings .succeeding) Recorded.anyway i s op choice =
        some (r, s') → Pressed settings i s op r s' := fun i s op choice r s' he =>
      Recorded.exec_act (answer settings .succeeding) Recorded.anyway
        (fun _ _ _ _ _ _ => answer_act settings) he
    obtain ⟨r, c₂, hf, hafter⟩ := Config.playTasks_fire hexec hpool hplay
    exact ⟨c₁, c₂, c, apps, r, hrun, hf, hafter, hended, hG⟩
  · cases hdeciding

/-- Two running apps under memory pressure, of which the first was last accessed at this time. -/
def Shard.squeezed (access : ℚ) : Shard where
  state := ⟨{
    installedApps := ⟨[⟨"older", .store, .running, none⟩, ⟨"newer", .store, .running, none⟩], by decide⟩
    appDirs := fun name => if name = "older" ∨ name = "newer" then
      some { appMeta := some (.accepted (.named name)), template := true, compose := true } else none
    projects := fun _ => .single .running }, []⟩
  clock := 100
  psi := 20
  lastAccessDict := fun name => some (if name = "older" then access else 80)

theorem Shard.squeezed_names {access : ℚ} {name : String} (h : (Shard.squeezed access).state.world.status name ≠ none) :
    name = "older" ∨ name = "newer" := by
  by_contra hname
  obtain ⟨holder, hnewer⟩ := not_or.mp hname
  refine h ?_
  unfold World.status InstalledApps.status InstalledApps.getByName Shard.squeezed
  simp [Ne.symm holder, Ne.symm hnewer]

theorem Shard.squeezed_readable (access : ℚ) : Readable (Shard.squeezed access).state.world := by
  intro name hrow
  unfold World.getAppMetadata Shard.squeezed
  dsimp only
  rw [if_pos (Shard.squeezed_names hrow)]
  rfl

/-- The tick looks at both apps; these are the turns between. -/
def timeTurns (between : List (Turn Task Choice)) : List (Turn Task Choice) :=
  [Turn.start (.controlApps 0), .fire (.controlApps 0) .proceed, .start (.controlAppTime 0 0),
    .fire (.controlAppTime 0 0) .proceed] ++ between ++
  [Turn.start (.controlAppTime 0 1), .fire (.controlAppTime 0 1) .proceed, .start (.demoteLru 0)]

/-- An app is paused. -/
def pauseTurns (i : Task) : List (Turn Task Choice) :=
  [.tools .proceed, .tools (.docker (.ok ()) (.single .paused)), .tools .proceed, .tools .proceed, .tools .proceed,
    .tools .proceed].map (.fire i)

def statuses (c : Loop) : List (Option Status) := ["older", "newer"].map (worldOf c.state).status

theorem status_of_statuses {st st' : Option Status} (h : statuses c = [st, st']) {name : String}
    (hname : name = "older" ∨ name = "newer") : (worldOf c.state).status name = if name = "older" then st else st' := by
  obtain ⟨holder, hrest⟩ := List.cons.inj h
  obtain rfl | rfl := hname
  · exact holder
  · exact (List.cons.inj hrest).1

/-- Neither app is due; the older one is demoted. -/
theorem demotion_step_pauses : ∃ c₁ c : Loop, PressureRun .usual (.squeezed 70) c₁ ∧
    statuses c₁ = [some .running, some .running] ∧ statuses c = [some .paused, some .running] ∧
      DemotesPreferred c₁.state.world c.state.world := by
  obtain ⟨c₁, c₂, c, apps, r, hrun, hf, hafter, hended, hG⟩ := exists_demotion .usual (.squeezed 70) (timeTurns [])
    (pauseTurns (.demoteLru 0)) (fun c₁ c => decide (statuses c₁ = [some .running, some .running] ∧
      statuses c = [some .paused, some .running])) (by decide +kernel)
  obtain ⟨hbefore, hdone⟩ := of_decide_eq_true hG
  refine ⟨c₁, c, hrun, hbefore, hdone, ((demotion_step_iff .usual (.squeezed 70) rfl
    (Shard.squeezed_readable 70)).2 c₁ c₂ c apps r hrun hf hafter hended).mpr fun _ victim hvictim => ?_⟩
  obtain ⟨rfl, -, -⟩ := demotion_ends rfl (Shard.squeezed_readable 70) hrun hf hafter hended
  have hmem := (Lifecycle.World.preferred_cases hvictim).1.mem
  have hrows : gathered (Shard.squeezed 70).state.world =
      [⟨"older", .store, .running, none⟩, ⟨"newer", .store, .running, none⟩] := rfl
  rw [hrows] at hmem
  obtain rfl | hmem := List.mem_cons.mp hmem
  · exact status_of_statuses hbefore (.inl rfl)
  · obtain rfl := List.mem_singleton.mp hmem
    exact status_of_statuses hbefore (.inr rfl)

/-- The older app is paused since it is due, and the newer one goes on running. -/
theorem demotion_step_idles : ¬ ∀ (settings : Lifecycle.Settings) (v : Shard), v.gathering 0 = none →
    Readable v.state.world → ∀ (c₁ c₂ c : Loop) (apps : List InstalledApp) (r : Answer (.demoteLru apps)),
      PressureRun settings v c₁ → Fires (Pressed settings) c₁ (.demoteLru 0) (.demoteLru apps) r c₂ →
        Evolves (Pressed settings) createAlone c₂ c → c.finished (.demoteLru 0) = true →
          DemotesPreferred c₁.state.world c.state.world := by
  intro h
  obtain ⟨c₁, c₂, c, apps, r, hrun, hf, hafter, hended, hG⟩ := exists_demotion .usual (.squeezed 0)
    (timeTurns (pauseTurns (.controlAppTime 0 0))) [.fire (.demoteLru 0) (.tools .proceed)]
    (fun c₁ c => decide (statuses c₁ = [some .paused, some .running] ∧ statuses c = [some .paused, some .running] ∧
      ∃ app ∈ c₁.state.world.view.installedApps.rows, c₁.state.world.view.Demotable app = true ∧
        (app.status = .running ∨ app.status = .paused))) (by decide +kernel)
  obtain ⟨hbefore, hdone, hsome⟩ := of_decide_eq_true hG
  have hread := Shard.squeezed_readable 0
  obtain ⟨victim, hvictim, -, hchanged⟩ := h .usual (.squeezed 0) rfl hread c₁ c₂ c apps r hrun hf hafter hended hsome
  have hsteady := (hrun.standing rfl hread).2.steady
  have hrow : (worldOf c₁.state).status victim.name ≠ none := by
    rw [status_of_mem hvictim.mem]
    exact Option.some_ne_none _
  have hname := Shard.squeezed_names ((hsteady.came victim.name).row hrow)
  refine (hchanged victim.name).mpr rfl ?_
  exact (status_of_statuses hdone hname).trans (status_of_statuses hbefore hname).symm

end Freeshard.ControlLoop

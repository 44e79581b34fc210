import Freeshard.Lifecycle.LowDiskTasks

/-! # A whole tick on a full disk

The tasks of one tick, interleaved in any way with each other, with accesses and with passing time. An app whose
metadata cannot be read is not stopped, since `_control_app_time` reads the metadata before it looks at the disk. Nor are
two paused apps with one compose project: the first that unfreezes it leaves nothing to unfreeze for the second. -/

namespace Freeshard.ControlLoop
open Coroutine
set_option autoImplicit false

/-! ## One tick -/

/-- The tasks of the tick, of accesses and of the machine. -/
def ofTick : Task → Bool
  | .controlApps tick => tick == 0
  | .controlAppTime tick _ => tick == 0
  | .demoteLru tick => tick == 0
  | _ => true

def createTick (c : Loop) (i : Task) : Option (Coro Unit) := if ofTick i then create c i else none

/-- A tick while the disk is low. -/
abbrev LowDiskRun (settings : Lifecycle.Settings) (w : Shard) (c : Loop) : Prop :=
  Evolves (Full settings) createTick (.idle ⟨w, []⟩) c

/-- All that the tick has started has ended. -/
def tickEnded (c : Loop) : Bool :=
  c.finished (.controlApps 0) && (c.state.world.gathering 0).all fun g =>
    ((List.range g.apps.length).all fun k => c.finished (.controlAppTime 0 k)) &&
      ((create c (.demoteLru 0)).isNone || c.finished (.demoteLru 0))

/-- All containers are in this state, and there are some. -/
def wholly (state : DockerState) (K : Stack) : Prop := K.states ≠ [] ∧ K.states.all (· == state) = true

/-- The compose file is in place, and the containers are as the stored status says. -/
structure Agrees (w : World) (name : String) : Prop where
  compose : ∃ cc, w.appCompose name = .ok cc
  running : w.status name = some .running → wholly .running (w.stack name)
  paused : w.status name = some .paused → wholly .paused (w.stack name)

/-- Before the tick. -/
structure Fresh (w : Shard) : Prop where
  gathering : w.gathering 0 = none
  scheduled : ∀ access, w.scheduled access = none
  agrees : ∀ name, ToStop w.state.world name → Agrees w.state.world name

/-- The metadata of the apps to be stopped can be read, and no two of them that are paused have one compose project. -/
structure Stoppables (w : World) : Prop where
  readable : ∀ name, ToStop w name → (w.getAppMetadata name).isOk = true
  unshared : ∀ name other, w.status name = some .paused → w.status other = some .paused →
    normalizeProjectName name = normalizeProjectName other → name = other

theorem unfrozen_of_running {K : Stack} (h : wholly .running K) : K.frozen = false := by
  rw [Stack.frozen, List.any_eq_false]
  intro state hmem
  rw [eq_of_beq (List.all_eq_true.mp h.2 state hmem)]
  decide

/-! ## Contracts -/

def gathered (w : World) : List InstalledApp := w.installedApps.rows.filter Lifecycle.controlled

def quietContract : Contract Exn Record where
  pre _ := True
  rely _ _ := True
  guar := Quiet
  post _ _ := True

def gatherContract : Contract Exn Record where
  pre _ := True
  rely s s' := (s.world.gathering 0).isSome = true → (s'.world.gathering 0).isSome = true
  guar := Quiet
  post _ s := (s.world.gathering 0).isSome = true

def stopContract (w : World) (name : String) : Contract Exn Record where
  pre := Untouched w name
  rely := Keeps name
  guar := Stops name (w.status name)
  post := Outcome w name

def demoteContract : Contract Exn Record where
  pre _ := True
  rely := Settles
  guar := Quiet
  post _ _ := True

def contract (w : World) : Task → Contract Exn Record
  | .controlApps 0 => gatherContract
  | .controlAppTime 0 k => ((gathered w)[k]?.map fun app => stopContract w app.name).getD quietContract
  | .demoteLru 0 => demoteContract
  | _ => quietContract

theorem contract_controlAppTime {w : World} {k : ℕ} {app : InstalledApp} (h : (gathered w)[k]? = some app) :
    contract w (.controlAppTime 0 k) = stopContract w app.name := by
  rw [contract, h]
  rfl

/-- A contract is that of a task that stops an app, or its steps are quiet. -/
inductive Kind (w : World) (i : Task) : Prop where
  | stops (k : ℕ) (app : InstalledApp) (hi : i = .controlAppTime 0 k) (happ : (gathered w)[k]? = some app)
  | gathers (hi : contract w i = gatherContract)
  | demotes (hi : contract w i = demoteContract)
  | quiet (hi : contract w i = quietContract)

theorem kind (w : World) (i : Task) : Kind w i := by
  cases i with
  | controlApps tick =>
    cases tick with
    | zero => exact .gathers rfl
    | succ tick => exact .quiet rfl
  | controlAppTime tick k =>
    cases tick with
    | zero =>
      cases happ : (gathered w)[k]? with
      | none => exact .quiet (by rw [contract, happ]; rfl)
      | some app => exact .stops k app rfl happ
    | succ tick => exact .quiet rfl
  | demoteLru tick =>
    cases tick with
    | zero => exact .demotes rfl
    | succ tick => exact .quiet rfl
  | _ => exact .quiet rfl

theorem contract_stable (w : World) (i : Task) : (contract w i).Stable := by
  cases kind w i with
  | stops k app hi happ =>
    rw [hi, contract_controlAppTime happ]
    exact ⟨Keeps.refl app.name, fun _ _ _ h h' => h.trans h', fun _ _ hkeeps h => h.keeps hkeeps,
      fun _ _ _ hkeeps h => h.keeps hkeeps⟩
  | gathers hi =>
    rw [hi]
    exact ⟨fun _ => id, fun _ _ _ h h' hsome => h' (h hsome), fun _ _ _ _ => trivial, fun _ _ _ hrely h => hrely h⟩
  | demotes hi =>
    rw [hi]
    exact ⟨fun _ _ => .inl rfl, fun _ _ _ h h' => h.trans h', fun _ _ _ _ => trivial, fun _ _ _ _ _ => trivial⟩
  | quiet hi =>
    rw [hi]
    exact ⟨fun _ => trivial, fun _ _ _ _ _ => trivial, fun _ _ _ _ => trivial, fun _ _ _ _ _ => trivial⟩

theorem guar_cases {w : World} {i : Task} {s s' : Record} (h : (contract w i).guar s s') :
    Quiet s s' ∨ ∃ k app, i = .controlAppTime 0 k ∧ (gathered w)[k]? = some app ∧
      Stops app.name (w.status app.name) s s' := by
  cases kind w i with
  | stops k app hi happ =>
    rw [hi, contract_controlAppTime happ] at h
    exact .inr ⟨k, app, hi, happ, h⟩
  | gathers hi | demotes hi | quiet hi =>
    rw [hi] at h
    exact .inl h

theorem gathered_ne {w : World} {k k' : ℕ} {app app' : InstalledApp} (h : (gathered w)[k]? = some app)
    (h' : (gathered w)[k']? = some app') (hne : k ≠ k') : app.name ≠ app'.name := by
  intro hname
  have hnodup : ((gathered w).map (·.name)).Nodup := w.installedApps.nodup.sublist (List.filter_sublist.map _)
  have hk : ((gathered w).map (·.name))[k]? = some app.name := by rw [List.getElem?_map, h]; rfl
  have hk' : ((gathered w).map (·.name))[k']? = some app.name := by rw [List.getElem?_map, h', hname]; rfl
  have hlt : k < ((gathered w).map (·.name)).length := (List.getElem?_eq_some_iff.mp hk).1
  exact hne ((List.getElem?_inj hlt hnodup).mp (hk.trans hk'.symm))

theorem Quiet.gathering_isSome {s s' : Record} (h : Quiet s s') (hsome : (s.world.gathering 0).isSome = true) :
    (s'.world.gathering 0).isSome = true := by
  obtain hsame | ⟨tick, g, -, -, hset⟩ := h.gathering
  · rw [hsame]
    exact hsome
  · rw [hset]
    by_cases htick : 0 = tick
    · rw [htick, Function.update_self]
      rfl
    · rw [Function.update_of_ne htick]
      exact hsome

theorem contract_guar {w : World} {i j : Task} (hij : i ≠ j) {s s' : Record} (h : (contract w i).guar s s') :
    (contract w j).rely s s' := by
  have hstep := guar_cases h
  cases kind w j with
  | stops k app hj happ =>
    rw [hj, contract_controlAppTime happ]
    obtain hquiet | ⟨k', app', hi, happ', hstops⟩ := hstep
    · exact hquiet.keeps app.name
    · exact hstops.keeps (gathered_ne happ happ' fun hk => hij (by rw [hi, hj, hk]))
  | gathers hj =>
    rw [hj]
    obtain hquiet | ⟨k', app', -, -, hstops⟩ := hstep
    · exact hquiet.gathering_isSome
    · exact fun hsome => hstops.gathering ▸ hsome
  | demotes hj =>
    rw [hj]
    obtain hquiet | ⟨k', app', -, -, hstops⟩ := hstep
    · exact hquiet.settles
    · exact hstops.settles
  | quiet hj =>
    rw [hj]
    trivial

/-! ## Containers are unfrozen once -/

/-- The containers of an app that was paused: frozen, or unfrozen for exactly one app of their project. -/
structure Once (name : String) (s : Record) : Prop where
  nonempty : ((worldOf s).stack name).states ≠ []
  one : (((worldOf s).stack name).states.all (· == .paused) = true ∧
      ∀ other, normalizeProjectName other = normalizeProjectName name → unpaused other s = false) ∨
    (((worldOf s).stack name).frozen = false ∧ ∃ first, unpaused first s = true ∧
      normalizeProjectName first = normalizeProjectName name ∧
      ∀ other, normalizeProjectName other = normalizeProjectName name → unpaused other s = true → other = first)

variable {settings : Lifecycle.Settings} {i : Task} {name : String} {s s' : Record} {op : Op} {r : Answer op}

theorem Once.congr (h : Once name s) (hstack : (worldOf s').stack name = (worldOf s).stack name)
    (hunpaused : ∀ other, normalizeProjectName other = normalizeProjectName name →
      unpaused other s' = unpaused other s) : Once name s' := by
  obtain ⟨hne, hone⟩ := h
  refine ⟨hstack.symm ▸ hne, ?_⟩
  rw [hstack]
  obtain ⟨hpaused, hnone⟩ | ⟨hunfrozen, first, hfirst, hproject, honly⟩ := hone
  · exact .inl ⟨hpaused, fun other hother => (hunpaused other hother).trans (hnone other hother)⟩
  · refine .inr ⟨hunfrozen, first, (hunpaused first hproject).trans hfirst, hproject, fun other hother hun => ?_⟩
    exact honly other hother ((hunpaused other hother).symm.trans hun)

theorem full_stack (h : Full settings i s op r s') (hop : ∀ other cmd, op ≠ .tools (.compose other cmd))
    (name : String) : (worldOf s').stack name = (worldOf s).stack name := by
  cases op with
  | tools op =>
    obtain ⟨t, ha, rfl⟩ := full_tools h
    refine ha.frame.stack name ?_
    cases op with
    | compose other cmd => exact absurd rfl (hop other cmd)
    | _ => rfl
  | pass =>
    obtain ⟨-, w', ⟨-, hpasses⟩, rfl⟩ := h
    rw [worldOf, Recorded.next_world, hpasses.rest]
  | gather tick =>
    obtain ⟨-, w', ha, rfl⟩ := h
    simp only [act, Shard.effect] at ha
    split at ha
    · obtain ⟨-, rfl⟩ := Prod.mk.inj (Option.some.inj ha)
      rfl
    · cases ha
  | _ =>
    obtain ⟨-, w', ha, rfl⟩ := h
    obtain ⟨-, rfl⟩ := Prod.mk.inj (Option.some.inj ha)
    rfl

theorem full_log (h : Full settings i s op r s') : ∃ w', s' = s.next i op r w' := by
  obtain ⟨-, w', -, rfl⟩ := h
  exact ⟨w', rfl⟩

theorem full_unpaused (h : Full settings i s op r s') (name : String) :
    unpaused name s' = (unpauses name ⟨i, op, r, s.world⟩ || unpaused name s) := by
  obtain ⟨w', rfl⟩ := full_log h
  rfl

theorem unpauses_stop {target : String} {r : Answer (.tools (.compose target .stop))} {v : Shard} (name : String) :
    unpauses name ⟨i, .tools (.compose target .stop), r, v⟩ = false :=
  unpauses_of_op fun _ he => by cases he

theorem unpauses_error {target : String} {cmd : ComposeCmd} {r : Answer (.tools (.compose target cmd))} {v : Shard}
    (hr : r.isOk = false) (name : String) : unpauses name ⟨i, .tools (.compose target cmd), r, v⟩ = false := by
  unfold unpauses
  split
  · next heq =>
    cases heq
    cases hr
  · rfl

theorem Once.compose {target : String} {cmd : ComposeCmd} {r : Answer (.tools (.compose target cmd))}
    (hs : Once name s) (h : Full settings i s (.tools (.compose target cmd)) r s')
    (hcmd : cmd = .stop ∨ cmd = .unpause) : Once name s' := by
  have hlog := full_unpaused h
  obtain ⟨t, ha, rfl⟩ := full_tools h
  obtain ⟨hr, hworld, -⟩ | ⟨rfl, haccepted, K, hleaves, hworld⟩ := ha.compose_exact
  · refine hs.congr (congrArg (fun v => World.stack v name) hworld) fun other _ => ?_
    rw [hlog, unpauses_error hr, Bool.false_or]
  · have hstack : t.world.stack name =
        if normalizeProjectName name = normalizeProjectName target then K else (worldOf s).stack name := by
      rw [hworld]
      unfold World.stack World.setStack
      exact Function.update_apply ..
    by_cases hproject : normalizeProjectName name = normalizeProjectName target
    · rw [if_pos hproject] at hstack
      have hsame : (worldOf s).stack name = (worldOf s).stack target := congrArg (worldOf s).projects hproject
      obtain ⟨hne, hone⟩ := hs
      rw [hsame] at hne hone
      obtain rfl | rfl := hcmd
      · have hunfrozen : ((worldOf s).stack target).frozen = false := by
          simpa [ComposeCmd.accepted, ComposeCmd.allowed] using haccepted
        have hthaws := thaws_stop haccepted hleaves
        obtain ⟨hpaused, -⟩ | ⟨-, first, hfirst, hfproject, honly⟩ := hone
        · rw [frozen_of_paused hpaused hne] at hunfrozen
          cases hunfrozen
        · have hunpaused : ∀ other, unpaused other _ = unpaused other s := fun other => by
            rw [hlog, unpauses_stop, Bool.false_or]
          refine ⟨hstack.symm ▸ hthaws.nonempty hne, .inr ⟨hstack.symm ▸ hthaws.unfrozen hunfrozen, first,
            (hunpaused first).trans hfirst, hfproject, fun other hother hun => ?_⟩⟩
          exact honly other hother ((hunpaused other).symm.trans hun)
      · have hpaused : ((worldOf s).stack target).states.all (· == .paused) = true := haccepted
        have hthaws := thaws_unpause hleaves
        rw [ComposeCmd.leaves, beq_iff_eq] at hleaves
        have hunfrozen : K.frozen = false := hleaves ▸ Stack.frozen_mapState_running _
        obtain ⟨-, hnone⟩ | ⟨hfrozen, -⟩ := hone
        · refine ⟨hstack.symm ▸ hthaws.nonempty hne, .inr ⟨hstack.symm ▸ hunfrozen, target, ?_, hproject.symm, ?_⟩⟩
          · rw [hlog]
            simp [unpauses]
          · intro other hother hun
            rw [hlog, hnone other hother, Bool.or_false] at hun
            exact (eq_of_beq hun).symm
        · rw [frozen_of_paused hpaused hne] at hfrozen
          cases hfrozen
    · rw [if_neg hproject] at hstack
      refine hs.congr hstack fun other hother => ?_
      have hne : other ≠ target := fun he => hproject (by rw [← hother, he])
      have hop : StopOp target (some .paused) (.compose target cmd) :=
        ⟨rfl, hcmd.imp_right fun hcmd => ⟨hcmd, rfl⟩⟩
      rw [hlog, unpauses_ne hop hne, Bool.false_or]

/-! ## What is known of a run -/

/-- What the tick has gathered, and what has been unfrozen. -/
structure Tracked (w : World) (c : Loop) : Prop where
  scheduled : ∀ access, c.state.world.scheduled access = none
  before : c.state.world.gathering 0 = none →
    worldOf c.state = w ∧ ∀ k, c.pool (.controlAppTime 0 k) = none
  gathered : ∀ g, c.state.world.gathering 0 = some g → g.apps = gathered w
  once : ∀ name, w.status name = some .paused → Once name c.state
  unpaused : ∀ name, unpaused name c.state = true → w.status name = some .paused

variable {w : World} {c c' : Loop}

/-- Starting a task changes nothing; a task of the gathering is started after it. -/
theorem Tracked.create (h : Tracked w c) {p : Coro Unit} (hp : createTick c i = some p) : Tracked w (c.setProg i p) := by
  refine ⟨h.scheduled, fun hnone => ⟨(h.before hnone).1, fun k => ?_⟩, h.gathered, h.once, h.unpaused⟩
  have hne : .controlAppTime 0 k ≠ i := by
    rintro rfl
    have hcreate : ControlLoop.create c (.controlAppTime 0 k) = some p := hp
    rw [ControlLoop.create, show c.state.world.gathering 0 = none from hnone] at hcreate
    cases hcreate
  rw [Config.setProg_pool_ne _ _ hne]
  exact (h.before hnone).2 k

theorem Once.quiet (hs : Once name s) (hquiet : Quiet s s') : Once name s' :=
  hs.congr (congrArg (fun v => World.stack v name) hquiet.world) fun other _ => hquiet.unpaused other

theorem Once.stops (hs : Once name s) (h : Full settings i s op r s') {target : String} {st : Option Status}
    (hstops : Stops target st s s') : Once name s' := by
  obtain ⟨e, hlog, hop⟩ := hstops.last
  obtain ⟨w', rfl⟩ := full_log h
  obtain rfl := (List.cons.inj hlog).1
  by_cases hcompose : ∃ other cmd, op = .tools (.compose other cmd)
  · obtain ⟨other, cmd, rfl⟩ := hcompose
    exact hs.compose h ((hop other cmd rfl).2.imp_right And.left)
  · have hnot : ∀ other cmd, op ≠ .tools (.compose other cmd) := fun other cmd he => hcompose ⟨other, cmd, he⟩
    refine hs.congr (full_stack h hnot name) fun other _ => ?_
    rw [full_unpaused h, unpauses_of_op fun other => hnot other .unpause, Bool.false_or]

theorem Tracked.fires (h : Tracked w c) (hf : Fires (Full settings) c i op r c')
    (hguar : (contract w i).guar c.state c'.state) : Tracked w c' := by
  have hstep := guar_cases hguar
  have hfull : Full settings i c.state op r c'.state := hf.acts
  obtain ⟨next, s', hpool, -, rfl⟩ := hf
  rw [Config.setProg_state] at hstep hfull
  obtain hquiet | ⟨k, app, rfl, happ, hstops⟩ := hstep
  · have hbefore : s'.world.gathering 0 = none → c.state.world.gathering 0 = none := by
      intro hnone
      cases hgathering : c.state.world.gathering 0 with
      | none => rfl
      | some g =>
        have hsome := hquiet.gathering_isSome (hgathering ▸ rfl)
        rw [hnone] at hsome
        cases hsome
    refine ⟨fun access => (congrFun hquiet.scheduled access).trans (h.scheduled access), fun hnone => ?_,
      fun g hg => ?_, fun name hst => (h.once name hst).quiet hquiet,
      fun name hun => h.unpaused name ((hquiet.unpaused name).symm.trans hun)⟩
    · obtain ⟨hworld, hnobody⟩ := h.before (hbefore hnone)
      refine ⟨hquiet.world.trans hworld, fun k => ?_⟩
      have hne : .controlAppTime 0 k ≠ i := by
        rintro rfl
        rw [hnobody k] at hpool
        cases hpool
      rw [Config.setProg_pool_ne _ _ hne]
      exact hnobody k
    · obtain hsame | ⟨tick, g', hnone, happs, hset⟩ := hquiet.gathering
      · exact h.gathered g ((congrFun hsame 0).symm.trans hg)
      · rw [Config.setProg_state, hset] at hg
        by_cases htick : 0 = tick
        · subst htick
          rw [Function.update_self] at hg
          obtain rfl := Option.some.inj hg
          rw [happs, (h.before hnone).1]
          rfl
        · rw [Function.update_of_ne htick] at hg
          exact h.gathered g hg
  · refine ⟨fun access => (congrFun hstops.scheduled access).trans (h.scheduled access), fun hnone => ?_,
      fun g hg => h.gathered g ((congrFun hstops.gathering 0).symm.trans hg),
      fun name hst => (h.once name hst).stops hfull hstops, fun name hun => ?_⟩
    · rw [(h.before ((congrFun hstops.gathering 0).symm.trans hnone)).2 k] at hpool
      cases hpool
    · by_cases hname : name = app.name
      · subst hname
        by_contra hst
        obtain ⟨e, hlog, hop⟩ := hstops.last
        obtain ⟨w', rfl⟩ := full_log hfull
        obtain rfl := (List.cons.inj hlog).1
        have hnot : ∀ other, op ≠ .tools (.compose other .unpause) := by
          intro other he
          obtain ⟨-, hcmd | ⟨-, hpaused⟩⟩ := hop other .unpause he
          · cases hcmd
          · exact hst hpaused
        have hbefore := full_unpaused hfull app.name
        rw [unpauses_of_op hnot, Bool.false_or] at hbefore
        exact hst (h.unpaused app.name (hbefore.symm.trans hun))
      · exact h.unpaused name ((hstops.unpaused name hname).symm.trans hun)

/-! ## Tasks meet their contracts -/

theorem rg_pass : (awaitOp .pass).rg (Full settings i) quietContract.rely Quiet quietContract.post s := by
  refine Prog.rg_perform ?_
  rintro s₁ - r _ ⟨-, w', ⟨-, -, hrest⟩, rfl⟩
  rw [hrest]
  exact ⟨⟨rfl, rfl, .inl rfl, _, rfl, fun _ _ => nofun⟩, trivial⟩

theorem rg_ensureAppIsRunning {id : ℕ} {app : InstalledApp} :
    (ensureAppIsRunning id app).rg (Full settings i) quietContract.rely Quiet quietContract.post s := by
  refine Prog.rg_bind (Φ := fun r _ => ∀ low, r = .ok low → low = true) (Prog.rg_perform ?_) ?_ fun _ _ _ => trivial
  · rintro s₁ - r _ ⟨hlow, w', ha, rfl⟩
    obtain ⟨rfl, rfl⟩ := Prod.mk.inj (Option.some.inj ha)
    refine ⟨quiet_looked fun _ _ => nofun, fun low hr => ?_⟩
    obtain rfl := Except.ok.inj hr
    exact hlow
  · intro low s₁ hlow
    rw [if_pos (hlow low rfl)]
    trivial

theorem rg_gather : (awaitOp (.gather 0)).rg (Full settings i) gatherContract.rely Quiet gatherContract.post s := by
  refine Prog.rg_perform ?_
  rintro s₁ - r _ ⟨-, w', ha, rfl⟩
  simp only [act, Shard.effect] at ha
  split at ha
  · next hnone =>
    obtain ⟨-, rfl⟩ := Prod.mk.inj (Option.some.inj ha)
    refine ⟨⟨rfl, rfl, .inr ⟨0, _, hnone, rfl, rfl⟩, _, rfl, fun _ _ => nofun⟩, ?_⟩
    have hset : Function.update s₁.world.gathering 0 (some (plan settings s₁.world.view)) 0 =
        some (plan settings s₁.world.view) := Function.update_self ..
    exact hset ▸ rfl
  · cases ha

abbrev Meeting (settings : Lifecycle.Settings) (w : World) : Loop → Prop :=
  Evolves.Meeting (Full settings) (contract w)

/-- What a task does when it is started, given what the others have done so far. -/
theorem rg_create {p : Coro Unit} (hagrees : ∀ name, ToStop w name → Agrees w name)
    (hmeeting : Meeting settings w c) (htracked : Tracked w c) (hi : c.pool i = none)
    (hp : createTick c i = some p) :
    p.rg (Full settings i) (contract w i).rely (contract w i).guar (contract w i).post c.state := by
  have hof : ofTick i = true := by
    by_contra hof
    rw [createTick, if_neg hof] at hp
    cases hp
  have hcreate : create c i = some p := by
    rw [createTick, if_pos hof] at hp
    exact hp
  cases i with
  | machine id =>
    obtain rfl := Option.some.inj hcreate
    exact rg_pass
  | ensureAppIsRunning id app =>
    obtain rfl := Option.some.inj hcreate
    exact rg_ensureAppIsRunning
  | startApp access =>
    rw [create, htracked.scheduled access] at hcreate
    cases hcreate
  | controlApps tick =>
    obtain rfl : tick = 0 := eq_of_beq hof
    obtain rfl := Option.some.inj hcreate
    exact rg_gather
  | controlAppTime tick k =>
    obtain rfl : tick = 0 := eq_of_beq hof
    obtain ⟨g, hg, hk⟩ := Option.bind_eq_some_iff.mp hcreate
    obtain ⟨app, happ, rfl⟩ := Option.map_eq_some_iff.mp hk
    rw [htracked.gathered g hg] at happ
    have huntouched := hmeeting (.controlAppTime 0 k)
    rw [hi, contract_controlAppTime happ] at huntouched
    rw [contract_controlAppTime happ]
    exact rg_controlAppTime huntouched fun hstop => (hagrees app.name hstop).compose
  | demoteLru tick =>
    obtain rfl : tick = 0 := eq_of_beq hof
    obtain ⟨g, hg, hk⟩ := Option.bind_eq_some_iff.mp hcreate
    split at hk
    · next hready =>
      obtain rfl := Option.some.inj hk
      refine Prog.rg_mono (rg_demoteLru fun app hmem => ?_) fun _ _ _ => trivial
      obtain ⟨k, hlt, happ⟩ := List.getElem_of_mem hmem
      have hreturned := List.all_eq_true.mp (Bool.and_eq_true_iff.mp hready).2 k (List.mem_range.mpr hlt)
      have hgathered : (gathered w)[k]? = some app := by
        rw [← htracked.gathered g hg, List.getElem?_eq_getElem hlt, happ]
      have houtcome := hmeeting (.controlAppTime 0 k)
      rw [Config.pool_of_returned hreturned, contract_controlAppTime hgathered] at houtcome
      exact houtcome.returned rfl
    · cases hk

/-- Every task meets its contract in every configuration that a tick reaches. -/
theorem LowDiskRun.tracked {v : Shard} (hfresh : Fresh v) (hrun : LowDiskRun settings v c) :
    Meeting settings v.state.world c ∧ Tracked v.state.world c := by
  have hagrees := hfresh.agrees
  refine Evolves.meeting (contract_stable _) (fun i j hij s s' => contract_guar hij)
    (fun c i p hmeeting htracked hi hp => ⟨rg_create hagrees hmeeting htracked hi hp, htracked.create hp⟩)
    (fun c i op r c' _ htracked hf hguar => htracked.fires hf hguar) hrun (fun i => ?_) ?_
  · cases kind v.state.world i with
    | stops k app hi happ =>
      rw [hi, contract_controlAppTime happ]
      refine ⟨rfl, rfl, fun hst => ?_, fun hst => .inl ?_, rfl⟩
      · exact unfrozen_of_running ((hagrees app.name (.inl hst)).running hst)
      · exact ((hagrees app.name (.inr hst)).paused hst).2
    | gathers hi | demotes hi | quiet hi =>
      rw [hi]
      trivial
  · refine ⟨hfresh.scheduled, fun _ => ⟨rfl, fun _ => rfl⟩, fun g hg => ?_, fun name hst => ?_, fun name hun => ?_⟩
    · rw [show (Config.idle ⟨v, []⟩ : Loop).state.world.gathering 0 = none from hfresh.gathering] at hg
      cases hg
    · obtain ⟨hne, hpaused⟩ := (hagrees name (.inr hst)).paused hst
      exact ⟨hne, .inl ⟨hpaused, fun _ _ => rfl⟩⟩
    · cases hun

/-! ## Main results -/

theorem mem_gathered_of_toStop (hstop : ToStop w name) : ∃ app ∈ gathered w, app.name = name := by
  obtain ⟨app, hrow, hstatus⟩ : ∃ app, w.installedApps.getByName name = some app ∧
      (app.status = .running ∨ app.status = .paused) := by
    unfold ToStop World.status InstalledApps.status at hstop
    cases hrow : w.installedApps.getByName name with
    | none =>
      rw [hrow] at hstop
      obtain hst | hst := hstop <;> cases hst
    | some app =>
      rw [hrow] at hstop
      exact ⟨app, rfl, hstop.imp Option.some.inj Option.some.inj⟩
  refine ⟨app, List.mem_filter.mpr ⟨List.mem_of_find?_eq_some hrow, ?_⟩, by simpa using List.find?_some hrow⟩
  unfold Lifecycle.controlled
  obtain hst | hst := hstatus <;> rw [hst] <;> decide

/-- The task of every app that is to be stopped has ended as its contract says. -/
theorem LowDiskRun.outcome {v : Shard} (hfresh : Fresh v) (hrun : LowDiskRun settings v c) (hended : tickEnded c = true)
    {name : String} (hstop : ToStop v.state.world name) : ∃ r, Outcome v.state.world name r c.state := by
  obtain ⟨hmeeting, htracked⟩ := hrun.tracked hfresh
  obtain ⟨hgather, hall⟩ := Bool.and_eq_true_iff.mp hended
  obtain ⟨r, hgathered⟩ := (hmeeting (.controlApps 0)).post hgather
  obtain ⟨g, hg⟩ := Option.isSome_iff_exists.mp (show (c.state.world.gathering 0).isSome = true from hgathered)
  rw [hg, Option.all_some] at hall
  have htasks := (Bool.and_eq_true_iff.mp hall).1
  obtain ⟨app, hmem, hname⟩ := mem_gathered_of_toStop hstop
  rw [← htracked.gathered g hg] at hmem
  obtain ⟨k, hlt, happ⟩ := List.getElem_of_mem hmem
  have hk : (gathered v.state.world)[k]? = some app := by
    rw [← htracked.gathered g hg, List.getElem?_eq_getElem hlt, happ]
  have hmeets := hmeeting (.controlAppTime 0 k)
  rw [contract_controlAppTime hk, hname] at hmeets
  exact hmeets.post (List.all_eq_true.mp htasks k (List.mem_range.mpr hlt))

/-- After a tick during which the disk was low, every app that was RUNNING or PAUSED is STOPPED exactly if all of them
have readable metadata and no two that were PAUSED share a compose project. -/
theorem low_disk_stops_iff (settings : Lifecycle.Settings) (v : Shard) (hfresh : Fresh v) (c : Loop)
    (hrun : LowDiskRun settings v c) (hended : tickEnded c = true) :
    (∀ name, ToStop v.state.world name → (worldOf c.state).status name = some .stopped) ↔
      Stoppables v.state.world := by
  have htracked := (hrun.tracked hfresh).2
  have houtcome : ∀ name, ToStop v.state.world name → ∃ r, Outcome v.state.world name r c.state :=
    fun name hstop => hrun.outcome hfresh hended hstop
  constructor
  · intro hstopped
    have hreadable : ∀ name, ToStop v.state.world name → (v.state.world.getAppMetadata name).isOk = true := by
      intro name hstop
      cases hread : (v.state.world.getAppMetadata name).isOk with
      | true => rfl
      | false =>
        obtain ⟨r, hout⟩ := houtcome name hstop
        have hsame := (hstopped name hstop).symm.trans (hout.unreadable hread)
        obtain hst | hst := hstop <;> rw [hst] at hsame <;> cases hsame
    have hunpaused : ∀ name, v.state.world.status name = some .paused → unpaused name c.state = true := by
      intro name hst
      obtain ⟨r, hout⟩ := houtcome name (.inr hst)
      obtain ⟨-, hun⟩ | ⟨hpaused, -⟩ := hout.paused (hreadable name (.inr hst)) hst
      · exact hun
      · rw [hstopped name (.inr hst)] at hpaused
        cases hpaused
    refine ⟨hreadable, fun name other hst hst' hproject => ?_⟩
    obtain ⟨-, hnone⟩ | ⟨-, first, -, -, honly⟩ := (htracked.once name hst).one
    · have hun := hunpaused name hst
      rw [hnone name rfl] at hun
      cases hun
    · have hname := honly name rfl (hunpaused name hst)
      have hother := honly other hproject.symm (hunpaused other hst')
      rw [hname, hother]
  · intro hstoppables name hstop
    obtain ⟨r, hout⟩ := houtcome name hstop
    have hread := hstoppables.readable name hstop
    obtain hst | hst := hstop
    · exact hout.running hread hst
    · obtain ⟨hstopped, -⟩ | ⟨-, hunfrozen, hnot⟩ := hout.paused hread hst
      · exact hstopped
      · have honce := htracked.once name hst
        obtain ⟨hpaused, -⟩ | ⟨-, first, hfirst, hproject, -⟩ := honce.one
        · rw [frozen_of_paused hpaused honce.nonempty] at hunfrozen
          cases hunfrozen
        · have heq := hstoppables.unshared first name (htracked.unpaused first hfirst) hst hproject
          rw [heq, hnot] at hfirst
          cases hfirst

/-! ## A running app -/

/-- A running app with this `app_meta.json`, on a full disk. -/
def Shard.full (appMeta : Option AppMetaFile) : Shard where
  state := ⟨{ World.withApp "app" .running (.single .running) with
    appDirs := Function.update (fun _ => none) "app" (some { appMeta, template := true, compose := true }) }, []⟩
  clock := 0
  diskSpaceLow := true

theorem Shard.full_name {appMeta : Option AppMetaFile} {name : String}
    (hstop : ToStop (Shard.full appMeta).state.world name) : name = "app" := by
  by_contra hne
  have hnone : (Shard.full appMeta).state.world.status name = none := by
    unfold World.status InstalledApps.status InstalledApps.getByName Shard.full World.withApp
    simp [Ne.symm hne]
  unfold ToStop at hstop
  rw [hnone] at hstop
  obtain hst | hst := hstop <;> cases hst

theorem Shard.full_fresh (appMeta : Option AppMetaFile) : Fresh (.full appMeta) := by
  refine ⟨rfl, fun _ => rfl, fun name hstop => ?_⟩
  obtain rfl := Shard.full_name hstop
  have hstack : wholly .running ((Shard.full appMeta).state.world.stack "app") :=
    show wholly .running ((World.withApp "app" .running (.single .running)).stack "app") from ⟨by decide, by decide⟩
  have hstatus : (Shard.full appMeta).state.world.status "app" ≠ some .paused :=
    show (World.withApp "app" .running (.single .running)).status "app" ≠ some .paused by decide
  refine ⟨⟨⟨"app", "app"⟩, ?_⟩, fun _ => hstack, fun hst => absurd hst hstatus⟩
  unfold World.appCompose Shard.full
  dsimp only
  rw [Function.update_self]
  rfl

/-- The tick gathers the app, and its task looks at the metadata and the disk. -/
def lookTurns : List (Turn Task Choice) :=
  [.start (.controlApps 0), .fire (.controlApps 0) .proceed, .start (.controlAppTime 0 0),
    .fire (.controlAppTime 0 0) .proceed]

/-- The app's containers are stopped. -/
def stopTurns : List (Turn Task Choice) :=
  [.tools .proceed, .tools (.docker (.ok ()) (.single .exited)), .tools .proceed, .tools .proceed].map
    (.fire (.controlAppTime 0 0))

/-- An app with metadata is stopped. -/
theorem low_disk_stops_running : ∃ c,
    LowDiskRun .usual (.full (some (.accepted (.named "app")))) c ∧ tickEnded c = true ∧
      ∀ name, ToStop (Shard.full (some (.accepted (.named "app")))).state.world name →
        (worldOf c.state).status name = some .stopped := by
  obtain ⟨c, hrun, hF⟩ := exists_run .usual .exact LowDisk createTick
    (.full (some (.accepted (.named "app")))) (lookTurns ++ stopTurns) tickEnded (by decide +kernel)
  refine ⟨c, hrun, hF, (low_disk_stops_iff .usual _ (Shard.full_fresh _) c hrun hF).mpr ⟨fun name hstop => ?_, ?_⟩⟩
  · obtain rfl := Shard.full_name hstop
    decide
  · intro name other hst hst' _
    rw [Shard.full_name (.inr hst), Shard.full_name (.inr hst')]

/-- An app without metadata goes on running. -/
theorem low_disk_leaves_running : ¬ ∀ (settings : Lifecycle.Settings) (v : Shard), Fresh v → ∀ c : Loop,
    LowDiskRun settings v c → tickEnded c = true →
      ∀ name, ToStop v.state.world name → (worldOf c.state).status name = some .stopped := by
  intro h
  obtain ⟨c, hrun, hF⟩ := exists_run .usual .exact LowDisk createTick (.full none) lookTurns
    (fun c => tickEnded c && (worldOf c.state).status "app" == some .running) (by decide +kernel)
  obtain ⟨hended, hrunning⟩ := Bool.and_eq_true_iff.mp hF
  have hstopped := h .usual (.full none) (Shard.full_fresh none) c hrun hended "app" (.inl (by decide))
  rw [eq_of_beq hrunning] at hstopped
  cases hstopped

end Freeshard.ControlLoop

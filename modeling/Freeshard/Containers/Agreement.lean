import Freeshard.Containers.Revive
import Freeshard.Service.Debt

/-! # Status and containers under interleaved calls

Each lifecycle call reads the status, moves the containers and stores a status, and between the last two
another call may move the containers again: the status stored last is then not theirs. If no call moves the
containers while another one owes the row a status, whatever is owed fits the containers, and where nothing
is owed the stored status does. -/

namespace Freeshard
open Coroutine
set_option autoImplicit false

variable {name : String} {i j : Call} {s s' : State} {op : Op} {r : Answer op}

/-! ## Statement -/

/-- The status says RUNNING, PAUSED or STOPPED exactly when the containers are running, paused or exited. -/
structure World.Agrees (w : World) (name : String) : Prop where
  running : w.status name = some .running ↔ (w.stack name).state = .running
  paused : w.status name = some .paused ↔ (w.stack name).state = .paused
  stopped : w.status name = some .stopped ↔ (w.stack name).state = .exited

/-- The state in which a command leaves the containers that it is carried out on. -/
def ComposeCmd.aim : ComposeCmd → ContainerState
  | .up => .running
  | .upNoStart => .exited
  | .pause => .paused
  | .unpause => .running
  | .stop => .exited
  | .down => .missing

/-- A command that Docker carries out and that takes the containers to another state. -/
def Op.moves (w : World) : Op → Bool
  | .compose name cmd => cmd.allowed (w.stack name) && (w.stack name).state != cmd.aim
  | _ => false

/-- Nothing fails, and no call moves the containers while another one owes the row a status. -/
def Env.patient : Env := fun s i op c => obedient s i op c ∧
  (op.moves s.world = true → ∀ e ∈ s.log, e.call ≠ i → (s.debt e.call).due = false)

instance (s : State) (i : Call) (op : Op) (c : Choice) : Decidable (Env.patient s i op c) :=
  inferInstanceAs (Decidable (_ ∧ (_ → _)))

theorem Env.patient_le_obedient : patient ≤ obedient := fun _ _ _ _ h => h.1

/-! ## What the commands do -/

/-- The status for containers in this state. -/
def ContainerState.status : ContainerState → Option Status
  | .running => some .running
  | .paused => some .paused
  | .exited => some .stopped
  | .missing => none

theorem World.Agrees.of_status {w : World} {status : Status} (hrow : w.status name = some status)
    (hstate : (w.stack name).state.status = some status) : w.Agrees name := by
  cases hst : (w.stack name).state with
  | missing =>
    rw [hst] at hstate
    cases hstate
  | _ =>
    rw [hst] at hstate
    obtain rfl := Option.some.inj hstate
    constructor <;> simp [hrow, hst]

/-- The commands of the calls followed here. -/
def movingCommands : List ComposeCmd := [.up, .unpause, .pause, .stop]

theorem Stack.state_ne_missing {K : Stack} : K.state ≠ .missing ↔ K.states ≠ [] := by
  rw [Stack.state_eq]
  split
  · next h => simp [h]
  · next h =>
    refine iff_of_true (fun hmissing => ?_) h
    unfold containerState at hmissing
    split at hmissing
    · cases hmissing
    · split at hmissing <;> cases hmissing

theorem Stack.state_of_frozen {K : Stack} (h : K.frozen = true) : K.state = .paused := by
  have hne : K.states ≠ [] := by
    intro hnil
    rw [Stack.frozen, hnil] at h
    cases h
  rw [Stack.state_eq, if_neg hne]
  exact if_pos h

theorem Stack.state_mapState_stopped {K : Stack} (hfrozen : K.frozen = false)
    (hne : K.state ≠ .missing) : (K.mapState ComposeCmd.stopped).state = .exited := by
  have hstates : (K.mapState ComposeCmd.stopped).states ≠ [] := by
    rw [Stack.states_mapState]
    exact fun hnil => Stack.state_ne_missing.mp hne (List.map_eq_nil_iff.mp hnil)
  have hunfrozen : (K.mapState ComposeCmd.stopped).states.any (· == .paused) = false :=
    (ComposeCmd.frozen_mapState_stopped K).trans hfrozen
  have hup : (K.mapState ComposeCmd.stopped).states.all (· == .running) = false := by
    obtain ⟨state, hmem⟩ := List.exists_mem_of_ne_nil _ (Stack.state_ne_missing.mp hne)
    rw [List.all_eq_false]
    refine ⟨ComposeCmd.stopped state, ?_, ?_⟩
    · rw [Stack.states_mapState]
      exact List.mem_map_of_mem hmem
    · cases state <;> decide
  rw [Stack.state_eq, if_neg hstates, containerState, hunfrozen, hup]
  simp

/-- A command that is carried out reaches its aim; only `stop` leaves a stack without containers alone. -/
theorem ComposeCmd.state_of_leaves {cmd : ComposeCmd} {K K' : Stack} (hcmd : cmd ∈ movingCommands)
    (hallowed : cmd.allowed K = true) (hleaves : cmd.leaves K K' = true)
    (hstop : cmd = .stop → K.state ≠ .missing) : K'.state = cmd.aim := by
  simp only [movingCommands, List.mem_cons, List.not_mem_nil, or_false] at hcmd
  obtain rfl | rfl | rfl | rfl := hcmd
  · exact Stack.state_of_up hleaves
  · obtain rfl := eq_of_beq hleaves
    simp only [allowed, Bool.and_eq_true, bne_iff_ne] at hallowed
    exact Stack.state_of_up (Stack.up_mapState_running hallowed.1)
  · obtain rfl := eq_of_beq hleaves
    simp only [allowed, Bool.and_eq_true, bne_iff_ne] at hallowed
    obtain ⟨state, hmem⟩ := List.exists_mem_of_ne_nil _ hallowed.1
    refine Stack.state_of_frozen ?_
    rw [Stack.frozen, Stack.states_mapState, List.any_eq_true]
    exact ⟨.paused, List.mem_map.mpr ⟨state, hmem, rfl⟩, rfl⟩
  · obtain rfl := eq_of_beq hleaves
    simp only [allowed, Bool.not_eq_true'] at hallowed
    exact Stack.state_mapState_stopped hallowed (hstop rfl)

/-- Only `up` may make new containers. -/
theorem ComposeCmd.ids_of_leaves {cmd : ComposeCmd} {K K' : Stack} (hcmd : cmd ∈ movingCommands)
    (hup : cmd ≠ .up) (hleaves : cmd.leaves K K' = true) :
    K'.containers.map (·.id) = K.containers.map (·.id) := by
  have hmap : ∀ f, (K.mapState f).containers.map (·.id) = K.containers.map (·.id) := by
    intro f
    simp [Stack.mapState]
  simp only [movingCommands, List.mem_cons, List.not_mem_nil, or_false] at hcmd
  obtain rfl | rfl | rfl | rfl := hcmd
  · exact absurd rfl hup
  · obtain rfl := eq_of_beq hleaves
    exact hmap _
  · obtain rfl := eq_of_beq hleaves
    exact hmap _
  · obtain rfl := eq_of_beq hleaves
    exact hmap _

/-! ## The invariant -/

/-- What has to hold while call `j` is this far: a call that has read a status has found a row, `start_app`
is under the lock, and the containers are what an owed status says. -/
def Debt.Fits (name : String) (w : World) (j : Call) : Debt → Prop
  | .idle => True
  | .holding => w.opLocks name = some j
  | .read status => (j.role = .startApp → w.opLocks name = some j) ∧
      (status ≠ none → w.status name ≠ none) ∧
      (j.role = .stopApp → status ∈ stoppableStatus.map some → (w.stack name).state ≠ .missing)
  | .listed status ids => w.opLocks name = some j ∧ (status ≠ none → w.status name ≠ none) ∧
      ids = (w.stack name).containers.map (·.id)
  | .thawed => w.status name ≠ none ∧ (w.stack name).state = .running ∧
      ∃ cc, w.appCompose name = .ok cc
  | .owes status => (j.role = .startApp → w.opLocks name = some j) ∧ w.status name ≠ none ∧
      (w.stack name).state.status = some status ∧
      (j.role = .pauseApp → ∃ cc, w.appCompose name = .ok cc)
  | .failed => False

structure Balanced (name : String) (s : State) : Prop where
  fits : ∀ j, (s.debt j).Fits name s.world j
  agrees : (∀ j, (s.debt j).due = false) → s.world.Agrees name
  stays : s.world.status name ≠ some .uninstalling

/-- What it takes for a call that does nothing to fit as before. -/
theorem Debt.Fits.mono {w w' : World} {l : Debt} (h : l.Fits name w j)
    (hlock : w.opLocks name = some j → w'.opLocks name = some j)
    (hrow : w.status name ≠ none → w'.status name ≠ none)
    (hcompose : w'.appCompose name = w.appCompose name)
    (hpresent : (w.stack name).state ≠ .missing → (w'.stack name).state ≠ .missing)
    (hstate : l.due = true → (w'.stack name).state = (w.stack name).state)
    (hids : w.opLocks name = some j →
      (w'.stack name).containers.map (·.id) = (w.stack name).containers.map (·.id)) :
    l.Fits name w' j := by
  cases l with
  | idle => trivial
  | holding => exact hlock h
  | read status =>
    obtain ⟨hstart, hread, hstop⟩ := h
    exact ⟨fun hj => hlock (hstart hj), fun hst => hrow (hread hst),
      fun hj hst => hpresent (hstop hj hst)⟩
  | listed status ids =>
    obtain ⟨hj, hread, hlisted⟩ := h
    exact ⟨hlock hj, fun hst => hrow (hread hst), hlisted.trans (hids hj).symm⟩
  | thawed =>
    obtain ⟨hread, hrunning, hcc⟩ := h
    refine ⟨hrow hread, (hstate rfl).trans hrunning, ?_⟩
    rw [hcompose]
    exact hcc
  | owes status =>
    obtain ⟨hstart, hread, howed, hcc⟩ := h
    refine ⟨fun hj => hlock (hstart hj), hrow hread, ?_, ?_⟩
    · rw [hstate rfl]
      exact howed
    · rw [hcompose]
      exact hcc
  | failed => exact h

/-- What a step leaves to the calls that do not perform it. -/
structure Spares (name : String) (i : Call) (s s' : State) : Prop where
  row : s.world.status name ≠ none → s'.world.status name ≠ none
  compose : s'.world.appCompose name = s.world.appCompose name
  present : (s.world.stack name).state ≠ .missing → (s'.world.stack name).state ≠ .missing
  state : ∀ j, j ≠ i → (s.debt j).due = true → (s'.world.stack name).state = (s.world.stack name).state
  ids : ∀ j, j ≠ i → s.world.opLocks name = some j →
    (s'.world.stack name).containers.map (·.id) = (s.world.stack name).containers.map (·.id)

theorem Spares.fits {E : Env} (h : Spares name i s s') (ha : Act E i s op r s') (hji : j ≠ i)
    (hfits : (s.debt j).Fits name s.world j) : (s'.debt j).Fits name s'.world j := by
  rw [(debt_tracks E name).other ha hji]
  exact hfits.mono (fun hj => ha.lock_kept hj fun _ => Ne.symm hji) h.row h.compose h.present
    (h.state j hji) (h.ids j hji)

/-- The operation touches neither the row nor the containers nor the files of the app. -/
structure Unmoved (name : String) (w w' : World) : Prop where
  status : w'.status name = w.status name
  stack : w'.stack name = w.stack name
  compose : w'.appCompose name = w.appCompose name

theorem Act.unmoved {E : Env} (ha : Act E i s op r s') (hrow : op.writesRow name = false)
    (hstack : op.commands (normalizeProjectName name) = false) (hdir : op.appDir = none) :
    Unmoved name s.world s'.world where
  status := ha.frame.status name hrow
  stack := ha.frame.stack name hstack
  compose := by
    rw [World.appCompose, World.appCompose, ha.frame.appDirs name (by rw [hdir]; exact nofun)]

theorem Unmoved.spares (h : Unmoved name s.world s'.world) : Spares name i s s' where
  row := by rw [h.status]; exact id
  compose := h.compose
  present := by rw [h.stack]; exact id
  state _ _ _ := by rw [h.stack]
  ids _ _ _ := by rw [h.stack]

theorem Debt.Fits.unmoved {w w' : World} {l : Debt} (h : l.Fits name w j) (hq : Unmoved name w w')
    (hlock : w.opLocks name = some j → w'.opLocks name = some j) : l.Fits name w' j :=
  h.mono hlock (by rw [hq.status]; exact id) hq.compose (by rw [hq.stack]; exact id)
    (fun _ => by rw [hq.stack]) fun _ => by rw [hq.stack]

namespace Balanced

/-- An app that is RUNNING or PAUSED has containers, whatever is owed. -/
theorem present (h : Balanced name s)
    (hst : s.world.status name = some .running ∨ s.world.status name = some .paused) :
    (s.world.stack name).state ≠ .missing := by
  intro hmissing
  by_cases hdue : ∀ j, (s.debt j).due = false
  · have hagrees := h.agrees hdue
    obtain hst | hst := hst
    · rw [hagrees.running.mp hst] at hmissing
      cases hmissing
    · rw [hagrees.paused.mp hst] at hmissing
      cases hmissing
  · obtain ⟨j, hj⟩ := not_forall.mp hdue
    have hfits := h.fits j
    cases hl : s.debt j with
    | thawed =>
      rw [hl] at hfits
      rw [hfits.2.1] at hmissing
      cases hmissing
    | owes status =>
      rw [hl] at hfits
      have hstate := hfits.2.2.1
      rw [hmissing] at hstate
      cases hstate
    | _ =>
      rw [hl] at hj
      exact hj rfl

/-- Nothing has changed. -/
theorem of_same (h : Balanced name s) (hw : s'.world = s.world) (hdebt : ∀ j, s'.debt j = s.debt j) :
    Balanced name s' where
  fits j := by
    rw [hw, hdebt]
    exact h.fits j
  agrees hdue := by
    rw [hw]
    exact h.agrees fun j => hdebt j ▸ hdue j
  stays := by
    rw [hw]
    exact h.stays

/-! Commands. -/

/-- A call about to command the containers, and what it owes after that. -/
structure Commanding (name : String) (s : State) (i : Call) (cmd : ComposeCmd) : Prop where
  known : cmd ∈ movingCommands
  row : s.world.status name ≠ none
  start : i.role = .startApp → s.world.opLocks name = some i
  up : cmd = .up → i.role = .startApp
  present : cmd = .stop → (s.world.stack name).state ≠ .missing
  done : ((s.debt i).after i.role (.compose name cmd) (.ok ()) = .thawed ∧ cmd = .unpause) ∨
    ∃ status, (s.debt i).after i.role (.compose name cmd) (.ok ()) = .owes status ∧
      cmd.aim.status = some status
  refused : ∀ e, e.stale = false → (s.debt i).after i.role (.compose name cmd) (.error e) = s.debt i ∨
    (s.debt i = .thawed ∧ cmd = .stop)

theorem commanding_start {cmd : ComposeCmd} {status : Option Status} (hrole : i.role = .startApp)
    (hl : (s.debt i).Pending status) (hrow : s.world.status name ≠ none)
    (hlock : s.world.opLocks name = some i) (hcmd : cmd = .up ∨ cmd = .unpause) :
    Commanding name s i cmd := by
  refine ⟨?_, hrow, fun _ => hlock, fun _ => hrole, ?_, .inr ⟨.running, ?_, ?_⟩, fun e he => .inl ?_⟩
  · obtain rfl | rfl := hcmd <;> decide
  · obtain rfl | rfl := hcmd <;> exact nofun
  · rw [hrole]
    obtain hl | ⟨ids, hl⟩ := hl <;> rw [hl] <;> rfl
  · obtain rfl | rfl := hcmd <;> rfl
  · rw [hrole]
    obtain hl | ⟨ids, hl⟩ := hl
    · rw [hl]
      exact if_neg (by rw [he]; exact nofun)
    · rw [hl]
      exact if_neg (by rw [he]; exact nofun)

theorem commanding_pending (h : Balanced name s) (hi : i.role = .startApp) {status : Option Status}
    (hl : (s.debt i).Pending status) (hst : status ≠ none) {other : String} {cmd : ComposeCmd}
    (hcmd : Op.compose other cmd = .compose name .up ∨ Op.compose other cmd = .compose name .unpause) :
    other = name ∧ Commanding name s i cmd := by
  have hknown : s.world.opLocks name = some i ∧ s.world.status name ≠ none := by
    have hfits := h.fits i
    obtain hl | ⟨ids, hl⟩ := hl
    · rw [hl] at hfits
      exact ⟨hfits.1 hi, hfits.2.1 hst⟩
    · rw [hl] at hfits
      exact ⟨hfits.1, hfits.2.1 hst⟩
  obtain hcmd | hcmd := hcmd
  · obtain ⟨rfl, rfl⟩ := Op.compose.inj hcmd
    exact ⟨rfl, commanding_start hi hl hknown.2 hknown.1 (.inl rfl)⟩
  · obtain ⟨rfl, rfl⟩ := Op.compose.inj hcmd
    exact ⟨rfl, commanding_start hi hl hknown.2 hknown.1 (.inr rfl)⟩

theorem commanding_startApp (h : Balanced name s) (hi : i.role = .startApp) {other : String}
    {cmd : ComposeCmd} (hop : (s.debt i).StartAllows name (.compose other cmd)) :
    other = name ∧ Commanding name s i cmd := by
  cases hl : s.debt i with
  | idle =>
    rw [hl] at hop
    obtain hop | hop := hop <;> cases hop
  | holding =>
    rw [hl] at hop
    obtain hop | hop | hop := hop <;> cases hop
  | read status =>
    rw [hl] at hop
    obtain hop | ⟨hst, hop | hcmd⟩ := hop
    · cases hop
    · cases hop
    · exact h.commanding_pending hi (.inl hl) hst hcmd
  | listed status ids =>
    rw [hl] at hop
    obtain hop | ⟨hst, hop | hcmd⟩ := hop
    · cases hop
    · cases hop
    · exact h.commanding_pending hi (.inr ⟨ids, hl⟩) hst hcmd
  | thawed =>
    rw [hl] at hop
    exact hop.elim
  | owes status =>
    rw [hl] at hop
    cases hop
  | failed =>
    have hfits := h.fits i
    rw [hl] at hfits
    exact hfits.elim

theorem commanding_pauseApp (h : Balanced name s) (hi : i.role = .pauseApp) {other : String}
    {cmd : ComposeCmd} (hop : (s.debt i).PauseAllows name (.compose other cmd)) :
    other = name ∧ Commanding name s i cmd := by
  have hfits := h.fits i
  cases hl : s.debt i with
  | idle =>
    rw [hl] at hop
    obtain hop | hop := hop <;> cases hop
  | read status =>
    rw [hl] at hop hfits
    obtain ⟨hst, hcmd⟩ := hop
    obtain ⟨rfl, rfl⟩ := Op.compose.inj hcmd
    refine ⟨rfl, by decide, hfits.2.1 hst, fun he => ?_, nofun, nofun, .inr ⟨.paused, ?_, rfl⟩,
      fun e _ => .inl ?_⟩
    · rw [hi] at he
      cases he
    · rw [hi, hl]
      rfl
    · rw [hi, hl]
      rfl
  | holding | listed _ _ | thawed =>
    rw [hl] at hop
    exact hop.elim
  | owes status =>
    rw [hl] at hop
    obtain hop | ⟨id, hop⟩ | hop := hop <;> cases hop
  | failed =>
    rw [hl] at hfits
    exact hfits.elim

/-- A stop thaws the containers first, or stops them at once. -/
theorem commanding_stopping (h : Balanced name s) (hi : i.role = .stopApp) {status : Option Status}
    (hl : s.debt i = .read status) (hst : status ∈ stoppableStatus.map some) {cmd : ComposeCmd}
    (hcmd : cmd = .unpause ∨ cmd = .stop) : Commanding name s i cmd := by
  have hfits := h.fits i
  rw [hl] at hfits
  have hstart : ¬i.role = .startApp := by
    rw [hi]
    exact nofun
  have hrow : s.world.status name ≠ none := by
    refine hfits.2.1 ?_
    rintro rfl
    exact absurd hst (by decide)
  obtain rfl | rfl := hcmd
  · refine ⟨by decide, hrow, fun he => absurd he hstart, nofun, nofun, .inl ⟨?_, rfl⟩,
      fun e _ => .inl ?_⟩
    · rw [hi, hl]
      rfl
    · rw [hi, hl]
      rfl
  · refine ⟨by decide, hrow, fun he => absurd he hstart, nofun, fun _ => hfits.2.2 hi hst,
      .inr ⟨.stopped, ?_, rfl⟩, fun e _ => .inl ?_⟩
    · rw [hi, hl]
      rfl
    · rw [hi, hl]
      rfl

theorem commanding_thawed (h : Balanced name s) (hi : i.role = .stopApp) (hl : s.debt i = .thawed) :
    Commanding name s i .stop := by
  have hfits := h.fits i
  rw [hl] at hfits
  refine ⟨by decide, hfits.1, fun he => ?_, nofun, fun _ hmissing => ?_, .inr ⟨.stopped, ?_, rfl⟩,
    fun e _ => .inr ⟨hl, rfl⟩⟩
  · rw [hi] at he
    cases he
  · rw [hfits.2.1] at hmissing
    cases hmissing
  · rw [hi, hl]
    rfl

theorem commanding_stopApp (h : Balanced name s) (hi : i.role = .stopApp) {other : String}
    {cmd : ComposeCmd} (hop : (s.debt i).StopAllows name (.compose other cmd)) :
    other = name ∧ Commanding name s i cmd := by
  cases hl : s.debt i with
  | idle =>
    rw [hl] at hop
    obtain hop | hop := hop <;> cases hop
  | read status =>
    rw [hl] at hop
    obtain ⟨hst, hcmd | hcmd⟩ := hop
    · obtain ⟨rfl, rfl⟩ := Op.compose.inj hcmd
      exact ⟨rfl, h.commanding_stopping hi hl hst (.inl rfl)⟩
    · obtain ⟨rfl, rfl⟩ := Op.compose.inj hcmd
      exact ⟨rfl, h.commanding_stopping hi hl hst (.inr rfl)⟩
  | thawed =>
    rw [hl] at hop
    obtain ⟨rfl, rfl⟩ := Op.compose.inj hop
    exact ⟨rfl, h.commanding_thawed hi hl⟩
  | holding | listed _ _ =>
    rw [hl] at hop
    exact hop.elim
  | owes status =>
    rw [hl] at hop
    cases hop
  | failed =>
    have hfits := h.fits i
    rw [hl] at hfits
    exact hfits.elim

theorem commanding (h : Balanced name s) (hrole : i.role ∈ revivingRoles) {other : String}
    {cmd : ComposeCmd} (hop : (debt name i.role).allows (s.debt i) (.compose other cmd)) :
    other = name ∧ Commanding name s i cmd := by
  simp only [revivingRoles, List.mem_cons, List.not_mem_nil, or_false] at hrole
  obtain hi | hi | hi := hrole
  · rw [hi] at hop
    exact h.commanding_startApp hi hop
  · rw [hi] at hop
    exact h.commanding_pauseApp hi hop
  · rw [hi] at hop
    exact h.commanding_stopApp hi hop

theorem mem_log_of_debt (h : s.debt j ≠ .idle) : ∃ e ∈ s.log, e.call = j := by
  obtain ⟨w, log⟩ := s
  change debtOf j log ≠ .idle at h
  change ∃ e ∈ log, e.call = j
  induction log with
  | nil => exact absurd rfl h
  | cons e log ih =>
    by_cases he : e.call = j
    · exact ⟨e, List.mem_cons_self, he⟩
    · rw [debtOf, if_neg he] at h
      obtain ⟨e', he', hj⟩ := ih h
      exact ⟨e', List.mem_cons_of_mem e he', hj⟩

theorem stale_appCompose {w : World} {e : Exn} (h : w.appCompose name = .error e) :
    e.stale = false := by
  unfold World.appCompose appComposeCommand at h
  dsimp only at h
  split_ifs at h <;> cases h <;> rfl

/-- A command is carried out, or it changes nothing and its failure is no report of stale containers. -/
theorem command_cases {cmd : ComposeCmd} {r : Answer (.compose name cmd)}
    (ha : Act .patient i s (.compose name cmd) r s') :
    (∃ e, r = .error e ∧ e.stale = false ∧ s'.world = s.world ∧
      ((∃ cc, s.world.appCompose name = .ok cc) → cmd.allowed (s.world.stack name) = false)) ∨
    (r = .ok () ∧ cmd.allowed (s.world.stack name) = true ∧
      (∃ cc, s.world.appCompose name = .ok cc) ∧
      cmd.leaves (s.world.stack name) (s'.world.stack name) = true) := by
  cases happ : s.world.appCompose name with
  | error e =>
    obtain ⟨c, hc, he⟩ := ha.inv
    have hob := Env.patient_le_obedient _ _ _ _ hc
    simp only [Env.obedient, happ] at hob
    subst hob
    simp only [World.exec, World.effect, happ, Option.some.injEq, Prod.mk.injEq] at he
    obtain ⟨rfl, hw⟩ := he
    refine .inl ⟨e, rfl, stale_appCompose happ, hw.symm, ?_⟩
    rintro ⟨cc, hcc⟩
    cases hcc
  | ok cc =>
    obtain ⟨hallowed, rfl, K, hleaves, hw⟩ | ⟨hrefused, hw, text, rfl, hnetwork, hcontainers⟩ :=
      ha.composed (Env.patient_le_obedient.trans Env.obedient_le_daemon) ⟨cc, happ⟩
    · refine .inr ⟨rfl, hallowed, ⟨cc, rfl⟩, ?_⟩
      rw [hw, World.setStack_stack_self]
      exact hleaves
    · refine .inl ⟨_, rfl, ?_, hw, fun _ => hrefused⟩
      rw [Exn.stale, hnetwork, hcontainers]
      rfl

theorem compose_step {other : String} {cmd : ComposeCmd} {r : Answer (.compose other cmd)}
    (h : Balanced name s) (ha : Act .patient i s (.compose other cmd) r s')
    (hrole : i.role ∈ revivingRoles)
    (hop : (debt name i.role).allows (s.debt i) (.compose other cmd)) : Balanced name s' := by
  obtain ⟨rfl, hc⟩ := h.commanding hrole hop
  have hself : s'.debt i = (s.debt i).after i.role (.compose other cmd) r :=
    (debt_tracks _ other).own ha
  have hstatus : s'.world.status other = s.world.status other := ha.frame.status other rfl
  have hcompose : s'.world.appCompose other = s.world.appCompose other := by
    rw [World.appCompose, World.appCompose, ha.frame.appDirs other nofun]
  obtain ⟨e, rfl, hstale, hw, hrefused⟩ | ⟨rfl, hallowed, hcc, hleaves⟩ := command_cases ha
  · refine h.of_same hw fun j => ?_
    by_cases hji : j = i
    · subst hji
      rw [hself]
      obtain hsame | ⟨hl, rfl⟩ := hc.refused e hstale
      · exact hsame
      · -- unfrozen containers can be stopped
        have hfits := h.fits j
        rw [hl] at hfits
        obtain ⟨-, hrunning, hcc⟩ := hfits
        have hfrozen : (s.world.stack other).frozen = true := by
          simpa [ComposeCmd.allowed] using hrefused hcc
        rw [Stack.state_of_frozen hfrozen] at hrunning
        cases hrunning
    · exact (debt_tracks _ other).other ha hji
  · have hstate : (s'.world.stack other).state = cmd.aim :=
      ComposeCmd.state_of_leaves hc.known hallowed hleaves hc.present
    have hkept : Spares other i s s' := by
      refine ⟨?_, hcompose, fun _ => ?_, fun j hji hdue => ?_, fun j hji hj => ?_⟩
      · rw [hstatus]
        exact id
      · rw [hstate]
        have hknown := hc.known
        revert hknown
        cases cmd <;> decide
      · rw [hstate]
        by_contra hmoves
        have hmoves : Op.moves s.world (.compose other cmd) = true := by
          simp only [Op.moves, hallowed, Bool.true_and, bne_iff_ne]
          exact Ne.symm hmoves
        obtain ⟨e, hmem, rfl⟩ := mem_log_of_debt (s := s) (j := j) (by
          intro hidle
          rw [hidle] at hdue
          cases hdue)
        obtain ⟨c, hc⟩ := ha.allowed
        rw [hc.2 hmoves e hmem hji] at hdue
        cases hdue
      · refine ComposeCmd.ids_of_leaves hc.known (fun hup => ?_) hleaves
        have hi := hc.start (hc.up hup)
        rw [hj] at hi
        exact hji (Option.some.inj hi)
    have hlock : i.role = .startApp → s'.world.opLocks other = some i := by
      intro hi
      rw [ha.frame.opLocks other rfl]
      exact hc.start hi
    have hrow : s'.world.status other ≠ none := by
      rw [hstatus]
      exact hc.row
    have hcc' : ∃ cc, s'.world.appCompose other = .ok cc := by
      rw [hcompose]
      exact hcc
    have hown : (s'.debt i).Fits other s'.world i ∧ (s'.debt i).due = true := by
      rw [hself]
      obtain ⟨hdone, rfl⟩ | ⟨status, hdone, haim⟩ := hc.done
      · rw [hdone]
        exact ⟨⟨hrow, hstate, hcc'⟩, rfl⟩
      · rw [hdone]
        refine ⟨⟨hlock, hrow, ?_, fun _ => hcc'⟩, rfl⟩
        rw [hstate]
        exact haim
    refine ⟨fun j => ?_, fun hdue => ?_, ?_⟩
    · by_cases hji : j = i
      · subst hji
        exact hown.1
      · exact hkept.fits ha hji (h.fits j)
    · rw [hdue i] at hown
      cases hown.2
    · rw [hstatus]
      exact h.stays

/-! The status is stored. -/

theorem owes_of_update (h : Balanced name s) (hrole : i.role ∈ revivingRoles) {other : String}
    {status : Status} (hop : (debt name i.role).allows (s.debt i) (.updateStatus other status)) :
    other = name ∧ s.debt i = .owes status := by
  have hfits := h.fits i
  simp only [revivingRoles, List.mem_cons, List.not_mem_nil, or_false] at hrole
  obtain hi | hi | hi := hrole
  · rw [hi] at hop
    have hop : (s.debt i).StartAllows name (.updateStatus other status) := hop
    cases hl : s.debt i with
    | idle =>
      rw [hl] at hop
      obtain hop | hop := hop <;> cases hop
    | holding =>
      rw [hl] at hop
      obtain hop | hop | hop := hop <;> cases hop
    | read _ | listed _ _ =>
      rw [hl] at hop
      obtain hop | ⟨-, hop | hop | hop⟩ := hop <;> cases hop
    | thawed =>
      rw [hl] at hop
      exact hop.elim
    | owes owed =>
      rw [hl] at hop
      cases hop
      exact ⟨rfl, rfl⟩
    | failed =>
      rw [hl] at hfits
      exact hfits.elim
  · rw [hi] at hop
    have hop : (s.debt i).PauseAllows name (.updateStatus other status) := hop
    cases hl : s.debt i with
    | idle =>
      rw [hl] at hop
      obtain hop | hop := hop <;> cases hop
    | read _ =>
      rw [hl] at hop
      cases hop.2
    | holding | listed _ _ | thawed =>
      rw [hl] at hop
      exact hop.elim
    | owes owed =>
      rw [hl] at hop
      obtain hop | ⟨id, hop⟩ | hop := hop <;> cases hop
      exact ⟨rfl, rfl⟩
    | failed =>
      rw [hl] at hfits
      exact hfits.elim
  · rw [hi] at hop
    have hop : (s.debt i).StopAllows name (.updateStatus other status) := hop
    cases hl : s.debt i with
    | idle =>
      rw [hl] at hop
      obtain hop | hop := hop <;> cases hop
    | read _ =>
      rw [hl] at hop
      obtain ⟨-, hop | hop⟩ := hop <;> cases hop
    | thawed =>
      rw [hl] at hop
      cases hop
    | holding | listed _ _ =>
      rw [hl] at hop
      exact hop.elim
    | owes owed =>
      rw [hl] at hop
      cases hop
      exact ⟨rfl, rfl⟩
    | failed =>
      rw [hl] at hfits
      exact hfits.elim

/-- What is owed fits the containers, so the status does once it is stored. -/
theorem update_step {other : String} {status : Status} {r : Answer (.updateStatus other status)}
    (h : Balanced name s) (ha : Act .patient i s (.updateStatus other status) r s')
    (hrole : i.role ∈ revivingRoles)
    (hop : (debt name i.role).allows (s.debt i) (.updateStatus other status)) : Balanced name s' := by
  obtain ⟨rfl, hl⟩ := h.owes_of_update hrole hop
  have hfits := h.fits i
  rw [hl] at hfits
  obtain ⟨hlock, hrow, hstate, -⟩ := hfits
  obtain ⟨rfl, hw⟩ := ha.updatedStatus (Env.patient_le_obedient.trans Env.obedient_le_reliable)
  have hstatus : s'.world.status other = some status := by
    obtain ⟨old, hold⟩ := Option.ne_none_iff_exists'.mp hrow
    rw [hw, World.setStatus_status_self, hold]
    rfl
  have hstack : s'.world.stack other = s.world.stack other := ha.frame.stack other rfl
  have hkept : Spares other i s s' := by
    refine ⟨fun _ => ?_, ?_, ?_, fun _ _ _ => ?_, fun _ _ _ => ?_⟩
    · rw [hstatus]
      exact nofun
    · rw [hw]
      rfl
    · rw [hstack]
      exact id
    · rw [hstack]
    · rw [hstack]
  have hown : (s'.debt i).Fits other s'.world i := by
    rw [(debt_tracks _ other).own ha, hl]
    simp only [revivingRoles, List.mem_cons, List.not_mem_nil, or_false] at hrole
    obtain hi | hi | hi := hrole
    · rw [hi]
      change s'.world.opLocks other = some i
      rw [ha.frame.opLocks other rfl]
      exact hlock hi
    · rw [hi]
      trivial
    · rw [hi]
      trivial
  refine ⟨fun j => ?_, fun _ => ?_, ?_⟩
  · by_cases hji : j = i
    · subst hji
      exact hown
    · exact hkept.fits ha hji (h.fits j)
  · refine .of_status hstatus ?_
    rw [hstack]
    exact hstate
  · rw [hstatus]
    rintro hun
    obtain rfl := Option.some.inj hun
    cases hst : (s.world.stack other).state <;> rw [hst] at hstate <;> cases hstate

/-! Everything else. -/

theorem fits_read (h : Balanced name s) (hlock : i.role = .startApp → s.world.opLocks name = some i) :
    (Debt.read (s.world.status name)).Fits name s.world i := by
  refine ⟨hlock, id, fun _ hst => ?_⟩
  obtain ⟨status, hmem, hrow⟩ := List.mem_map.mp hst
  simp only [stoppableStatus, List.mem_cons, List.not_mem_nil, or_false] at hmem
  obtain rfl | rfl | rfl := hmem
  · exact h.present (.inl hrow.symm)
  · exact h.present (.inr hrow.symm)
  · exact absurd hrow.symm h.stays

/-- What a step that neither commands nor stores leaves of the debt of its own call. -/
structure Keeps (name : String) (i : Call) (s s' : State) : Prop where
  unmoved : Unmoved name s.world s'.world
  fits : (s'.debt i).Fits name s'.world i
  due : (s.debt i).due = true → (s'.debt i).due = true

/-- The debt of the call is what it was. -/
theorem keeps_same (h : Balanced name s) {E : Env} (ha : Act E i s op r s')
    (hq : Unmoved name s.world s'.world) (hdebt : s'.debt i = s.debt i)
    (hop : op ≠ .release name) : Keeps name i s s' := by
  refine ⟨hq, ?_, ?_⟩
  · rw [hdebt]
    exact (h.fits i).unmoved hq fun hi => ha.lock_kept hi fun he => absurd he hop
  · rw [hdebt]
    exact id

theorem keeps_notify {r : Answer .onAppsUpdate} (h : Balanced name s)
    (ha : Act .patient i s .onAppsUpdate r s') (hdebt : s'.debt i = s.debt i) :
    Keeps name i s s' := h.keeps_same ha (ha.unmoved rfl rfl rfl) hdebt nofun

theorem keeps_read {r : Answer (.getByName name)} (h : Balanced name s)
    (ha : Act .patient i s (.getByName name) r s')
    (hlock : i.role = .startApp → s.world.opLocks name = some i) (hdue : (s.debt i).due = false)
    (hdebt : ∀ row, r = .ok row → s'.debt i = .read (row.map (·.status))) : Keeps name i s s' := by
  obtain ⟨hr, hw⟩ := ha.gotByName (Env.patient_le_obedient.trans Env.obedient_le_reliable)
  refine ⟨ha.unmoved rfl rfl rfl, ?_, ?_⟩
  · rw [hdebt _ hr, hw]
    exact h.fits_read hlock
  · rw [hdue]
    exact nofun

/-- What `start_app` does next to its debt. -/
theorem debt_start {E : Env} (name : String) (ha : Act E i s op r s') (hi : i.role = .startApp) :
    s'.debt i = (s.debt i).afterStart op r := by
  rw [(debt_tracks _ name).own ha, hi]
  rfl

theorem keeps_release {r : Answer (.release name)} (ha : Act .patient i s (.release name) r s')
    (hdue : (s.debt i).due = false) (hidle : s'.debt i = .idle) : Keeps name i s s' := by
  refine ⟨ha.unmoved rfl rfl rfl, ?_, ?_⟩
  · rw [hidle]
    trivial
  · rw [hdue]
    exact nofun

theorem keeps_throttling (h : Balanced name s) (ha : Act .patient i s op r s')
    (hi : i.role = .startApp) (hl : s.debt i = .idle) (hop : op = .throttle name ∨ op = .acquire name) :
    Keeps name i s s' := by
  have hself := debt_start name ha hi
  rw [hl] at hself
  obtain rfl | rfl := hop
  · refine h.keeps_same ha (ha.unmoved rfl rfl rfl) ?_ nofun
    rw [hself, hl]
    cases r <;> rfl
  · obtain ⟨-, rfl, hw⟩ := ha.acquired (Env.patient_le_obedient.trans Env.obedient_le_reliable)
    refine ⟨ha.unmoved rfl rfl rfl, ?_, ?_⟩
    · rw [hself]
      change s'.world.opLocks name = some i
      rw [hw, World.setLock_opLocks_self]
    · rw [hl]
      exact nofun

theorem keeps_holding (h : Balanced name s) (ha : Act .patient i s op r s') (hi : i.role = .startApp)
    (hl : s.debt i = .holding) (hop : op = .getByName name ∨ op = .onAppsUpdate ∨ op = .release name) :
    Keeps name i s s' := by
  have hfits := h.fits i
  have hself := debt_start name ha hi
  rw [hl] at hself hfits
  obtain rfl | rfl | rfl := hop
  · refine h.keeps_read ha (fun _ => hfits) (by rw [hl]; rfl) ?_
    rintro row rfl
    exact hself
  · refine h.keeps_notify ha ?_
    rw [hself, hl]
    cases r <;> rfl
  · refine keeps_release ha (by rw [hl]; rfl) ?_
    rw [hself]
    cases r <;> rfl

/-- The containers are listed, with the status read. -/
theorem keeps_listing (h : Balanced name s) {r : Answer (.composePs name true)}
    (ha : Act .patient i s (.composePs name true) r s') (hi : i.role = .startApp) {status : Option Status}
    (hl : s.debt i = .read status) : Keeps name i s s' := by
  have hfits := h.fits i
  have hself := debt_start name ha hi
  rw [hl] at hself hfits
  have hq : Unmoved name s.world s'.world := ha.unmoved rfl rfl rfl
  obtain hfailed | rfl := ha.listed
  · refine h.keeps_same ha hq ?_ nofun
    rw [hself, hl]
    cases r with
    | error e => rfl
    | ok ids => cases hfailed
  · refine ⟨hq, ?_, ?_⟩
    · rw [hself]
      refine ⟨?_, fun hne => ?_, ?_⟩
      · rw [ha.frame.opLocks name rfl]
        exact hfits.1 hi
      · rw [hq.status]
        exact hfits.2.1 hne
      · rw [World.containerIds_stack, hq.stack]
    · rw [hl]
      exact nofun

/-- The containers that were listed are looked at: if they run although the status says otherwise, it is owed. -/
theorem keeps_inspecting (h : Balanced name s) {status : Option Status} {ids : List ℕ}
    {r : Answer (.inspect name ids)} (ha : Act .patient i s (.inspect name ids) r s')
    (hi : i.role = .startApp) (hl : s.debt i = .listed status ids) (hst : status ≠ none) :
    Keeps name i s s' := by
  have hfits := h.fits i
  have hself := debt_start name ha hi
  rw [hl] at hself hfits
  have hq : Unmoved name s.world s'.world := ha.unmoved rfl rfl rfl
  obtain hfailed | ⟨states, hstates, rfl⟩ := ha.inspected
  · refine h.keeps_same ha hq ?_ nofun
    rw [hself, hl]
    cases r with
    | error e => rfl
    | ok states => cases hfailed
  obtain ⟨hlock, hrow, rfl⟩ := hfits
  rw [World.inspectStates_stack] at hstates
  obtain rfl := Option.some.inj hstates
  have hafter : s'.debt i = if containerState (s.world.stack name).states = .running ∧
      status ≠ some .running then .owes .running
      else .listed status ((s.world.stack name).containers.map (·.id)) := hself
  by_cases hrunning : containerState (s.world.stack name).states = .running ∧ status ≠ some .running
  · rw [if_pos hrunning] at hafter
    have hstate : (s.world.stack name).state = .running := by
      have hne : (s.world.stack name).states ≠ [] := by
        intro hnil
        rw [hnil] at hrunning
        cases hrunning.1
      rw [Stack.state_eq, if_neg hne]
      exact hrunning.1
    refine ⟨hq, ?_, ?_⟩
    · rw [hafter]
      refine ⟨fun _ => ?_, ?_, ?_, ?_⟩
      · rw [ha.frame.opLocks name rfl]
        exact hlock
      · rw [hq.status]
        exact hrow hst
      · rw [hq.stack, hstate]
        rfl
      · rw [hi]
        exact nofun
    · rw [hafter]
      exact fun _ => rfl
  · rw [if_neg hrunning] at hafter
    exact h.keeps_same ha hq (hafter.trans hl.symm) nofun

theorem keeps_start (h : Balanced name s) (ha : Act .patient i s op r s') (hi : i.role = .startApp)
    (hop : (s.debt i).StartAllows name op) (hcompose : ∀ other cmd, op ≠ .compose other cmd)
    (hupdate : ∀ other status, op ≠ .updateStatus other status) : Keeps name i s s' := by
  have hreleased : ∀ {r : Answer (.release name)}, Act .patient i s (.release name) r s' →
      ∀ status, (s.debt i).Pending status → Keeps name i s s' := by
    intro r ha status hl
    have hself := debt_start name ha hi
    obtain hl | ⟨ids, hl⟩ := hl <;> rw [hl] at hself <;>
      exact keeps_release ha (by rw [hl]; rfl) (hself.trans (by cases r <;> rfl))
  cases hl : s.debt i with
  | idle =>
    rw [hl] at hop
    exact h.keeps_throttling ha hi hl hop
  | holding =>
    rw [hl] at hop
    exact h.keeps_holding ha hi hl hop
  | read status =>
    rw [hl] at hop
    obtain rfl | ⟨hst, rfl | rfl | rfl⟩ := hop
    · exact hreleased ha status (.inl hl)
    · exact h.keeps_listing ha hi hl
    · exact absurd rfl (hcompose _ _)
    · exact absurd rfl (hcompose _ _)
  | listed status ids =>
    rw [hl] at hop
    obtain rfl | ⟨hst, rfl | rfl | rfl⟩ := hop
    · exact hreleased ha status (.inr ⟨ids, hl⟩)
    · exact h.keeps_inspecting ha hi hl hst
    · exact absurd rfl (hcompose _ _)
    · exact absurd rfl (hcompose _ _)
  | thawed =>
    rw [hl] at hop
    exact hop.elim
  | owes status =>
    rw [hl] at hop
    exact absurd hop (hupdate _ _)
  | failed =>
    have hfits := h.fits i
    rw [hl] at hfits
    exact hfits.elim

theorem keeps_idle (h : Balanced name s) (ha : Act .patient i s op r s')
    (hi : i.role = .pauseApp ∨ i.role = .stopApp) (hl : s.debt i = .idle)
    (hop : op = .getByName name ∨ op = .onAppsUpdate) : Keeps name i s s' := by
  have hself : s'.debt i = Debt.afterDemotion .idle op r := by
    rw [(debt_tracks _ name).own ha, hl]
    obtain hi | hi := hi <;> rw [hi] <;> rfl
  obtain rfl | rfl := hop
  · refine h.keeps_read ha (fun hstart => ?_) (by rw [hl]; rfl) ?_
    · rw [hstart] at hi
      obtain hi | hi := hi <;> cases hi
    · rintro row rfl
      exact hself
  · refine h.keeps_notify ha ?_
    rw [hself, hl]
    cases r <;> rfl

theorem keeps_pause (h : Balanced name s) (ha : Act .patient i s op r s') (hi : i.role = .pauseApp)
    (hop : (s.debt i).PauseAllows name op) (hcompose : ∀ other cmd, op ≠ .compose other cmd)
    (hupdate : ∀ other status, op ≠ .updateStatus other status) : Keeps name i s s' := by
  have hfits := h.fits i
  have hself : s'.debt i = (s.debt i).afterDemotion op r := by
    rw [(debt_tracks _ name).own ha, hi]
    rfl
  cases hl : s.debt i with
  | idle =>
    rw [hl] at hop
    exact h.keeps_idle ha (.inl hi) hl hop
  | read status =>
    rw [hl] at hop
    exact absurd hop.2 (hcompose _ _)
  | owes status =>
    rw [hl] at hop hself hfits
    obtain rfl | ⟨id, rfl⟩ | rfl := hop
    · refine h.keeps_same ha (ha.unmoved rfl rfl rfl) ?_ fun he => by cases he
      obtain ⟨cc, hcc⟩ := hfits.2.2.2 hi
      have heffect := ha.undisturbed Env.patient_le_obedient (fun _ _ he => by cases he)
        fun _ he => by cases he
      simp only [World.effect, hcc, Option.some.injEq, Prod.mk.injEq] at heffect
      obtain ⟨rfl, -⟩ := heffect
      exact hself.trans hl.symm
    · refine h.keeps_same ha (ha.unmoved rfl rfl rfl) ?_ fun he => by cases he
      have heffect := ha.undisturbed Env.patient_le_obedient (fun _ _ he => by cases he)
        fun _ he => by cases he
      simp only [World.effect, Option.some.injEq, Prod.mk.injEq] at heffect
      obtain ⟨rfl, -⟩ := heffect
      exact hself.trans hl.symm
    · exact absurd rfl (hupdate _ _)
  | holding | listed _ _ | thawed =>
    rw [hl] at hop
    exact hop.elim
  | failed =>
    rw [hl] at hfits
    exact hfits.elim

theorem keeps_stop (h : Balanced name s) (ha : Act .patient i s op r s') (hi : i.role = .stopApp)
    (hop : (s.debt i).StopAllows name op) (hcompose : ∀ other cmd, op ≠ .compose other cmd)
    (hupdate : ∀ other status, op ≠ .updateStatus other status) : Keeps name i s s' := by
  cases hl : s.debt i with
  | idle =>
    rw [hl] at hop
    exact h.keeps_idle ha (.inr hi) hl hop
  | read status =>
    rw [hl] at hop
    obtain ⟨-, hop | hop⟩ := hop
    · exact absurd hop (hcompose _ _)
    · exact absurd hop (hcompose _ _)
  | thawed =>
    rw [hl] at hop
    exact absurd hop (hcompose _ _)
  | owes status =>
    rw [hl] at hop
    exact absurd hop (hupdate _ _)
  | holding | listed _ _ =>
    rw [hl] at hop
    exact hop.elim
  | failed =>
    have hfits := h.fits i
    rw [hl] at hfits
    exact hfits.elim

theorem of_keeps (h : Balanced name s) (ha : Act .patient i s op r s') (hk : Keeps name i s s') :
    Balanced name s' where
  fits j := by
    by_cases hji : j = i
    · subst hji
      exact hk.fits
    · exact hk.unmoved.spares.fits ha hji (h.fits j)
  agrees hdue := by
    have hbefore : ∀ j, (s.debt j).due = false := by
      intro j
      by_cases hji : j = i
      · subst hji
        by_contra hne
        have hafter := hk.due (Bool.not_eq_false _ ▸ hne)
        rw [hdue j] at hafter
        cases hafter
      · rw [← (debt_tracks _ name).other ha hji]
        exact hdue j
    have hagrees := h.agrees hbefore
    constructor
    · rw [hk.unmoved.status, hk.unmoved.stack]
      exact hagrees.running
    · rw [hk.unmoved.status, hk.unmoved.stack]
      exact hagrees.paused
    · rw [hk.unmoved.status, hk.unmoved.stack]
      exact hagrees.stopped
  stays := by
    rw [hk.unmoved.status]
    exact h.stays

theorem step (h : Balanced name s) (ha : Act .patient i s op r s') (hrole : i.role ∈ revivingRoles)
    (hop : (debt name i.role).allows (s.debt i) op) : Balanced name s' := by
  by_cases hcompose : ∃ other cmd, op = .compose other cmd
  · obtain ⟨other, cmd, rfl⟩ := hcompose
    exact h.compose_step ha hrole hop
  by_cases hupdate : ∃ other status, op = .updateStatus other status
  · obtain ⟨other, status, rfl⟩ := hupdate
    exact h.update_step ha hrole hop
  have hcompose : ∀ other cmd, op ≠ .compose other cmd := fun other cmd he => hcompose ⟨other, cmd, he⟩
  have hupdate : ∀ other status, op ≠ .updateStatus other status :=
    fun other status he => hupdate ⟨other, status, he⟩
  refine h.of_keeps ha ?_
  simp only [revivingRoles, List.mem_cons, List.not_mem_nil, or_false] at hrole
  obtain hi | hi | hi := hrole
  · rw [hi] at hop
    exact h.keeps_start ha hi hop hcompose hupdate
  · rw [hi] at hop
    exact h.keeps_pause ha hi hop hcompose hupdate
  · rw [hi] at hop
    exact h.keeps_stop ha hi hop hcompose hupdate

theorem initial {w : World} (hw : w.Agrees name) (hstays : w.status name ≠ some .uninstalling) :
    Balanced name ⟨w, []⟩ where
  fits _ := trivial
  agrees _ := hw
  stays := hstays

end Balanced

/-! ## Main result -/

/-- If no call moves the containers while another one owes the row a status, and the app is not being
uninstalled, then status and containers agree again once all calls have ended. -/
theorem agrees_when_ended {name : String} {w : World} {c : Config Op Ans Exn State Call}
    (hw : w.Agrees name) (hstays : w.status name ≠ some .uninstalling)
    (h : Runs .patient revivingRoles name w c) (hquiet : c.Quiescent) : c.state.world.Agrees name := by
  have hconforms := fun i p (hp : StartsOf revivingRoles name i p) => hp.pays
  have hidle : Conforming (fun i => debt name (Call.role i)) State.debt (StartsOf revivingRoles name)
      (fun _ => .idle) (fun _ _ l => l.due = false) (.idle (⟨w, []⟩ : State)) := Conforming.idle fun _ => rfl
  have hbalanced : Balanced name c.state :=
    Reaches.invariant_allowed (debt_tracks _ name) hconforms
      (fun _ _ _ _ _ hp hop hs ha => hs.step ha hp.choose_spec.1 hop) h hidle (.initial hw hstays)
  refine hbalanced.agrees fun i => ?_
  obtain hl | ⟨-, hdue⟩ := Reaches.conforming_ended (debt_tracks _ name) hconforms h hidle hquiet i
  · rw [hl]
    rfl
  · exact hdue

/-! ## Two runs -/

/-- A running app is paused, and started again afterwards. -/
theorem agrees_when_ended_run : ∃ w c, w.Agrees "app" ∧ Runs .patient revivingRoles "app" w c ∧
    c.Quiescent ∧ c.state.world.status "app" = some .running ∧ c.state.world.Agrees "app" := by
  let pause : Call := ⟨.pauseApp, 0⟩
  let start : Call := ⟨.startApp, 0⟩
  let cues := Cue.start pause :: Cue.fires pause ([Choice.proceed, .docker (.ok ()) (.single .paused)] ++
      List.replicate 4 Choice.proceed) ++
    Cue.start start :: Cue.fires start (Choice.clock 10 :: List.replicate 4 Choice.proceed ++
      [Choice.docker (.ok ()) (.single .running)] ++ List.replicate 3 Choice.proceed)
  obtain ⟨c, hrun, hF, hquiet⟩ := exists_run_config .patient revivingRoles "app"
    (.withApp "app" .running (.single .running)) 1 cues
    (fun c => cues.all (fun cue => c.ended cue.call) && c.state.world.status "app" == some .running)
    (by decide) (by decide +kernel)
  simp only [Bool.and_eq_true, beq_iff_eq] at hF
  obtain ⟨hended, hstatus⟩ := hF
  have hw : (World.withApp "app" .running (.single .running)).Agrees "app" := ⟨by decide, by decide, by decide⟩
  exact ⟨_, c, hw, hrun, hquiet hended, hstatus,
    agrees_when_ended hw (by decide) hrun (hquiet hended)⟩

/-- While a pause reclaims the memory of the frozen containers, `start_app` unfreezes them and stores
RUNNING; the pause then stores PAUSED. -/
theorem paused_while_running : ¬ ∀ (w : World) (c : Config Op Ans Exn State Call), w.Agrees "app" →
    Runs .obedient revivingRoles "app" w c → c.Quiescent → c.state.world.Agrees "app" := by
  intro h
  let pause : Call := ⟨.pauseApp, 0⟩
  let start : Call := ⟨.startApp, 0⟩
  let cues := Cue.start pause :: Cue.fires pause [Choice.proceed, .docker (.ok ()) (.single .paused)] ++
    Cue.start start :: Cue.fires start (Choice.clock 10 :: List.replicate 4 Choice.proceed ++
      [Choice.docker (.ok ()) (.single .running)] ++ List.replicate 3 Choice.proceed) ++
    Cue.fires pause (List.replicate 4 Choice.proceed)
  obtain ⟨c, hrun, hF, hquiet⟩ := exists_run_config .obedient revivingRoles "app"
    (.withApp "app" .running (.single .running)) 1 cues
    (fun c => cues.all (fun cue => c.ended cue.call) && (c.state.world.status "app" == some .paused &&
      (c.state.world.stack "app").state == .running))
    (by decide) (by decide +kernel)
  simp only [Bool.and_eq_true, beq_iff_eq] at hF
  obtain ⟨hended, hpaused, hrunning⟩ := hF
  have hagrees := h _ c ⟨by decide, by decide, by decide⟩ hrun (hquiet hended)
  rw [hagrees.paused.mp hpaused] at hrunning
  cases hrunning

end Freeshard

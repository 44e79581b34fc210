import Freeshard.Service.Progress

/-! # How far the worker is with the configuration

A task replaces the status of its row, works on the app's files, collects the apps a router is due to and
writes `traefik_dyn.yml`. An exception may end it at any point; an installing task then stores `ERROR`. Every
task function keeps to this course, whatever its operations answer. -/

namespace Freeshard
open Coroutine
set_option autoImplicit false

/-! ## Courses -/

inductive Leg where
  /-- The task has been taken and its row not read. -/
  | taken
  /-- A status write is due, or has failed. -/
  | unsettled
  | working
  /-- The rows whose metadata is still to be read, and the apps collected so far. -/
  | listing (pending : List InstalledApp) (infos : List (InstalledApp × AppMeta))
  | written
  /-- There is nothing to do, or `ERROR` has been stored. -/
  | done
  deriving DecidableEq, Repr

inductive Course where
  | idle
  | on (task : InstallationTask) (leg : Leg)
  deriving DecidableEq, Repr

/-- The operations `write_traefik_dyn_config` is made of. -/
def Op.lists : Op → Bool
  | .getAll => true
  | .getAppMetadata _ => true
  | .writeTraefikDyn _ => true
  | _ => false

/-- What a task does between its first status write and the configuration, `ERROR` apart. -/
def TaskType.steady : TaskType → Footprint
  | .uninstall =>
    { statuses := [.running, .uninstalling, .stopped, .down]
      commands := [.unpause, .stop, .down], locks := true, removes := true }
  | _ => { commands := [.unpause, .stop, .down, .upNoStart] }

namespace Leg
variable (task : InstallationTask)

/-- An installing task stores that it has failed. -/
def Fails (op : Op) : Prop := op = .updateStatus task.appName .error ∧ task.taskType ≠ .uninstall

/-- What the worker may do next, short of finishing the task. -/
def Proceeds (leg : Leg) (op : Op) : Prop :=
  match leg with
  | .taken =>
    (op = .acquire task.appName ∧ task.taskType = .uninstall) ∨
      (op = .getByName task.appName ∧ task.taskType ≠ .uninstall)
  | .unsettled => op = .updateStatus task.appName task.taskType.begins
  | .working =>
    op = .getAll ∨ (task.taskType.steady.Covers task.appName op ∧ op.lists = false) ∨ Fails task op
  | .listing pending infos =>
    (∃ app rest, pending = app :: rest ∧ op = .getAppMetadata app.name) ∨
      op = .getDefaultIdentity ∨ (pending = [] ∧ op = .writeTraefikDyn infos) ∨
      op = .release task.appName ∨ Fails task op
  | .written =>
    op = .onAppsUpdate ∨ op = .release task.appName ∨
      (op = .updateStatus task.appName .stopped ∧ task.taskType ≠ .uninstall) ∨ Fails task op
  | .done => op = .onAppsUpdate ∨ ∃ e, op = .onAppInstallError e task.appName

def Allows (leg : Leg) (op : Op) : Prop := op = .taskDone ∨ leg.Proceeds task op

def after (leg : Leg) (op : Op) (r : Answer op) : Leg :=
  match leg, op, r with
  | .taken, .acquire _, .ok _ => .working
  | .taken, .getByName _, .ok row =>
    if row.map (·.status) = some task.taskType.expects then .unsettled else .done
  | .unsettled, .updateStatus _ _, .ok (some _) => .working
  | .working, .getAll, .ok allApps =>
    .listing (allApps.filter fun app => app.status ∉ notRoutableStatus) []
  | .listing (app :: pending) infos, .getAppMetadata _, .ok appMeta =>
    .listing pending (infos ++ [(app, appMeta)])
  | .listing (_ :: pending) infos, .getAppMetadata _, .error _ => .listing pending infos
  | .listing _ _, .writeTraefikDyn _, .ok _ => .written
  | _, .updateStatus _ .error, .ok (some _) => .done
  | _, .updateStatus _ .error, _ => .unsettled
  | leg, _, _ => leg

variable {task}

theorem after_error {leg : Leg} (h : leg ≠ .unsettled) {name : String} {app : InstalledApp} :
    leg.after task (.updateStatus name .error) (.ok (some app)) = .done := by
  cases leg with
  | unsettled => exact absurd rfl h
  | listing pending infos => cases pending <;> rfl
  | _ => rfl

/-- Storing `ERROR` settles the task if it succeeds. -/
theorem after_error_cases {leg : Leg} (h : leg ≠ .unsettled) {name : String}
    (r : Answer (.updateStatus name .error)) :
    (∃ app, r = .ok (some app) ∧ leg.after task (.updateStatus name .error) r = .done) ∨
      leg.after task (.updateStatus name .error) r = .unsettled := by
  rcases r with e | (_ | app)
  · refine .inr ?_
    cases leg with
    | listing pending infos => cases pending <;> rfl
    | _ => rfl
  · refine .inr ?_
    cases leg with
    | listing pending infos => cases pending <;> rfl
    | _ => rfl
  · exact .inl ⟨app, rfl, after_error h⟩

theorem after_steady {op : Op} (hop : task.taskType.steady.Covers task.appName op)
    (hlists : op.lists = false) (r : Answer op) : working.after task op r = .working := by
  cases op with
  | updateStatus other status =>
    have hne : status ≠ .error := by
      rintro rfl
      have hmem := hop.2
      cases htype : task.taskType <;> rw [htype] at hmem <;> simp [TaskType.steady] at hmem
    simp [after, hne]
  | getAll => cases hlists
  | _ => rfl

end Leg

namespace Course

def Allows : Course → Op → Prop
  | .idle, op => op = .dequeue
  | .on task leg, op => leg.Allows task op

def after (l : Course) (op : Op) (r : Answer op) : Course :=
  match l, op, r with
  | _, .dequeue, .ok task => .on task .taken
  | .on _ _, .taskDone, _ => .idle
  | .on task leg, op, r => .on task (leg.after task op r)
  | .idle, _, _ => .idle

end Course

/-- The files and the configuration are the worker's, but for the archive of an upload. -/
def Op.spares : Op → Bool
  | .rmtree _ => false
  | .downloadAppZip _ => false
  | .extractAppZip _ => false
  | .unlinkZip _ => false
  | .renderTemplate _ => false
  | .writeTraefikDyn _ => false
  | _ => true

/-- Calls other than the worker stay idle. -/
def course (role : Role) : Protocol Op Ans Exn Course where
  allows l op := if role = .worker then l.Allows op else op.spares = true
  after l op r := if role = .worker then l.after op r else .idle

theorem course_allows_of_ne {role : Role} (hrole : role ≠ .worker) (l : Course) (op : Op) :
    (course role).allows l op ↔ op.spares = true := iff_of_eq (if_neg hrole)

/-- The course of call `i` after the events of a log. -/
def courseOf (i : Call) : List Event → Course
  | [] => .idle
  | e :: log =>
    if e.call = i then (course i.role).after (courseOf i log) e.op e.answer else courseOf i log

abbrev State.course (i : Call) (s : State) : Course := courseOf i s.log

theorem course_tracks (E : Env) :
    Protocol.Tracks (fun i => course (Call.role i)) (Act E) State.course where
  own := by
    intro i s op r s' ha
    rw [State.course, ha.log, courseOf, if_pos rfl]
  other := by
    intro i j s op r s' ha hij
    rw [State.course, ha.log, courseOf, if_neg (Ne.symm hij)]

/-! ## The tasks conform -/

abbrev Keeps {α : Type} (p : Coro α) (l : Course) (Q : Except Exn α → Course → Prop) : Prop :=
  p.Conforms (course .worker) l Q

theorem Leg.not_dequeue {task : InstallationTask} (leg : Leg) : ¬leg.Allows task .dequeue := by
  rintro (h | h)
  · cases h
  · cases leg <;> simp [Proceeds, Fails, Footprint.Covers] at h

theorem Course.after_on {task : InstallationTask} {leg : Leg} {op : Op} (h : leg.Proceeds task op)
    (r : Answer op) : Course.after (.on task leg) op r = .on task (leg.after task op r) := by
  cases op with
  | dequeue => exact absurd (.inr h) leg.not_dequeue
  | taskDone => cases leg <;> simp [Leg.Proceeds, Leg.Fails, Footprint.Covers] at h
  | _ => rfl

namespace Worker
variable {task : InstallationTask} {leg : Leg} {name : String}

theorem keeps_perform {op : Op} {Q : Answer op → Course → Prop} (hop : leg.Proceeds task op)
    (h : ∀ r, Q r (.on task (leg.after task op r))) : Keeps (awaitOp op) (.on task leg) Q := by
  refine Prog.Conforms.perform (.inr hop) fun r => ?_
  have hafter : (course .worker).after (.on task leg) op r = .on task (leg.after task op r) :=
    Course.after_on hop r
  rw [hafter]
  exact h r

theorem keeps_steady {α : Type} {p : Coro α} {f : Footprint} {taskType : TaskType}
    (hp : Bounded f name p) (hlists : p.Uses fun op => op.lists = false) (hf : f.le taskType.steady) :
    Keeps p (.on ⟨name, taskType⟩ .working) fun _ l => l = .on ⟨name, taskType⟩ .working := by
  have huses : p.Uses fun op => f.Covers name op ∧ op.lists = false := hp.uses.and hlists
  refine Prog.Conforms.of_uses huses (fun op hop l hl => ?_) rfl
  subst hl
  have hcovers := hop.1.mono hf
  have hproceeds : Leg.working.Proceeds ⟨name, taskType⟩ op := .inr (.inl ⟨hcovers, hop.2⟩)
  refine ⟨.inr hproceeds, fun r => (Course.after_on hproceeds r).trans ?_⟩
  rw [Leg.after_steady hcovers hop.2]

/-! What stays away from the table as a whole, the metadata and the configuration. -/

section Plain
variable {α : Type}

abbrev Plain (p : Coro α) : Prop := p.Uses fun op => op.lists = false

theorem plain_perform {op : Op} (h : op.lists = false) : Plain (awaitOp op) :=
  (Prog.uses_perform op).mpr h

theorem plain_onlyIf {c : Prop} [Decidable c] {body : Coro Unit} (h : Plain body) :
    Plain (onlyIf c body) := by
  unfold onlyIf
  split
  · exact h
  · trivial

theorem plain_exceptException {body : Coro α} {handle : Exn → Coro α} (hb : Plain body)
    (hh : ∀ e, Plain (handle e)) : Plain (Freeshard.exceptException body handle) := by
  refine hb.tryCatch fun e => ?_
  split
  · exact hh e
  · trivial

theorem plain_writeStatus (status : Status) : Plain (writeStatus name status) :=
  (plain_perform rfl).bind fun _ => trivial

theorem plain_updateAppStatus (status : Status) : Plain (updateAppStatus name status) := by
  refine (plain_perform rfl).bind fun row => ?_
  cases row with
  | none => trivial
  | some app => exact plain_perform rfl

theorem plain_getAppFromDb : Plain (getAppFromDb name) := by
  refine (plain_perform rfl).bind fun row => ?_
  cases row <;> trivial

theorem plain_readStatus : Plain (readStatus name) := (plain_perform rfl).bind fun _ => trivial

theorem plain_dockerUnpauseApp : Plain (dockerUnpauseApp name) :=
  plain_readStatus.bind fun _ => plain_onlyIf ((plain_perform rfl).bind fun _ =>
    (plain_writeStatus _).bind fun _ => plain_perform rfl)

theorem plain_dockerStopApp (setStatus : Bool) : Plain (dockerStopApp name setStatus) :=
  plain_readStatus.bind fun _ => plain_onlyIf
    ((plain_onlyIf (plain_perform rfl)).bind fun _ => (plain_perform rfl).bind fun _ =>
      (plain_onlyIf (plain_writeStatus _)).bind fun _ => plain_perform rfl)

theorem plain_dockerShutdownApp (setStatus force : Bool) :
    Plain (dockerShutdownApp name setStatus force) :=
  plain_readStatus.bind fun _ => plain_onlyIf
    ((plain_onlyIf (plain_perform rfl)).bind fun _ => (plain_perform rfl).bind fun _ =>
      (plain_onlyIf (plain_writeStatus _)).bind fun _ => plain_perform rfl)

theorem plain_stopAndShutdown (setStatus : Bool) : Plain (Freeshard.exceptException (do
    dockerStopApp name setStatus
    dockerShutdownApp name setStatus false) fun _ => pure ()) :=
  plain_exceptException ((plain_dockerStopApp setStatus).bind fun _ =>
    plain_dockerShutdownApp setStatus false) fun _ => trivial

theorem plain_markUninstalling : Plain (markUninstalling name) := by
  refine (plain_getAppFromDb.bind fun app => ?_).tryCatch fun e => ?_
  · exact (plain_onlyIf plain_dockerUnpauseApp).bind fun _ => plain_updateAppStatus _
  · cases e <;> trivial

theorem plain_renderDockerComposeTemplate : Plain (renderDockerComposeTemplate name) := by
  have hidentity : Plain getDefaultIdentity := by
    refine (plain_perform rfl).bind fun row => ?_
    cases row <;> trivial
  exact hidentity.bind fun _ => plain_perform rfl

end Plain

/-! The configuration. -/

/-- The leg of a task that has not written the configuration. -/
def Underway (task : InstallationTask) (l : Course) : Prop :=
  l = .on task .working ∨ ∃ pending infos, l = .on task (.listing pending infos)

theorem keeps_appInfos (apps : List InstalledApp) (infos : List (InstalledApp × AppMeta)) :
    Keeps (appInfos apps) (.on task (.listing apps infos)) fun r l =>
      (∀ found, r = .ok found → l = .on task (.listing [] (infos ++ found))) ∧
      (r.isOk = false → ∃ pending infos', l = .on task (.listing pending infos')) := by
  induction apps generalizing infos with
  | nil =>
    refine ⟨?_, nofun⟩
    rintro _ ⟨⟩
    rw [List.append_nil]
  | cons app apps ih =>
    have hread : Keeps (getAppMetadata app.name) (.on task (.listing (app :: apps) infos)) fun r l =>
        (∀ appMeta, r = .ok appMeta → l = .on task (.listing apps (infos ++ [(app, appMeta)]))) ∧
        (r.isOk = false → l = .on task (.listing apps infos)) := by
      refine keeps_perform (.inl ⟨app, apps, rfl, rfl⟩) fun r => ?_
      cases r with
      | ok appMeta =>
        refine ⟨?_, nofun⟩
        rintro _ ⟨⟩
        rfl
      | error e => exact ⟨nofun, fun _ => rfl⟩
    have hinfo : Keeps (Freeshard.exceptException (do
          let appMeta ← getAppMetadata app.name
          pure [(app, appMeta)]) fun _ => pure []) (.on task (.listing (app :: apps) infos)) fun r l =>
        (∀ found, r = .ok found → l = .on task (.listing apps (infos ++ found))) ∧
        (r.isOk = false → l = .on task (.listing apps infos)) := by
      refine Prog.Conforms.tryCatch (R := fun r l =>
        (∀ found, r = .ok found → l = .on task (.listing apps (infos ++ found))) ∧
        (r.isOk = false → l = .on task (.listing apps infos))) ?_ (fun _ _ h => h) fun e l h => ?_
      · refine hread.bind (fun appMeta l h => ⟨?_, nofun⟩) fun e l h => ⟨nofun, fun _ => h.2 rfl⟩
        rintro _ ⟨⟩
        exact h.1 appMeta rfl
      · have hl := h.2 rfl
        split
        · refine ⟨?_, nofun⟩
          rintro _ ⟨⟩
          rw [List.append_nil]
          exact hl
        · exact ⟨nofun, fun _ => hl⟩
    refine hinfo.bind (fun info l h => ?_) fun e l h => ⟨nofun, fun _ => ⟨_, _, h.2 rfl⟩⟩
    obtain rfl := h.1 info rfl
    refine (ih (infos ++ info)).bind (fun found l h => ⟨?_, nofun⟩) fun e l h => ⟨nofun, fun _ => h.2 rfl⟩
    rintro _ ⟨⟩
    rw [← List.append_assoc]
    exact h.1 found rfl

theorem keeps_writeTraefikDynConfig :
    Keeps writeTraefikDynConfig (.on task .working) fun r l =>
      (r.isOk = true → l = .on task .written) ∧ (r.isOk = false → Underway task l) := by
  have hall : Keeps getAll (.on task .working) fun r l =>
      (∀ apps, r = .ok apps →
        l = .on task (.listing (apps.filter fun app => app.status ∉ notRoutableStatus) [])) ∧
      (r.isOk = false → l = .on task .working) := by
    refine keeps_perform (.inl rfl) fun r => ?_
    cases r with
    | ok apps =>
      refine ⟨?_, nofun⟩
      rintro _ ⟨⟩
      rfl
    | error e => exact ⟨nofun, fun _ => rfl⟩
  have hidentity : ∀ infos, Keeps getDefaultIdentity (.on task (.listing [] infos))
      fun _ l => l = .on task (.listing [] infos) := by
    intro infos
    have hrow : Keeps (awaitOp .getDefaultIdentity) (.on task (.listing [] infos))
        fun _ l => l = .on task (.listing [] infos) :=
      keeps_perform (.inr (.inl rfl)) fun r => by cases r <;> rfl
    refine hrow.bind (fun row l h => ?_) fun _ _ h => h
    cases row <;> exact h
  have hwrite : ∀ infos, Keeps (awaitOp (.writeTraefikDyn infos)) (.on task (.listing [] infos))
      fun r l => (r.isOk = true → l = .on task .written) ∧ (r.isOk = false → Underway task l) := by
    intro infos
    refine keeps_perform (.inr (.inr (.inl ⟨rfl, rfl⟩))) fun r => ?_
    cases r with
    | ok u => exact ⟨fun _ => rfl, nofun⟩
    | error e => exact ⟨nofun, fun _ => .inr ⟨_, _, rfl⟩⟩
  refine hall.bind (fun apps l h => ?_) fun e l h => ⟨nofun, fun _ => .inl (h.2 rfl)⟩
  obtain rfl := h.1 apps rfl
  refine (keeps_appInfos _ []).bind (fun infos l h => ?_) fun e l h => ⟨nofun, fun _ => .inr (h.2 rfl)⟩
  obtain rfl := h.1 infos rfl
  refine (hidentity _).bind (fun _ l h => ?_) fun e l h => ⟨nofun, fun _ => .inr ⟨_, _, h⟩⟩
  subst h
  exact hwrite infos

/-! The tasks. -/

/-- The leg of a task that has been taken up. -/
def Begun (task : InstallationTask) (l : Course) : Prop := Underway task l ∨ l = .on task .written

theorem keeps_failInstallation (htype : task.taskType ≠ .uninstall) (e : Exn) {l : Course}
    (hl : Begun task l) :
    Keeps (failInstallation task.appName e) l fun _ l => ∃ leg, l = .on task leg := by
  obtain ⟨leg, rfl, hfails⟩ : ∃ leg, l = .on task leg ∧
      (leg.Proceeds task (.updateStatus task.appName .error) ∧ leg ≠ .unsettled) := by
    obtain (rfl | ⟨pending, infos, rfl⟩) | rfl := hl
    · exact ⟨_, rfl, .inr (.inr ⟨rfl, htype⟩), nofun⟩
    · exact ⟨_, rfl, .inr (.inr (.inr (.inr ⟨rfl, htype⟩))), nofun⟩
    · exact ⟨_, rfl, .inr (.inr (.inr ⟨rfl, htype⟩)), nofun⟩
  have hnotify : Keeps sendOnAppsUpdate (.on task .done) fun _ l => l = .on task .done :=
    keeps_perform (.inl rfl) fun r => by cases r <;> rfl
  have hsignal : Keeps (awaitOp (.onAppInstallError e task.appName)) (.on task .done)
      fun _ l => l = .on task .done := keeps_perform (.inr ⟨e, rfl⟩) fun r => by cases r <;> rfl
  have hstore : Keeps (updateStatus task.appName .error) (.on task leg) fun r l =>
      (∀ app, r = .ok (some app) → l = .on task .done) ∧ ∃ leg, l = .on task leg := by
    refine keeps_perform hfails.1 fun r => ⟨?_, _, rfl⟩
    rintro app rfl
    rw [Leg.after_error hfails.2]
  have hupdate : Keeps (updateAppStatus task.appName .error) (.on task leg) fun r l =>
      (r.isOk = true → l = .on task .done) ∧ ∃ leg, l = .on task leg := by
    refine hstore.bind (fun row l h => ?_) fun e l h => ⟨nofun, h.2⟩
    cases row with
    | none => exact ⟨nofun, h.2⟩
    | some app =>
      obtain rfl := h.1 app rfl
      exact hnotify.mono fun _ _ h => ⟨fun _ => h, _, h⟩
  refine hupdate.bind (fun u l h => ?_) fun e l h => h.2
  obtain rfl := h.1 rfl
  exact hsignal.mono fun _ _ h => ⟨_, h⟩

theorem keeps_installAppFromZip (htype : task.taskType ≠ .uninstall) :
    Keeps (installAppFromZip task.appName) (.on task .working) fun r l =>
      (r.isOk = true → l = .on task .written) ∧ (r.isOk = false → Underway task l) := by
  have hsteady : ∀ p : Coro Unit, Bounded { commands := [.upNoStart] } task.appName p → Plain p →
      Keeps p (.on task .working) fun _ l => l = .on task .working := by
    intro p hp hplain
    refine keeps_steady hp hplain ?_
    revert htype
    cases task.taskType <;> decide
  have hrender : Bounded { commands := [.upNoStart] } task.appName
      (renderDockerComposeTemplate task.appName) :=
    bounds_getDefaultIdentity.bind fun _ => Bounded.perform rfl
  refine (hsteady (awaitOp (.extractAppZip _)) (Bounded.perform rfl) (plain_perform rfl)).bind
    (fun _ l h => ?_) fun e l h => ⟨nofun, fun _ => .inl h⟩
  subst h
  refine (hsteady _ Bounded.sendOnAppsUpdate (plain_perform rfl)).bind (fun _ l h => ?_)
    fun e l h => ⟨nofun, fun _ => .inl h⟩
  subst h
  refine (hsteady (awaitOp (.unlinkZip _)) (Bounded.perform rfl) (plain_perform rfl)).bind
    (fun _ l h => ?_) fun e l h => ⟨nofun, fun _ => .inl h⟩
  subst h
  refine (hsteady _ hrender plain_renderDockerComposeTemplate).bind (fun _ l h => ?_)
    fun e l h => ⟨nofun, fun _ => .inl h⟩
  subst h
  refine (hsteady _ (Bounded.compose (by decide)) (plain_perform rfl)).bind (fun _ l h => ?_)
    fun e l h => ⟨nofun, fun _ => .inl h⟩
  subst h
  exact keeps_writeTraefikDynConfig

theorem keeps_finish (htype : task.taskType ≠ .uninstall) :
    Keeps (updateAppStatus task.appName .stopped) (.on task .written)
      fun _ l => l = .on task .written := by
  have hstore : Keeps (updateStatus task.appName .stopped) (.on task .written)
      fun _ l => l = .on task .written :=
    keeps_perform (.inr (.inr (.inl ⟨rfl, htype⟩))) fun r => by cases r <;> rfl
  have hnotify : Keeps sendOnAppsUpdate (.on task .written) fun _ l => l = .on task .written :=
    keeps_perform (.inl rfl) fun r => by cases r <;> rfl
  refine hstore.bind (fun row l h => ?_) fun _ _ h => h
  subst h
  cases row with
  | none => rfl
  | some app => exact hnotify

theorem keeps_guarded (htype : task.taskType ≠ .uninstall) {first : Coro Unit}
    (hfirst : Keeps first (.on task .working) fun _ l => l = .on task .working) :
    Keeps (Freeshard.exceptException
      (do
        first
        installAppFromZip task.appName
        updateAppStatus task.appName .stopped)
      (failInstallation task.appName)) (.on task .working) fun _ l => ∃ leg, l = .on task leg := by
  have hbody : Keeps (do
        first
        installAppFromZip task.appName
        updateAppStatus task.appName .stopped) (.on task .working) fun _ l => Begun task l := by
    refine hfirst.bind (fun _ l h => ?_) fun e l h => .inl (.inl h)
    subst h
    refine (keeps_installAppFromZip htype).bind (fun u l h => ?_) fun e l h => .inl (h.2 rfl)
    obtain rfl := h.1 rfl
    exact (keeps_finish htype).mono fun _ _ h => .inr h
  have hbegun : ∀ {l : Course}, Begun task l → ∃ leg, l = .on task leg := by
    rintro l ((rfl | ⟨pending, infos, rfl⟩) | rfl) <;> exact ⟨_, rfl⟩
  refine hbody.tryCatch (fun _ _ h => hbegun h) fun e l h => ?_
  split
  · exact keeps_failInstallation htype e h
  · exact hbegun h

theorem keeps_checked (htype : task.taskType ≠ .uninstall) {rest : Coro Unit}
    (hrest : Keeps rest (.on task .working) fun _ l => ∃ leg, l = .on task leg) :
    Keeps (do
      let installedApp ← getAppFromDb task.appName
      assertAppStatus installedApp task.taskType.expects
      updateAppStatus task.appName task.taskType.begins
      rest) (.on task .taken) fun _ l => ∃ leg, l = .on task leg := by
  have hget : Keeps (getByName task.appName) (.on task .taken) fun r l =>
      (∀ app, r = .ok (some app) → app.status = task.taskType.expects → l = .on task .unsettled) ∧
      ∃ leg, l = .on task leg := by
    refine keeps_perform (.inr ⟨rfl, htype⟩) fun r => ⟨?_, _, rfl⟩
    rintro app rfl hst
    simp [Leg.after, hst]
  have hread : Keeps (getAppFromDb task.appName) (.on task .taken) fun r l =>
      (∀ app, r = .ok app → app.status = task.taskType.expects → l = .on task .unsettled) ∧
      ∃ leg, l = .on task leg := by
    refine hget.bind (fun row l h => ?_) fun e l h => ⟨nofun, h.2⟩
    cases row with
    | none => exact ⟨nofun, h.2⟩
    | some app =>
      refine ⟨?_, h.2⟩
      rintro _ ⟨⟩
      exact h.1 app rfl
  have hstore : Keeps (updateStatus task.appName task.taskType.begins) (.on task .unsettled)
      fun r l => (∀ app, r = .ok (some app) → l = .on task .working) ∧ ∃ leg, l = .on task leg := by
    refine keeps_perform rfl fun r => ⟨?_, _, rfl⟩
    rintro app rfl
    rfl
  have hnotify : Keeps sendOnAppsUpdate (.on task .working) fun _ l => l = .on task .working :=
    keeps_steady (f := {}) Bounded.sendOnAppsUpdate (plain_perform rfl)
      (by cases task.taskType <;> decide)
  have hbegin : Keeps (updateAppStatus task.appName task.taskType.begins) (.on task .unsettled)
      fun r l => (r.isOk = true → l = .on task .working) ∧ ∃ leg, l = .on task leg := by
    refine hstore.bind (fun row l h => ?_) fun e l h => ⟨nofun, h.2⟩
    cases row with
    | none => exact ⟨nofun, h.2⟩
    | some app =>
      obtain rfl := h.1 app rfl
      exact hnotify.mono fun _ _ h => ⟨fun _ => h, _, h⟩
  refine hread.bind (fun app l h => ?_) fun e l h => h.2
  by_cases hst : app.status = task.taskType.expects
  · obtain rfl := h.1 app rfl hst
    rw [assertAppStatus, raiseUnless_pos hst, pure_bind]
    refine hbegin.bind (fun u l h => ?_) fun e l h => h.2
    obtain rfl := h.1 rfl
    exact hrest
  · rw [assertAppStatus, raiseUnless_neg hst]
    exact h.2

theorem keeps_uninstallApp :
    Keeps (uninstallApp name) (.on ⟨name, .uninstall⟩ .taken)
      fun _ l => ∃ leg, l = .on ⟨name, .uninstall⟩ leg := by
  have hacquire : Keeps (awaitOp (.acquire name)) (.on ⟨name, .uninstall⟩ .taken) fun r l =>
      (r.isOk = true → l = .on ⟨name, .uninstall⟩ .working) ∧
        ∃ leg, l = .on ⟨name, .uninstall⟩ leg := by
    refine keeps_perform (.inl ⟨rfl, rfl⟩) fun r => ⟨fun hr => ?_, _, rfl⟩
    cases r with
    | ok u => rfl
    | error e => cases hr
  have hteardown : Keeps (do
      markUninstalling name
      Freeshard.exceptException
        (do
          dockerStopApp name true
          dockerShutdownApp name true false)
        fun _ => pure ()
      awaitOp (.rmtree name)
      awaitOp (.remove name)) (.on ⟨name, .uninstall⟩ .working)
      fun _ l => l = .on ⟨name, .uninstall⟩ .working := by
    refine keeps_steady (f := TaskType.uninstall.steady) ?_ ?_ (by decide)
    · refine (bounds_markUninstalling (by decide) (by decide)).bind fun _ => ?_
      refine (Bounded.exceptException ((bounds_stopAndShutdown true).mono (by decide))
        fun _ => .ret ()).bind fun _ => ?_
      have hrmtree : Bounded TaskType.uninstall.steady name (awaitOp (.rmtree name)) :=
        Bounded.perform rfl
      exact hrmtree.bind fun _ => Bounded.perform ⟨rfl, rfl⟩
    · refine plain_markUninstalling.bind fun _ => (plain_stopAndShutdown true).bind fun _ => ?_
      exact (plain_perform rfl).bind fun _ => plain_perform rfl
  have hbody : Keeps (do
      markUninstalling name
      Freeshard.exceptException
        (do
          dockerStopApp name true
          dockerShutdownApp name true false)
        fun _ => pure ()
      awaitOp (.rmtree name)
      awaitOp (.remove name)
      writeTraefikDynConfig
      sendOnAppsUpdate) (.on ⟨name, .uninstall⟩ .working) fun _ l => Begun ⟨name, .uninstall⟩ l := by
    have hnotify : Keeps sendOnAppsUpdate (.on ⟨name, .uninstall⟩ .written)
        fun _ l => l = .on ⟨name, .uninstall⟩ .written :=
      keeps_perform (.inl rfl) fun r => by cases r <;> rfl
    have hconfig : Keeps (do
        writeTraefikDynConfig
        sendOnAppsUpdate) (.on ⟨name, .uninstall⟩ .working)
        fun _ l => Begun ⟨name, .uninstall⟩ l := by
      refine keeps_writeTraefikDynConfig.bind (fun u l h => ?_) fun e l h => .inl (h.2 rfl)
      obtain rfl := h.1 rfl
      exact hnotify.mono fun _ _ h => .inr h
    have hall := hteardown.bind (f := fun _ => (do
        writeTraefikDynConfig
        sendOnAppsUpdate : Coro Unit)) (Q := fun _ l => Begun ⟨name, .uninstall⟩ l)
      (fun _ l h => h ▸ hconfig) fun e l h => .inl (.inl h)
    simpa only [bind_assoc] using hall
  refine hacquire.bind (fun u l h => ?_) fun e l h => h.2
  obtain rfl := h.1 rfl
  refine Prog.Conforms.tryFinally hbody fun r l hl => ?_
  obtain ⟨leg, rfl, hop⟩ : ∃ leg, l = .on ⟨name, .uninstall⟩ leg ∧
      leg.Proceeds ⟨name, .uninstall⟩ (.release name) := by
    obtain (rfl | ⟨pending, infos, rfl⟩) | rfl := hl
    · exact ⟨_, rfl, .inr (.inl ⟨⟨rfl, rfl⟩, rfl⟩)⟩
    · exact ⟨_, rfl, .inr (.inr (.inr (.inl rfl)))⟩
    · exact ⟨_, rfl, .inr (.inl rfl)⟩
  have hrelease : Keeps (awaitOp (.release name)) (.on ⟨name, .uninstall⟩ leg)
      fun _ l => ∃ leg, l = .on ⟨name, .uninstall⟩ leg := keeps_perform hop fun _ => ⟨_, rfl⟩
  exact hrelease.mono fun r' _ h => by cases r' <;> exact h

theorem keeps_process (task : InstallationTask) :
    Keeps (process task) (.on task .taken) fun _ l => ∃ leg, l = .on task leg := by
  obtain ⟨app, taskType⟩ := task
  have hdownload : ∀ taskType : TaskType, Keeps (downloadAppZip app) (.on ⟨app, taskType⟩ .working)
      fun _ l => l = .on ⟨app, taskType⟩ .working := by
    intro taskType
    refine keeps_steady (f := {}) (Bounded.perform rfl) (plain_perform rfl) ?_
    cases taskType <;> decide
  cases taskType with
  | installFromStore =>
    have hguarded := keeps_guarded (by nofun) (hdownload .installFromStore)
    exact keeps_checked (by nofun) hguarded
  | installFromZip =>
    have hguarded : Keeps (Freeshard.exceptException
        (do
          pure ()
          installAppFromZip app
          updateAppStatus app .stopped)
        (failInstallation app)) (.on ⟨app, .installFromZip⟩ .working)
        fun _ l => ∃ leg, l = .on ⟨app, .installFromZip⟩ leg :=
      have hfirst : Keeps (pure () : Coro Unit) (.on ⟨app, .installFromZip⟩ .working)
          fun _ l => l = .on ⟨app, .installFromZip⟩ .working := rfl
      keeps_guarded (by nofun) hfirst
    exact keeps_checked (by nofun) hguarded
  | uninstall => exact keeps_uninstallApp
  | reinstall =>
    refine @keeps_checked ⟨app, .reinstall⟩ (by nofun) _ ?_
    have hstop : Keeps (Freeshard.exceptException
        (do
          dockerStopApp app false
          dockerShutdownApp app false false)
        fun _ => pure ()) (.on ⟨app, .reinstall⟩ .working)
        fun _ l => l = .on ⟨app, .reinstall⟩ .working :=
      keeps_steady (Bounded.exceptException (bounds_stopAndShutdown false) fun _ => .ret ())
        (plain_stopAndShutdown false) (by decide)
    have hrmtree : Keeps (awaitOp (.rmtree app)) (.on ⟨app, .reinstall⟩ .working)
        fun _ l => l = .on ⟨app, .reinstall⟩ .working :=
      keeps_steady (f := {}) (Bounded.perform rfl) (plain_perform rfl) (by decide)
    refine hstop.bind (fun _ l h => ?_) fun _ l h => ⟨_, h⟩
    subst h
    refine hrmtree.bind (fun _ l h => ?_) fun _ l h => ⟨_, h⟩
    subst h
    exact keeps_guarded (by nofun) (hdownload .reinstall)

theorem keeps_run (n : ℕ) : Keeps (run n) .idle fun _ l => l = .idle := by
  refine run_conforms rfl (fun _ => rfl) (fun _ => rfl) keeps_process ?_ n
  rintro task _ ⟨leg, rfl⟩
  refine ⟨.inl rfl, fun r => ?_⟩
  cases r <;> rfl

end Worker

/-! ## The requests conform -/

section Requests
variable {name : String}

theorem spares_perform {op : Op} (h : op.spares = true) :
    (awaitOp op).Uses fun op => op.spares = true := (Prog.uses_perform op).mpr h

theorem spares_raiseUnless (c : Prop) [Decidable c] (e : Exn) :
    (raiseUnless c e).Uses fun op => op.spares = true := by
  unfold raiseUnless
  split <;> trivial

theorem spares_updateAppStatus (status : Status) :
    (updateAppStatus name status).Uses fun op => op.spares = true := by
  refine (spares_perform rfl).bind fun row => ?_
  cases row with
  | none => trivial
  | some app => exact spares_perform rfl

theorem spares_insert_enqueue (reason : InstallationReason) (taskType : TaskType) : (do
    insertQueued name reason
    enqueue name taskType
    sendOnAppsUpdate : Coro Unit).Uses fun op => op.spares = true :=
  (spares_perform rfl).bind fun _ => (spares_perform rfl).bind fun _ => spares_perform rfl

theorem spares_installAppFromStore (reason : InstallationReason) :
    (installAppFromStore name reason).Uses fun op => op.spares = true :=
  (spares_perform rfl).bind fun _ => (spares_raiseUnless _ _).bind fun _ =>
    (spares_perform rfl).bind fun _ => (spares_raiseUnless _ _).bind fun _ =>
      spares_insert_enqueue reason .installFromStore

theorem spares_installAppFromUploadedZip (zip : AppArchive) (reason : InstallationReason) :
    (installAppFromUploadedZip name zip reason).Uses fun op => op.spares = true :=
  (spares_perform rfl).bind fun _ => (spares_raiseUnless _ _).bind fun _ =>
    (spares_perform rfl).bind fun _ => spares_insert_enqueue reason .installFromZip

theorem spares_uninstallApp : (uninstallApp name).Uses fun op => op.spares = true :=
  (spares_perform rfl).bind fun _ => (spares_raiseUnless _ _).bind fun _ =>
    (spares_updateAppStatus _).bind fun _ => (spares_perform rfl).bind fun _ => spares_perform rfl

theorem spares_reinstallApp : (reinstallApp name).Uses fun op => op.spares = true :=
  (spares_perform rfl).bind fun _ => (spares_raiseUnless _ _).bind fun _ =>
    (spares_perform rfl).bind fun _ => (spares_raiseUnless _ _).bind fun _ =>
      (spares_updateAppStatus _).bind fun _ => spares_perform rfl

end Requests

theorem keeps_spares {role : Role} (hrole : role ≠ .worker) {p : Coro Unit}
    (hp : p.Uses fun op => op.spares = true) : p.Conforms (course role) .idle fun _ l => l = .idle := by
  refine Prog.Conforms.of_uses hp (fun op hop l hl => ?_) rfl
  exact ⟨(course_allows_of_ne hrole l op).mpr hop, fun r => if_neg hrole⟩

theorem Starts.keeps {name : String} {i : Call} {p : Coro Unit} (h : Starts name i p)
    (hrole : i.role.lifecycle = false) : p.Conforms (course i.role) .idle fun _ l => l = .idle := by
  obtain ⟨role, id⟩ := i
  cases role with
  | installRequest =>
    obtain ⟨reason, rfl⟩ | ⟨zip, reason, rfl⟩ := h
    · exact keeps_spares (by nofun) (spares_installAppFromStore reason)
    · exact keeps_spares (by nofun) (spares_installAppFromUploadedZip zip reason)
  | uninstallRequest =>
    obtain rfl := h
    exact keeps_spares (by nofun) spares_uninstallApp
  | reinstallRequest =>
    obtain rfl := h
    exact keeps_spares (by nofun) spares_reinstallApp
  | worker =>
    obtain ⟨-, n, rfl⟩ := h
    exact Worker.keeps_run n
  | _ => cases hrole

end Freeshard

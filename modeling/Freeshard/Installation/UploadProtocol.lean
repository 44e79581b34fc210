import Freeshard.Coroutine.Protocol
import Freeshard.Service.Footprints
import Freeshard.System.Environments
import Freeshard.System.History
import Freeshard.System.Rules

/-! # How far an upload is

Any number of uploads of archives for one app and the worker that installs what is queued. The log tells for
each upload whether it has moved its archive into place and whether its row has been inserted, and for the
worker whether it is with the app's task and has unpacked the archive. -/

namespace Freeshard.Upload
open Coroutine
set_option autoImplicit false

/-- Uploads of archives for the app, and the worker. -/
def Starts (name : String) (i : Call) (p : Coro Unit) : Prop :=
  match i.role with
  | .installRequest => ∃ zip reason, p = installAppFromUploadedZip name zip reason
  | .worker => i.id = 0 ∧ ∃ n, p = Worker.run n
  | _ => False

/-! ## Legs -/

inductive Leg where
  /-- An upload that has moved nothing, or a worker without a task. -/
  | fresh
  /-- The check has found a row, or has failed. -/
  | rejected
  /-- The archive is in place, the row is not inserted yet. -/
  | moved (zip : AppArchive)
  /-- The archive is in place, but inserting the row has failed. -/
  | refused (zip : AppArchive)
  | accepted (zip : AppArchive) (enqueued : Bool)
  /-- The worker has taken the task of the app. -/
  | installing (unpacked : Bool)
  /-- It has taken a task of another app. -/
  | elsewhere
  /-- It has taken a task of the app that no upload enqueues. -/
  | astray
  deriving DecidableEq

/-- The task of an accepted upload. -/
def task (name : String) : InstallationTask := ⟨name, .installFromZip⟩

namespace Leg

/-- The archive that an upload has moved into place. -/
def zip : Leg → Option AppArchive
  | .moved zip => some zip
  | .refused zip => some zip
  | .accepted zip _ => some zip
  | _ => none

/-- The upload has moved its archive and has still to insert its row. -/
def waits : Leg → Bool
  | .moved _ => true
  | _ => false

def afterRequest (l : Leg) (op : Op) (r : Answer op) : Leg :=
  match l, op, r with
  | .fresh, .contains _, .ok false => .fresh
  | .fresh, .moveUploadedZip _ zip, .ok _ => .moved zip
  | .fresh, _, _ => .rejected
  | .moved zip, .insert _, .ok _ => .accepted zip false
  | .moved zip, _, _ => .refused zip
  | .accepted zip false, .enqueue _, _ => .accepted zip true
  | l, _, _ => l

def afterWorker (name : String) (l : Leg) (op : Op) (r : Answer op) : Leg :=
  match l, op, r with
  | _, .dequeue, .ok dequeued =>
    if dequeued = task name then .installing false
    else if dequeued.appName = name then .astray
    else .elsewhere
  | _, .taskDone, _ => .fresh
  | .installing _, .extractAppZip _, _ => .installing true
  | l, _, _ => l

def after (name : String) (role : Role) (l : Leg) (op : Op) (r : Answer op) : Leg :=
  match role with
  | .worker => l.afterWorker name op r
  | _ => l.afterRequest op r

end Leg

/-- The leg of call `i` after the events of a log. -/
def legOf (name : String) (i : Call) : List Event → Leg
  | [] => .fresh
  | e :: log => if e.call = i then (legOf name i log).after name i.role e.op e.answer else legOf name i log

abbrev leg (name : String) (i : Call) (s : State) : Leg := legOf name i s.log

theorem leg_self {E : Env} {name : String} {i : Call} {s s' : State} {op : Op} {r : Answer op}
    (h : Act E i s op r s') : leg name i s' = (leg name i s).after name i.role op r := by
  rw [leg, h.log, legOf, if_pos rfl]

theorem leg_other {E : Env} {name : String} {i j : Call} {s s' : State} {op : Op} {r : Answer op}
    (h : Act E i s op r s') (hj : j ≠ i) : leg name j s' = leg name j s := by
  rw [leg, h.log, legOf, if_neg (Ne.symm hj)]

/-! ## The protocol -/

/-- Operations that do not touch the app's row, its directory or the queue. -/
structure Apart (name : String) (op : Op) : Prop where
  row : op.writesRow name = false
  dir : op.appDir ≠ some name
  queue : op.queues = false

/-- What an installation does besides unpacking: it inserts and removes no row and leaves the queue alone. -/
def Op.minor : Op → Bool
  | .insert _ => false
  | .remove _ => false
  | .enqueue _ => false
  | .dequeue => false
  | .taskDone => false
  | .rmtree _ => false
  | .moveUploadedZip _ _ => false
  | .downloadAppZip _ => false
  | .extractAppZip _ => false
  | _ => true

inductive RequestAllows (name : String) : Leg → Op → Prop where
  | check : RequestAllows name .fresh (.contains name)
  | move (zip : AppArchive) : RequestAllows name .fresh (.moveUploadedZip name zip)
  | insert {zip : AppArchive} {app : InstalledApp} (h : app.name = name) :
    RequestAllows name (.moved zip) (.insert app)
  | enqueue {zip : AppArchive} : RequestAllows name (.accepted zip false) (.enqueue (task name))
  | notify {zip : AppArchive} : RequestAllows name (.accepted zip true) .onAppsUpdate

inductive WorkerAllows (name : String) : Leg → Op → Prop where
  | dequeue : WorkerAllows name .fresh .dequeue
  | finish {l : Leg} (h : l.zip = none) : WorkerAllows name l .taskDone
  | unpack : WorkerAllows name (.installing false) (.extractAppZip name)
  | before {op : Op} (h : Op.minor op = true) (hdir : op.appDir = none) : WorkerAllows name (.installing false) op
  | later {op : Op} (h : Op.minor op = true) : WorkerAllows name (.installing true) op
  | elsewhere {op : Op} (h : Apart name op) : WorkerAllows name .elsewhere op
  | astray {op : Op} (h : op.queues = false) : WorkerAllows name .astray op

def protocol (name : String) (role : Role) : Protocol Op Ans Exn Leg where
  allows l op := match role with
    | .worker => WorkerAllows name l op
    | _ => RequestAllows name l op
  after := Leg.after name role

theorem tracks (E : Env) (name : String) :
    Protocol.Tracks (fun i => protocol name (Call.role i)) (Act E) (leg name) where
  own ha := leg_self ha
  other ha hij := leg_other ha hij

abbrev Conforms {α : Type} (name : String) (role : Role) (p : Coro α) (l : Leg)
    (Q : Except Exn α → Leg → Prop) : Prop := p.Conforms (protocol name role) l Q

variable {name : String}

/-! ## Uploads conform -/

theorem conforms_upload (zip : AppArchive) (reason : InstallationReason) :
    Conforms name .installRequest (installAppFromUploadedZip name zip reason) .fresh fun _ _ => True := by
  have hcheck : Conforms name .installRequest (appExistsInDb name) .fresh fun r l => r = .ok false → l = .fresh := by
    refine Prog.Conforms.perform .check fun r hr => ?_
    subst hr
    rfl
  have hmove : Conforms name .installRequest (awaitOp (.moveUploadedZip name zip)) .fresh
      fun r l => r.isOk = true → l = .moved zip := by
    refine Prog.Conforms.perform (.move zip) fun r hr => ?_
    cases r with
    | ok u => rfl
    | error e => cases hr
  have hinsert : Conforms name .installRequest (insertQueued name reason) (.moved zip)
      fun r l => r.isOk = true → l = .accepted zip false := by
    refine Prog.Conforms.perform (.insert rfl) fun r hr => ?_
    cases r with
    | ok u => rfl
    | error e => cases hr
  have henqueue : Conforms name .installRequest (enqueue name .installFromZip) (.accepted zip false)
      fun _ l => l = .accepted zip true :=
    Prog.Conforms.perform .enqueue fun r => by cases r <;> rfl
  refine hcheck.bind (fun inDb l h => ?_) fun _ _ _ => trivial
  cases inDb with
  | true => trivial
  | false =>
    obtain rfl := h rfl
    refine hmove.bind (fun _ l h => ?_) fun _ _ _ => trivial
    obtain rfl := h rfl
    refine hinsert.bind (fun _ l h => ?_) fun _ _ _ => trivial
    obtain rfl := h rfl
    refine henqueue.bind (fun _ l h => ?_) fun _ _ _ => trivial
    subst h
    exact Prog.Conforms.perform .notify fun _ => trivial

/-! ## The worker conforms -/

/-- Steps of an installation from `.installing unpacked` that unpack nothing. -/
def Keeps (unpacked : Bool) (op : Op) : Prop := Op.minor op = true ∧ (unpacked = false → op.appDir = none)

theorem conforms_keeps {α : Type} {p : Coro α} {unpacked : Bool} (hp : p.Uses (Keeps unpacked)) :
    Conforms name .worker p (.installing unpacked) fun _ l => l = .installing unpacked := by
  refine Prog.Conforms.of_uses hp (fun op hop l hl => ?_) rfl
  subst hl
  constructor
  · cases unpacked with
    | false => exact .before hop.1 (hop.2 rfl)
    | true => exact .later hop.1
  · intro r
    cases op with
    | dequeue | taskDone | extractAppZip _ => cases hop.1
    | _ => rfl

variable {unpacked : Bool}

theorem keeps_perform {op : Op} (h : Op.minor op = true) (hdir : op.appDir = none) :
    (awaitOp op).Uses (Keeps unpacked) := (Prog.uses_perform op).mpr ⟨h, fun _ => hdir⟩

theorem keeps_getAppFromDb : (getAppFromDb name).Uses (Keeps unpacked) := by
  refine (keeps_perform rfl rfl).bind fun row => ?_
  cases row <;> trivial

theorem keeps_updateAppStatus (status : Status) : (updateAppStatus name status).Uses (Keeps unpacked) := by
  refine (keeps_perform rfl rfl).bind fun row => ?_
  cases row with
  | none => trivial
  | some app => exact keeps_perform rfl rfl

theorem keeps_getDefaultIdentity : getDefaultIdentity.Uses (Keeps unpacked) := by
  refine (keeps_perform rfl rfl).bind fun row => ?_
  cases row <;> trivial

theorem keeps_appInfos (apps : List InstalledApp) : (appInfos apps).Uses (Keeps unpacked) := by
  induction apps with
  | nil => trivial
  | cons app apps ih =>
    refine Prog.Uses.bind ?_ fun _ => ih.bind fun _ => trivial
    refine Prog.Uses.tryCatch ((keeps_perform rfl rfl).bind fun _ => trivial) fun e => ?_
    split <;> trivial

theorem keeps_writeTraefikDynConfig : writeTraefikDynConfig.Uses (Keeps unpacked) :=
  (keeps_perform rfl rfl).bind fun _ => (keeps_appInfos _).bind fun _ =>
    keeps_getDefaultIdentity.bind fun _ => keeps_perform rfl rfl

theorem keeps_failInstallation (e : Exn) : (Worker.failInstallation name e).Uses (Keeps unpacked) :=
  (keeps_updateAppStatus _).bind fun _ => keeps_perform rfl rfl

theorem keeps_unpacked : (do
    sendOnAppsUpdate
    awaitOp (.unlinkZip name)
    renderDockerComposeTemplate name
    dockerCreateAppContainers name
    writeTraefikDynConfig : Coro Unit).Uses (Keeps true) := by
  refine (keeps_perform rfl rfl).bind fun _ => ?_
  refine ((Prog.uses_perform _).mpr ⟨rfl, nofun⟩).bind fun _ => ?_
  refine Prog.Uses.bind ?_ fun _ => (keeps_perform rfl rfl).bind fun _ => keeps_writeTraefikDynConfig
  exact keeps_getDefaultIdentity.bind fun _ => (Prog.uses_perform _).mpr ⟨rfl, nofun⟩

theorem conforms_installAppFromExistingZip :
    Conforms name .worker (Worker.installAppFromExistingZip name) (.installing false)
      fun _ l => ∃ unpacked, l = .installing unpacked := by
  have hextract : Conforms name .worker (awaitOp (.extractAppZip name)) (.installing false)
      fun _ l => l = .installing true :=
    Prog.Conforms.perform .unpack fun r => by cases r <;> rfl
  have hinstall : Conforms name .worker (do
      Worker.installAppFromZip name
      updateAppStatus name .stopped) (.installing false) fun _ l => l = .installing true := by
    refine Prog.Conforms.bind (R := fun _ l => l = .installing true) ?_ (fun _ l h => ?_) fun _ _ h => h
    · refine hextract.bind (fun _ l h => ?_) fun _ _ h => h
      subst h
      exact conforms_keeps keeps_unpacked
    · subst h
      exact conforms_keeps (keeps_updateAppStatus _)
  refine (conforms_keeps keeps_getAppFromDb).bind (fun app l h => ?_) fun _ l h => ⟨_, h⟩
  subst h
  have hassert : (assertAppStatus app .installationQueued).Uses (Keeps false) := by
    unfold assertAppStatus raiseUnless
    split <;> trivial
  refine (conforms_keeps hassert).bind (fun _ l h => ?_) fun _ l h => ⟨_, h⟩
  subst h
  refine (conforms_keeps (keeps_updateAppStatus .installing)).bind (fun _ l h => ?_) fun _ l h => ⟨_, h⟩
  subst h
  refine Prog.Conforms.tryCatch hinstall (fun _ _ h => ⟨_, h⟩) fun e l h => ?_
  subst h
  split
  · exact (conforms_keeps (keeps_failInstallation e)).mono fun _ _ h => ⟨_, h⟩
  · exact ⟨_, rfl⟩

theorem uses_process (name : String) (dequeued : InstallationTask) : (Worker.process dequeued).Uses fun op =>
    op.queues = false ∧ op.works = false ∧ (dequeued.appName ≠ name → Apart name op) := by
  have hcovers : ∀ (f : Footprint) op, f.enqueues = [] → f.Covers dequeued.appName op →
      op.queues = false ∧ op.works = false ∧ (dequeued.appName ≠ name → Apart name op) := by
    intro f op hf hop
    have hqueue : op.queues = false ∧ op.works = false := by
      cases op with
      | enqueue t =>
        have hmem := hop.2
        rw [hf] at hmem
        cases hmem
      | dequeue | taskDone => exact hop.elim
      | _ => exact ⟨rfl, rfl⟩
    exact ⟨hqueue.1, hqueue.2, fun hne => ⟨hop.writesRow hne.symm, hop.appDir hne.symm, hqueue.1⟩⟩
  obtain ⟨app, taskType⟩ := dequeued
  cases taskType with
  | installFromStore => exact Worker.bounds_installAppFromStore.uses.mono fun op h => hcovers _ op rfl h
  | installFromZip => exact Worker.bounds_installAppFromExistingZip.uses.mono fun op h => hcovers _ op rfl h
  | uninstall => exact Worker.bounds_uninstallApp.uses.mono fun op h => hcovers _ op rfl h
  | reinstall => exact Worker.bounds_reinstallApp.uses.mono fun op h => hcovers _ op rfl h

/-- The leg in which the worker takes up a task. -/
def taken (name : String) (dequeued : InstallationTask) : Leg :=
  Leg.fresh.afterWorker name .dequeue (.ok dequeued)

theorem conforms_process (dequeued : InstallationTask) :
    Conforms name .worker (Worker.process dequeued) (taken name dequeued) fun _ l => l.zip = none := by
  unfold taken
  show Conforms name .worker _ (if dequeued = task name then _ else if dequeued.appName = name then _ else _) _
  split_ifs with htask happ
  · subst htask
    refine conforms_installAppFromExistingZip.mono fun _ l h => ?_
    obtain ⟨unpacked, rfl⟩ := h
    rfl
  · refine Prog.Conforms.mono (Prog.Conforms.of_uses (I := (· = .astray)) (uses_process name dequeued)
      (fun op hop l hl => ?_) rfl) fun _ l h => by rw [h]; rfl
    subst hl
    refine ⟨.astray hop.1, fun r => ?_⟩
    cases op with
    | dequeue | taskDone => cases hop.2.1
    | _ => rfl
  · refine Prog.Conforms.mono (Prog.Conforms.of_uses (I := (· = .elsewhere)) (uses_process name dequeued)
      (fun op hop l hl => ?_) rfl) fun _ l h => by rw [h]; rfl
    subst hl
    refine ⟨.elsewhere (hop.2.2 happ), fun r => ?_⟩
    cases op with
    | dequeue | taskDone => cases hop.2.1
    | _ => rfl

theorem conforms_run (n : ℕ) : Conforms name .worker (Worker.run n) .fresh fun _ _ => True := by
  induction n with
  | zero => trivial
  | succ n ih =>
    have hdequeue : Conforms name .worker (awaitOp .dequeue) .fresh
        fun r l => ∀ dequeued, r = .ok dequeued → l = taken name dequeued := by
      refine Prog.Conforms.perform .dequeue fun r dequeued hr => ?_
      subst hr
      rfl
    refine hdequeue.bind (fun dequeued l h => ?_) fun _ _ _ => trivial
    obtain rfl := h dequeued rfl
    have hprocess : Conforms name .worker (Worker.processCurrent dequeued) (taken name dequeued)
        fun _ l => l = .fresh := by
      refine Prog.Conforms.tryFinally (R := fun _ l => l.zip = none) ?_ fun r l h => ?_
      · refine (conforms_process dequeued).tryCatch (fun _ _ h => h) fun e l h => ?_
        split <;> exact h
      · refine Prog.Conforms.perform (.finish h) fun r' => ?_
        cases r' <;> rfl
    refine hprocess.bind (fun _ l h => ?_) fun _ _ _ => trivial
    subst h
    exact ih

theorem Starts.conforms {i : Call} {p : Coro Unit} (h : Starts name i p) :
    p.Conforms (protocol name i.role) .fresh fun _ _ => True := by
  obtain ⟨role, id⟩ := i
  cases role with
  | installRequest =>
    obtain ⟨zip, reason, rfl⟩ := h
    exact conforms_upload zip reason
  | worker =>
    obtain ⟨-, n, rfl⟩ := h
    exact conforms_run n
  | _ => exact h.elim

end Freeshard.Upload

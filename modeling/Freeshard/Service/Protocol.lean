import Freeshard.Coroutine.Protocol
import Freeshard.Service.Footprints
import Freeshard.System.Environments
import Freeshard.System.History

/-! # What each kind of call may do next

The calls that may run for one app, and for each of them its protocol: a lifecycle call issues
commands and stores a status only while it is engaged, that is after it has read a status it acts
on; a request enqueues its task only after it has stored its status; the worker keeps to the app of
the task it has taken, and holds the op lock for all of an uninstall. Every service function conforms
to the protocol of its kind, whatever the environment does. -/

namespace Freeshard
open Coroutine
set_option autoImplicit false

/-! ## Calls -/

/-- The coroutines that may be created for the app `name`: any number of calls of each kind, and
one worker. -/
def Starts (name : String) (i : Call) (p : Coro Unit) : Prop :=
  match i.role with
  | .startApp => p = startApp name
  | .pauseApp => p = dockerPauseApp name
  | .stopApp => p = dockerStopApp name true
  | .shutdownApp => p = dockerShutdownApp name true false
  | .installRequest => (∃ reason, p = installAppFromStore name reason) ∨
      ∃ zip reason, p = installAppFromUploadedZip name zip reason
  | .uninstallRequest => p = uninstallApp name
  | .reinstallRequest => p = reinstallApp name
  | .worker => i.id = 0 ∧ ∃ n, p = Worker.run n

/-- Only calls of these kinds. -/
def StartsOf (roles : List Role) (name : String) (i : Call) (p : Coro Unit) : Prop :=
  i.role ∈ roles ∧ Starts name i p

/-- The kinds of calls that queue tasks, and the worker. -/
def installing : List Role := [.installRequest, .uninstallRequest, .reinstallRequest, .worker]

theorem Starts.worker {name : String} {i : Call} {p : Coro Unit} (h : Starts name i p)
    (hrole : i.role = .worker) : i = ⟨.worker, 0⟩ := by
  obtain ⟨role, id⟩ := i
  obtain rfl : role = .worker := hrole
  obtain rfl : id = 0 := h.1
  rfl

theorem StartsOf.starts {roles : List Role} {name : String} {i : Call} {p : Coro Unit}
    (h : StartsOf roles name i p) : Starts name i p := h.2

/-! ## Phases -/

/-- How far the worker is with a task: only an uninstall takes the op lock. -/
inductive Stage where
  | fresh
  | locked
  | ended
  deriving DecidableEq, Repr

inductive Phase where
  /-- Nothing begun, or nothing left that matters. -/
  | idle
  /-- `start_app` holds the op lock. -/
  | holding
  /-- A lifecycle call has read a status it acts on and has not stored its own yet. -/
  | engaged
  /-- A request has stored its status and has not enqueued its task yet. -/
  | stored
  /-- The worker has taken this task. -/
  | working (task : InstallationTask) (stage : Stage)
  deriving DecidableEq, Repr

/-- The statuses a lifecycle call acts on. -/
def Role.actsOn : Role → List Status
  | .startApp => revivableStatus
  | .pauseApp => [.running]
  | .stopApp => stoppableStatus
  | .shutdownApp => [.stopped, .uninstalling]
  | _ => []

def Role.lifecycle : Role → Bool
  | .startApp => true
  | .pauseApp => true
  | .stopApp => true
  | .shutdownApp => true
  | _ => false

namespace Phase

/-- `start_app` ends with the release of the lock. -/
def afterStart (l : Phase) (op : Op) (r : Answer op) : Phase :=
  match op, r with
  | .acquire _, .ok _ => .holding
  | .getByName _, .ok (some app) => if app.status ∈ revivableStatus then .engaged else l
  | .updateStatus _ _, _ => .holding
  | .release _, _ => .idle
  | _, _ => l

/-- Pausing, stopping and shutting down end with the first exception. -/
def afterDemotion (actsOn : List Status) (l : Phase) (op : Op) (r : Answer op) : Phase :=
  match op, r with
  | .getByName _, .ok (some app) => if app.status ∈ actsOn then .engaged else l
  | .updateStatus _ _, _ => .idle
  | _, .error _ => .idle
  | _, .ok _ => l

/-- So do the requests. -/
def afterRequest (l : Phase) (op : Op) (r : Answer op) : Phase :=
  match op, r with
  | .insert _, .ok _ => .stored
  | .updateStatus _ _, .ok (some _) => .stored
  | .enqueue _, _ => .idle
  | _, .error _ => .idle
  | _, .ok _ => l

def afterWorker (l : Phase) (op : Op) (r : Answer op) : Phase :=
  match l, op, r with
  | _, .dequeue, .ok task => .working task .fresh
  | _, .taskDone, _ => .idle
  | .working task _, .acquire _, .ok _ => .working task .locked
  | .working task _, .acquire _, .error _ => .working task .ended
  | .working task _, .release _, _ => .working task .ended
  | l, _, _ => l

def after (role : Role) (l : Phase) (op : Op) (r : Answer op) : Phase :=
  match role with
  | .startApp => l.afterStart op r
  | .pauseApp => l.afterDemotion Role.pauseApp.actsOn op r
  | .stopApp => l.afterDemotion Role.stopApp.actsOn op r
  | .shutdownApp => l.afterDemotion Role.shutdownApp.actsOn op r
  | .installRequest => l.afterRequest op r
  | .uninstallRequest => l.afterRequest op r
  | .reinstallRequest => l.afterRequest op r
  | .worker => l.afterWorker op r

end Phase

/-- The phase of call `i` after the events of a log. -/
def phaseOf (i : Call) : List Event → Phase
  | [] => .idle
  | e :: log => if e.call = i then (phaseOf i log).after i.role e.op e.answer else phaseOf i log

abbrev State.phase (i : Call) (s : State) : Phase := phaseOf i s.log

theorem Act.phase_self {E : Env} {i : Call} {s s' : State} {op : Op} {r : Answer op}
    (h : Act E i s op r s') : s'.phase i = (s.phase i).after i.role op r := by
  rw [State.phase, h.log, phaseOf, if_pos rfl]

theorem Act.phase_other {E : Env} {i j : Call} {s s' : State} {op : Op} {r : Answer op}
    (h : Act E i s op r s') (hj : j ≠ i) : s'.phase j = s.phase j := by
  rw [State.phase, h.log, phaseOf, if_neg (Ne.symm hj)]

/-! ## Protocols -/

/-- What a call of a kind other than the worker may do for its app. -/
def Role.footprint : Role → Footprint
  | .startApp => { statuses := [.running], commands := [.up, .down, .unpause], locks := true }
  | .pauseApp => { statuses := [.paused], commands := [.pause] }
  | .stopApp => { statuses := [.stopped], commands := [.unpause, .stop] }
  | .shutdownApp => { statuses := [.down], commands := [.unpause, .down] }
  | .installRequest => { inserts := true, enqueues := [.installFromStore, .installFromZip] }
  | .uninstallRequest => { statuses := [.uninstallationQueued], enqueues := [.uninstall] }
  | .reinstallRequest => { statuses := [.reinstallationQueued], enqueues := [.reinstall] }
  | .worker => {}

/-- What the worker may do for the app of its task, the op lock apart. -/
def TaskType.footprint : TaskType → Footprint
  | .installFromStore => { statuses := [.installing, .stopped, .error], commands := [.upNoStart] }
  | .installFromZip => { statuses := [.installing, .stopped, .error], commands := [.upNoStart] }
  | .uninstall =>
    { statuses := [.running, .uninstalling, .stopped, .down]
      commands := [.unpause, .stop, .down], removes := true }
  | .reinstall =>
    { statuses := [.reinstalling, .stopped, .error]
      commands := [.unpause, .stop, .down, .upNoStart] }

/-- Commands and status writes. -/
def Op.acts : Op → Bool
  | .compose _ _ => true
  | .updateStatus _ _ => true
  | _ => false

/-- What the worker may do next. -/
def WorkerAllows (l : Phase) : Op → Prop
  | .dequeue => l = .idle
  | .taskDone => ∃ task stage, l = .working task stage ∧
      (task.taskType = .uninstall → stage = .ended)
  | .acquire name => l = .working ⟨name, .uninstall⟩ .fresh
  | .release name => l = .working ⟨name, .uninstall⟩ .locked
  | op => ∃ task stage, l = .working task stage ∧ task.taskType.footprint.Covers task.appName op ∧
      (task.taskType = .uninstall → stage = .locked)

/-- What any other call for the app may do next. -/
structure CallAllows (name : String) (role : Role) (l : Phase) (op : Op) : Prop where
  covers : role.footprint.Covers name op
  acts : role.lifecycle = true → op.acts = true → l = .engaged
  reads : role = .startApp → ∀ other, op = .getByName other → l = .holding ∨ l = .engaged
  enqueues : ∀ task, op = .enqueue task → l = .stored

def protocol (name : String) (role : Role) : Protocol Op Ans Exn Phase where
  allows l op := match role with
    | .worker => WorkerAllows l op
    | role => CallAllows name role l op
  after := Phase.after role

theorem tracks (E : Env) (name : String) :
    Protocol.Tracks (fun i => protocol name (Call.role i)) (Act E) State.phase where
  own ha := ha.phase_self
  other ha hij := ha.phase_other hij

/-! ## The lifecycle calls conform -/

section Lifecycle
variable {name : String} {role : Role}

abbrev Conforms {α : Type} (name : String) (role : Role) (p : Coro α) (l : Phase)
    (Q : Except Exn α → Phase → Prop) : Prop :=
  p.Conforms (protocol name role) l Q

theorem callAllows_of_covers {l : Phase} {op : Op} (h : role.footprint.Covers name op)
    (hacts : op.acts = false) (hread : ∀ other, op ≠ .getByName other)
    (henq : ∀ task, op ≠ .enqueue task) : CallAllows name role l op where
  covers := h
  acts _ hop := by
    rw [hacts] at hop
    cases hop
  reads _ other hop := absurd hop (hread other)
  enqueues task hop := absurd hop (henq task)

/-- What `start_app` does while it is engaged, but for its status write. -/
theorem conforms_engaged_start {α : Type} {f : Footprint} (hf : f.le Role.startApp.footprint)
    (hst : f.statuses = [] ∧ f.locks = false) {p : Coro α} (hp : Bounded f name p) :
    Conforms name .startApp p .engaged fun _ l => l = .engaged := by
  refine Prog.Conforms.of_uses hp.uses (fun op hop l hl => ?_) rfl
  subst hl
  refine ⟨⟨hop.mono hf, fun _ _ => rfl, fun _ _ _ => .inr rfl, ?_⟩, fun r => ?_⟩
  · rintro task rfl
    have henq := (hop.mono hf).2
    simp [Role.footprint] at henq
  · cases op with
    | updateStatus other status => simp [Footprint.Covers, hst.1] at hop
    | acquire other | release other => simp [Footprint.Covers, hst.2] at hop
    | getByName other =>
      rcases r with e | (_ | app)
      · rfl
      · rfl
      · simp [protocol, Phase.after, Phase.afterStart]
    | _ => cases r <;> rfl

theorem conforms_notify {l : Phase} (hrole : role ≠ .worker) {Q : Except Exn Unit → Phase → Prop}
    (h : ∀ r, Q r ((protocol name role).after l .onAppsUpdate r)) :
    Conforms name role sendOnAppsUpdate l Q := by
  refine Prog.Conforms.perform ?_ h
  cases role <;> first
    | exact absurd rfl hrole
    | exact callAllows_of_covers trivial rfl nofun nofun

/-- Having read a status it acts on the call is engaged. -/
abbrev Engages (role : Role) (r : Except Exn (Option Status)) (l : Phase) : Prop :=
  ∀ status, r = .ok status → status ∈ role.actsOn.map some → l = .engaged

theorem conforms_readStatus {l : Phase} (hlife : role.lifecycle = true)
    (hl : role = .startApp → l = .holding) :
    Conforms name role (readStatus name) l (Engages role) := by
  have hget : Conforms name role (getByName name) l fun r l' =>
      ∀ row, r = .ok row → row.map (·.status) ∈ role.actsOn.map some → l' = .engaged := by
    refine Prog.Conforms.perform ?_ ?_
    · cases role <;> first
        | exact ⟨rfl, fun _ => nofun, fun h _ _ => .inl (hl h), fun _ => nofun⟩
        | cases hlife
    · rintro r row rfl hmem
      obtain ⟨status, hst, hrow⟩ := List.mem_map.mp hmem
      obtain ⟨app, rfl, rfl⟩ := Option.map_eq_some_iff.mp hrow.symm
      cases role <;> exact if_pos hst
  refine hget.bind (fun row l' h => ?_) fun _ _ _ => nofun
  rintro _ ⟨⟩
  exact h row rfl

theorem conforms_writeStatus {status : Status} (hrole : role ≠ .worker)
    (hst : status ∈ role.footprint.statuses) :
    Conforms name role (writeStatus name status) .engaged fun _ _ => True := by
  refine Prog.Conforms.bind (R := fun _ _ => True) (Prog.Conforms.perform ?_ fun _ => trivial)
    (fun _ _ _ => trivial) fun _ _ _ => trivial
  cases role <;> first
    | exact absurd rfl hrole
    | exact ⟨⟨rfl, hst⟩, fun _ _ => rfl, fun _ => nofun, fun _ => nofun⟩

theorem conforms_markRunning :
    Conforms name .startApp (markRunning name) .engaged fun _ _ => True := by
  have hwrite : Conforms name .startApp (writeStatus name .running) .engaged fun _ _ => True :=
    conforms_writeStatus (by decide) (by decide)
  exact hwrite.bind (fun _ _ _ => conforms_notify (by decide) fun _ => trivial) fun _ _ _ => trivial

theorem conforms_revive (status : Option Status) :
    Conforms name .startApp (revive name status) .engaged fun _ _ => True := by
  have hup : Conforms name .startApp (composeUp name) .engaged fun _ l => l = .engaged :=
    conforms_engaged_start (by decide) ⟨rfl, rfl⟩
      (bounds_composeUp (f := { commands := [.up, .down] }) (by decide))
  have hunpause : Conforms name .startApp (exceptSubprocessError (doUnpause name) fun _ =>
      composeUp name) .engaged fun _ l => l = .engaged :=
    conforms_engaged_start (f := { commands := [.up, .down, .unpause] }) (by decide) ⟨rfl, rfl⟩
      (Bounded.exceptSubprocessError (Bounded.compose (by decide)) fun _ =>
        bounds_composeUp (by decide))
  have hmark : ∀ l, l = .engaged → Conforms name .startApp (markRunning name) l fun _ _ => True := by
    rintro _ rfl
    exact conforms_markRunning
  have hstate : Conforms name .startApp (getAppContainerState name) .engaged fun _ l => l = .engaged :=
    conforms_engaged_start (f := {}) (by decide) ⟨rfl, rfl⟩ bounds_getAppContainerState
  refine hstate.bind ?_ fun _ _ _ => trivial
  rintro state _ rfl
  cases state with
  | running =>
    dsimp only
    unfold onlyIf
    split
    · exact conforms_markRunning
    · trivial
  | paused => exact hunpause.bind (fun _ => hmark) fun _ _ _ => trivial
  | exited | missing => exact hup.bind (fun _ => hmark) fun _ _ _ => trivial

theorem conforms_startApp : Conforms name .startApp (startApp name) .idle fun _ _ => True := by
  have hthrottle : Conforms name .startApp (awaitOp (.throttle name)) .idle fun _ l => l = .idle :=
    Prog.Conforms.perform (callAllows_of_covers trivial rfl nofun nofun) fun r => by cases r <;> rfl
  have hacquire : Conforms name .startApp (awaitOp (.acquire name)) .idle fun r l =>
      r.isOk = true → l = .holding :=
    Prog.Conforms.perform (callAllows_of_covers ⟨rfl, rfl⟩ rfl nofun nofun) fun r => by
      cases r with
      | ok u => exact fun _ => rfl
      | error e => exact nofun
  have hrelease : ∀ l, Conforms name .startApp (awaitOp (.release name)) l fun _ _ => True :=
    fun l => Prog.Conforms.perform (callAllows_of_covers ⟨rfl, rfl⟩ rfl nofun nofun) fun _ => trivial
  refine hthrottle.bind ?_ fun _ _ _ => trivial
  rintro passes _ rfl
  unfold onlyIf
  split
  · refine hacquire.bind (fun u l hl => ?_) fun _ _ _ => trivial
    obtain rfl := hl rfl
    refine Prog.Conforms.tryFinally (R := fun _ _ => True) ?_ fun r l _ => ?_
    · refine (conforms_readStatus rfl fun _ => rfl).bind (fun status l' h => ?_) fun _ _ _ => trivial
      unfold onlyIf
      split
      · next hst =>
        obtain rfl := h status rfl hst
        exact conforms_revive status
      · trivial
    · exact (hrelease l).mono fun r' _ _ => by cases r' <;> trivial
  · trivial

/-! Pausing, stopping and shutting down end with the first exception. -/

/-- A call that ends with the first exception. -/
def Role.demotes : Role → Bool
  | .pauseApp => true
  | .stopApp => true
  | .shutdownApp => true
  | _ => false

theorem after_of_demotes (hrole : role.demotes = true) :
    (protocol name role).after = Phase.afterDemotion role.actsOn := by
  cases role <;> first
    | rfl
    | cases hrole

/-- While engaged: an operation of the footprint that is neither a status write nor one of the
operations that only other calls perform. -/
theorem conforms_engaged {op : Op} (hrole : role.demotes = true)
    (hop : role.footprint.Covers name op) (hread : ∀ other, op ≠ .getByName other)
    (hwrite : ∀ other status, op ≠ .updateStatus other status) (henq : ∀ task, op ≠ .enqueue task) :
    Conforms name role (awaitOp op) .engaged fun r l => r.isOk = true → l = .engaged := by
  refine Prog.Conforms.perform ?_ fun r hr => ?_
  · cases role <;> first
      | exact ⟨hop, fun _ _ => rfl, fun _ other h => absurd h (hread other),
          fun task h => absurd h (henq task)⟩
      | cases hrole
  · rw [after_of_demotes hrole]
    cases r with
    | error e => cases hr
    | ok a =>
      cases op <;> first
        | rfl
        | exact absurd rfl (hread _)
        | exact absurd rfl (hwrite _ _)

theorem conforms_finish {status : Status} (hrole : role.demotes = true)
    (hst : status ∈ role.footprint.statuses) :
    Conforms name role (do
      writeStatus name status
      sendOnAppsUpdate) .engaged fun _ _ => True := by
  have hne : role ≠ .worker := by
    rintro rfl
    cases hrole
  exact (conforms_writeStatus hne hst).bind (fun _ _ _ => conforms_notify hne fun _ => trivial)
    fun _ _ _ => trivial

theorem conforms_dockerPauseApp :
    Conforms name .pauseApp (dockerPauseApp name) .idle fun _ _ => True := by
  have hpause : Conforms name .pauseApp (compose name .pause) .engaged
      fun r l => r.isOk = true → l = .engaged :=
    conforms_engaged rfl ⟨rfl, by decide⟩ nofun nofun nofun
  have hps : Conforms name .pauseApp (composePs name false) .engaged
      fun r l => r.isOk = true → l = .engaged := conforms_engaged rfl trivial nofun nofun nofun
  have hloop : ∀ ids : List ℕ, Conforms name .pauseApp
      (ids.forM fun id => awaitOp (.reclaimContainer id)) .engaged
      fun r l => r.isOk = true → l = .engaged := by
    intro ids
    induction ids with
    | nil => exact fun _ => rfl
    | cons id ids ih =>
      have hfirst : Conforms name .pauseApp (awaitOp (.reclaimContainer id)) .engaged
          fun r l => r.isOk = true → l = .engaged := conforms_engaged rfl trivial nofun nofun nofun
      refine hfirst.bind (fun u l h => ?_) fun _ _ _ => nofun
      obtain rfl := h rfl
      exact ih
  have hreclaim : Conforms name .pauseApp (reclaimComposeStack name) .engaged
      fun r l => r.isOk = true → l = .engaged := by
    refine hps.bind (fun ids l h => ?_) fun _ _ _ => nofun
    obtain rfl := h rfl
    exact hloop ids
  have hread : Conforms name .pauseApp (readStatus name) .idle (Engages .pauseApp) :=
    conforms_readStatus rfl nofun
  refine hread.bind (fun status l h => ?_) fun _ _ _ => trivial
  unfold onlyIf
  split
  · next hst =>
    obtain rfl := h status rfl (by rw [hst]; decide)
    refine hpause.bind (fun u l h => ?_) fun _ _ _ => trivial
    obtain rfl := h rfl
    refine hreclaim.bind (fun u l h => ?_) fun _ _ _ => trivial
    obtain rfl := h rfl
    exact conforms_finish rfl (by decide)
  · trivial

theorem conforms_unpauseFirst (hrole : role.demotes = true) (hcmd : .unpause ∈ role.footprint.commands)
    (status : Option Status) :
    Conforms name role (onlyIf (status = some .paused) (compose name .unpause)) .engaged
      fun r l => r.isOk = true → l = .engaged := by
  unfold onlyIf
  split
  · refine conforms_engaged hrole ?_ nofun nofun nofun
    cases role <;> exact ⟨rfl, hcmd⟩
  · exact fun _ => rfl

theorem conforms_dockerStopApp :
    Conforms name .stopApp (dockerStopApp name true) .idle fun _ _ => True := by
  have hstop : Conforms name .stopApp (compose name .stop) .engaged
      fun r l => r.isOk = true → l = .engaged :=
    conforms_engaged rfl ⟨rfl, by decide⟩ nofun nofun nofun
  have hread : Conforms name .stopApp (readStatus name) .idle (Engages .stopApp) :=
    conforms_readStatus rfl nofun
  refine hread.bind (fun status l h => ?_) fun _ _ _ => trivial
  unfold onlyIf
  split
  · next hst =>
    obtain rfl := h status rfl hst
    refine (conforms_unpauseFirst rfl (by decide) status).bind (fun u l h => ?_) fun _ _ _ => trivial
    obtain rfl := h rfl
    refine hstop.bind (fun u l h => ?_) fun _ _ _ => trivial
    obtain rfl := h rfl
    exact conforms_finish rfl (by decide)
  · trivial

theorem conforms_dockerShutdownApp :
    Conforms name .shutdownApp (dockerShutdownApp name true false) .idle fun _ _ => True := by
  have hdown : Conforms name .shutdownApp (compose name .down) .engaged
      fun r l => r.isOk = true → l = .engaged :=
    conforms_engaged rfl ⟨rfl, by decide⟩ nofun nofun nofun
  have hread : Conforms name .shutdownApp (readStatus name) .idle (Engages .shutdownApp) :=
    conforms_readStatus rfl nofun
  refine hread.bind (fun status l h => ?_) fun _ _ _ => trivial
  unfold onlyIf
  split
  · next hst =>
    obtain rfl := h status rfl (by
      obtain h | rfl | rfl := hst
      · cases h
      · decide
      · decide)
    refine (conforms_unpauseFirst rfl (by decide) status).bind (fun u l h => ?_) fun _ _ _ => trivial
    obtain rfl := h rfl
    refine hdown.bind (fun u l h => ?_) fun _ _ _ => trivial
    obtain rfl := h rfl
    exact conforms_finish rfl (by decide)
  · trivial

end Lifecycle

/-! ## The requests conform -/

section Requests
variable {name : String} {role : Role}

def Role.requests : Role → Bool
  | .installRequest => true
  | .uninstallRequest => true
  | .reinstallRequest => true
  | _ => false

theorem Role.lifecycle_of_requests (hrole : role.requests = true) : role.lifecycle = false := by
  cases role <;> first
    | rfl
    | cases hrole

theorem callAllows_of_request {l : Phase} {op : Op} (hrole : role.requests = true)
    (hop : role.footprint.Covers name op) (henq : ∀ task, op = .enqueue task → l = .stored) :
    CallAllows name role l op where
  covers := hop
  acts h _ := by
    rw [Role.lifecycle_of_requests hrole] at h
    cases h
  reads h := by
    rw [h] at hrole
    cases hrole
  enqueues := henq

theorem protocol_allows {l : Phase} {op : Op} (hrole : role ≠ .worker)
    (h : CallAllows name role l op) : (protocol name role).allows l op := by
  cases role <;> first
    | exact absurd rfl hrole
    | exact h

theorem callAllows_of_allows {l : Phase} {op : Op} (hrole : role ≠ .worker)
    (h : (protocol name role).allows l op) : CallAllows name role l op := by
  cases role <;> first
    | exact h
    | exact absurd rfl hrole

theorem Role.requests_ne_worker (hrole : role.requests = true) : role ≠ .worker := by
  rintro rfl
  cases hrole

theorem after_of_requests (hrole : role.requests = true) :
    (protocol name role).after = Phase.afterRequest := by
  cases role <;> first
    | rfl
    | cases hrole

theorem conforms_query {op : Op} (hrole : role.requests = true)
    (hop : role.footprint.Covers name op) (hins : ∀ app, op ≠ .insert app)
    (hwrite : ∀ other status, op ≠ .updateStatus other status) (henq : ∀ task, op ≠ .enqueue task) :
    Conforms name role (awaitOp op) .idle fun _ l => l = .idle := by
  refine Prog.Conforms.perform (protocol_allows (Role.requests_ne_worker hrole)
    (callAllows_of_request hrole hop fun task h => absurd h (henq task))) fun r => ?_
  rw [after_of_requests hrole]
  cases op <;> first
    | exact absurd rfl (hins _)
    | exact absurd rfl (hwrite _ _)
    | exact absurd rfl (henq _)
    | (cases r <;> rfl)

theorem conforms_enqueue {taskType : TaskType} (hrole : role.requests = true)
    (htype : taskType ∈ role.footprint.enqueues) :
    Conforms name role (enqueue name taskType) .stored fun _ l => l = .idle := by
  refine Prog.Conforms.perform (protocol_allows (Role.requests_ne_worker hrole)
    (callAllows_of_request hrole ⟨rfl, htype⟩ fun _ _ => rfl)) fun r => ?_
  rw [after_of_requests hrole]
  rfl

theorem conforms_insertQueued (reason : InstallationReason) :
    Conforms name .installRequest (insertQueued name reason) .idle fun r l =>
      (r.isOk = true → l = .stored) ∧ (r.isOk = false → l = .idle) := by
  refine Prog.Conforms.perform (callAllows_of_request rfl ⟨rfl, rfl, rfl⟩ nofun) fun r => ?_
  cases r with
  | ok u => exact ⟨fun _ => rfl, nofun⟩
  | error e => exact ⟨nofun, fun _ => rfl⟩

theorem conforms_insert_enqueue {taskType : TaskType} (reason : InstallationReason)
    (htype : taskType ∈ Role.installRequest.footprint.enqueues) :
    Conforms name .installRequest (do
      insertQueued name reason
      enqueue name taskType
      sendOnAppsUpdate) .idle fun _ l => l = .idle := by
  refine (conforms_insertQueued reason).bind (fun u l h => ?_) fun e l h => h.2 rfl
  obtain rfl := h.1 rfl
  refine (conforms_enqueue rfl htype).bind ?_ fun _ _ h => h
  rintro u _ rfl
  exact conforms_query rfl trivial nofun nofun nofun

theorem conforms_storeQueued {status : Status} (hrole : role.requests = true)
    (hst : status ∈ role.footprint.statuses) :
    Conforms name role (updateAppStatus name status) .idle fun r l =>
      (r.isOk = true → l = .stored) ∧ (r.isOk = false → l = .idle) := by
  have hupdate : Conforms name role (updateStatus name status) .idle fun r l =>
      (∀ app, r = .ok (some app) → l = .stored) ∧ ((∀ app, r ≠ .ok (some app)) → l = .idle) := by
    refine Prog.Conforms.perform (protocol_allows (Role.requests_ne_worker hrole)
      (callAllows_of_request hrole ⟨rfl, hst⟩ nofun)) fun r => ?_
    rw [after_of_requests hrole]
    rcases r with e | (_ | app)
    · exact ⟨nofun, fun _ => rfl⟩
    · exact ⟨nofun, fun _ => rfl⟩
    · exact ⟨fun _ _ => rfl, fun h => absurd rfl (h app)⟩
  refine hupdate.bind (fun row l h => ?_) fun e l h => ⟨nofun, fun _ => h.2 nofun⟩
  cases row with
  | none => exact ⟨nofun, fun _ => h.2 nofun⟩
  | some app =>
    obtain rfl := h.1 app rfl
    refine conforms_notify (Role.requests_ne_worker hrole) fun r => ?_
    rw [after_of_requests hrole]
    cases r with
    | ok u => exact ⟨fun _ => rfl, nofun⟩
    | error e => exact ⟨nofun, fun _ => rfl⟩

theorem conforms_raiseUnless {l : Phase} {c : Prop} [Decidable c] {e : Exn}
    {Q : Except Exn Unit → Phase → Prop} (hok : c → Q (.ok ()) l) (herr : Q (.error e) l) :
    Conforms name role (raiseUnless c e) l Q := by
  unfold raiseUnless
  split
  · next h => exact hok h
  · exact herr

theorem conforms_installAppFromStore (reason : InstallationReason) :
    Conforms name .installRequest (installAppFromStore name reason) .idle fun _ l => l = .idle := by
  have hstore : Conforms name .installRequest (appExistsInStore name) .idle fun _ l => l = .idle :=
    conforms_query rfl trivial nofun nofun nofun
  have hdb : Conforms name .installRequest (appExistsInDb name) .idle fun _ l => l = .idle :=
    conforms_query rfl trivial nofun nofun nofun
  have hcheck : ∀ (c : Prop) [Decidable c] (e : Exn), Conforms name .installRequest
      (raiseUnless c e) .idle fun _ l => l = .idle :=
    fun c _ e => conforms_raiseUnless (fun _ => rfl) rfl
  refine hstore.bind ?_ fun _ _ h => h
  rintro inStore _ rfl
  refine (hcheck _ _).bind ?_ fun _ _ h => h
  rintro u _ rfl
  refine hdb.bind ?_ fun _ _ h => h
  rintro inDb _ rfl
  refine (hcheck _ _).bind ?_ fun _ _ h => h
  rintro u _ rfl
  exact conforms_insert_enqueue reason (by decide)

theorem conforms_installAppFromUploadedZip (zip : AppArchive) (reason : InstallationReason) :
    Conforms name .installRequest (installAppFromUploadedZip name zip reason) .idle
      fun _ l => l = .idle := by
  have hdb : Conforms name .installRequest (appExistsInDb name) .idle fun _ l => l = .idle :=
    conforms_query rfl trivial nofun nofun nofun
  have hmove : Conforms name .installRequest (awaitOp (.moveUploadedZip name zip)) .idle
      fun _ l => l = .idle := conforms_query rfl rfl nofun nofun nofun
  have hcheck : ∀ (c : Prop) [Decidable c] (e : Exn), Conforms name .installRequest
      (raiseUnless c e) .idle fun _ l => l = .idle :=
    fun c _ e => conforms_raiseUnless (fun _ => rfl) rfl
  refine hdb.bind ?_ fun _ _ h => h
  rintro inDb _ rfl
  refine (hcheck _ _).bind ?_ fun _ _ h => h
  rintro u _ rfl
  refine hmove.bind ?_ fun _ _ h => h
  rintro u _ rfl
  exact conforms_insert_enqueue reason (by decide)

theorem conforms_uninstallApp :
    Conforms name .uninstallRequest (uninstallApp name) .idle fun _ l => l = .idle := by
  have hdb : Conforms name .uninstallRequest (appExistsInDb name) .idle fun _ l => l = .idle :=
    conforms_query rfl trivial nofun nofun nofun
  refine hdb.bind ?_ fun _ _ h => h
  rintro inDb _ rfl
  have hcheck : Conforms name .uninstallRequest
      (raiseUnless (inDb = true) (.appNotInstalled name)) .idle fun _ l => l = .idle :=
    conforms_raiseUnless (fun _ => rfl) rfl
  refine hcheck.bind ?_ fun _ _ h => h
  rintro u _ rfl
  refine (conforms_storeQueued rfl (by decide)).bind (fun u l h => ?_) fun e l h => h.2 rfl
  obtain rfl := h.1 rfl
  refine (conforms_enqueue rfl (by decide)).bind ?_ fun _ _ h => h
  rintro u _ rfl
  exact conforms_query rfl trivial nofun nofun nofun

theorem conforms_reinstallApp :
    Conforms name .reinstallRequest (reinstallApp name) .idle fun _ l => l = .idle := by
  have hstore : Conforms name .reinstallRequest (appExistsInStore name) .idle fun _ l => l = .idle :=
    conforms_query rfl trivial nofun nofun nofun
  have hdb : Conforms name .reinstallRequest (appExistsInDb name) .idle fun _ l => l = .idle :=
    conforms_query rfl trivial nofun nofun nofun
  have hcheck : ∀ (c : Prop) [Decidable c] (e : Exn), Conforms name .reinstallRequest
      (raiseUnless c e) .idle fun _ l => l = .idle :=
    fun c _ e => conforms_raiseUnless (fun _ => rfl) rfl
  refine hstore.bind ?_ fun _ _ h => h
  rintro inStore _ rfl
  refine (hcheck _ _).bind ?_ fun _ _ h => h
  rintro u _ rfl
  refine hdb.bind ?_ fun _ _ h => h
  rintro inDb _ rfl
  refine (hcheck _ _).bind ?_ fun _ _ h => h
  rintro u _ rfl
  refine (conforms_storeQueued rfl (by decide)).bind (fun u l h => ?_) fun e l h => h.2 rfl
  obtain rfl := h.1 rfl
  exact conforms_enqueue rfl (by decide)

end Requests

/-! ## The worker conforms -/

namespace Worker
variable {name app : String} {task : InstallationTask} {stage : Stage}

theorem allows_of_covers {op : Op} (hop : task.taskType.footprint.Covers task.appName op)
    (hstage : task.taskType = .uninstall → stage = .locked) :
    WorkerAllows (.working task stage) op ∧
      ∀ r, Phase.after .worker (.working task stage) op r = .working task stage := by
  have hlocks : task.taskType.footprint.locks = false := by
    cases task.taskType <;> rfl
  cases op with
  | dequeue | taskDone => exact hop.elim
  | acquire other | release other => simp [Footprint.Covers, hlocks] at hop
  | _ =>
    refine ⟨⟨task, stage, rfl, hop, hstage⟩, fun r => ?_⟩
    cases r <;> rfl

theorem conforms_bounded (task : InstallationTask) {p : Coro Unit}
    (hp : Bounded task.taskType.footprint task.appName p)
    (hstage : task.taskType = .uninstall → stage = .locked) :
    Conforms name .worker p (.working task stage) fun _ l => l = .working task stage := by
  refine Prog.Conforms.of_uses hp.uses (fun op hop l hl => ?_) rfl
  subst hl
  exact allows_of_covers hop hstage

theorem conforms_uninstallApp :
    Conforms name .worker (uninstallApp app) (.working ⟨app, .uninstall⟩ .fresh)
      fun _ l => l = .working ⟨app, .uninstall⟩ .ended := by
  have hacquire : Conforms name .worker (awaitOp (.acquire app)) (.working ⟨app, .uninstall⟩ .fresh)
      fun r l => (r.isOk = true → l = .working ⟨app, .uninstall⟩ .locked) ∧
        (r.isOk = false → l = .working ⟨app, .uninstall⟩ .ended) := by
    refine Prog.Conforms.perform rfl fun r => ?_
    cases r with
    | ok u => exact ⟨fun _ => rfl, nofun⟩
    | error e => exact ⟨nofun, fun _ => rfl⟩
  have hrelease : Conforms name .worker (awaitOp (.release app)) (.working ⟨app, .uninstall⟩ .locked)
      fun _ l => l = .working ⟨app, .uninstall⟩ .ended :=
    Prog.Conforms.perform rfl fun _ => rfl
  refine hacquire.bind (fun u l h => ?_) fun e l h => h.2 rfl
  obtain rfl := h.1 rfl
  refine Prog.Conforms.tryFinally (conforms_bounded ⟨app, .uninstall⟩ bounds_teardown fun _ => rfl) ?_
  rintro r _ rfl
  exact hrelease.mono fun r' l h => by cases r' <;> exact h

theorem conforms_process (task : InstallationTask) :
    Conforms name .worker (process task) (.working task .fresh) fun _ l =>
      ∃ stage, l = .working task stage ∧ (task.taskType = .uninstall → stage = .ended) := by
  obtain ⟨app, taskType⟩ := task
  cases taskType with
  | installFromStore =>
    exact (conforms_bounded ⟨app, .installFromStore⟩ bounds_installAppFromStore
      nofun).mono fun _ _ h => ⟨_, h, nofun⟩
  | installFromZip =>
    exact (conforms_bounded ⟨app, .installFromZip⟩ bounds_installAppFromExistingZip
      nofun).mono fun _ _ h => ⟨_, h, nofun⟩
  | uninstall => exact conforms_uninstallApp.mono fun _ _ h => ⟨_, h, fun _ => rfl⟩
  | reinstall =>
    exact (conforms_bounded ⟨app, .reinstall⟩ bounds_reinstallApp
      nofun).mono fun _ _ h => ⟨_, h, nofun⟩

/-- The loop follows every protocol that a task takes from `fresh` to where it may be marked as done. -/
theorem run_conforms {L : Type} {P : Coroutine.Protocol Op Ans Exn L} {idle : L} {fresh : InstallationTask → L}
    {R : InstallationTask → L → Prop} (hdequeue : P.allows idle .dequeue)
    (htaken : ∀ task, P.after idle .dequeue (.ok task) = fresh task)
    (hfailed : ∀ e, P.after idle .dequeue (.error e) = idle)
    (hprocess : ∀ task, (process task).Conforms P (fresh task) fun _ l => R task l)
    (hdone : ∀ task l, R task l → P.allows l .taskDone ∧ ∀ r, P.after l .taskDone r = idle) (n : ℕ) :
    (run n).Conforms P idle fun _ l => l = idle := by
  induction n with
  | zero => exact rfl
  | succ n ih =>
    have hfirst : Prog.Conforms P (awaitOp .dequeue) idle fun r l =>
        (∀ task, r = .ok task → l = fresh task) ∧ (r.isOk = false → l = idle) := by
      refine Prog.Conforms.perform hdequeue fun r => ?_
      cases r with
      | ok task =>
        refine ⟨?_, nofun⟩
        rintro _ ⟨⟩
        exact htaken task
      | error e => exact ⟨nofun, fun _ => hfailed e⟩
    refine hfirst.bind (fun task l h => ?_) fun e l h => h.2 rfl
    obtain rfl := h.1 task rfl
    have hcurrent : Prog.Conforms P (processCurrent task) (fresh task) fun _ l => l = idle := by
      refine Prog.Conforms.tryFinally (R := fun _ l => R task l) ?_ ?_
      · refine (hprocess task).tryCatch (fun _ _ h => h) fun e l h => ?_
        split <;> exact h
      · intro r l hR
        refine Prog.Conforms.perform (hdone task l hR).1 fun r' => ?_
        cases r' with
        | ok u => exact (hdone task l hR).2 _
        | error e => exact (hdone task l hR).2 _
    refine hcurrent.bind ?_ fun _ _ h => h
    rintro u _ rfl
    exact ih

theorem conforms_run (n : ℕ) : Conforms name .worker (run n) .idle fun _ l => l = .idle := by
  refine run_conforms rfl (fun _ => rfl) (fun _ => rfl) conforms_process ?_ n
  rintro task l ⟨stage, rfl, hstage⟩
  refine ⟨⟨task, stage, rfl, hstage⟩, fun r => ?_⟩
  cases r <;> rfl

end Worker

/-! ## All calls conform -/

/-- Requests and the worker end idle. -/
def Role.EndsIn (role : Role) (l : Phase) : Prop := role.lifecycle = false → l = .idle

theorem Starts.conforms {name : String} {i : Call} {p : Coro Unit} (h : Starts name i p) :
    p.Conforms (protocol name i.role) .idle fun _ l => i.role.EndsIn l := by
  obtain ⟨role, id⟩ := i
  cases role with
  | startApp =>
    obtain rfl := h
    exact conforms_startApp.mono fun _ _ _ => nofun
  | pauseApp =>
    obtain rfl := h
    exact conforms_dockerPauseApp.mono fun _ _ _ => nofun
  | stopApp =>
    obtain rfl := h
    exact conforms_dockerStopApp.mono fun _ _ _ => nofun
  | shutdownApp =>
    obtain rfl := h
    exact conforms_dockerShutdownApp.mono fun _ _ _ => nofun
  | installRequest =>
    obtain ⟨reason, rfl⟩ | ⟨zip, reason, rfl⟩ := h
    · exact (conforms_installAppFromStore reason).mono fun _ _ h _ => h
    · exact (conforms_installAppFromUploadedZip zip reason).mono fun _ _ h _ => h
  | uninstallRequest =>
    obtain rfl := h
    exact conforms_uninstallApp.mono fun _ _ h _ => h
  | reinstallRequest =>
    obtain rfl := h
    exact conforms_reinstallApp.mono fun _ _ h _ => h
  | worker =>
    obtain ⟨-, n, rfl⟩ := h
    exact (Worker.conforms_run n).mono fun _ _ h _ => h

/-! ## Runs -/

section Runs
variable {E : Env} {roles : List Role} {name : String} {w : World}
  {c c' : Config Op Ans Exn State Call}

/-- A run of these calls for the app, from a world in which none is under way. -/
abbrev Runs (E : Env) (roles : List Role) (name : String) (w : World)
    (c : Config Op Ans Exn State Call) : Prop :=
  Reaches (Act E) (StartsOf roles name) (.idle ⟨w, []⟩) c

/-- The worker awaits its next task, or has ended. -/
def WorkerIdle (c : Config Op Ans Exn State Call) : Prop :=
  ∀ op next, c.pool ⟨.worker, 0⟩ = some (.await op next) → op = .dequeue

/-- What every operation that the protocols allow preserves holds throughout a run. -/
theorem Runs.invariant (h : Runs E roles name w c) {I : State → Prop}
    (hI : ∀ i s op r s', i.role ∈ roles → (protocol name i.role).allows (s.phase i) op → I s →
      Act E i s op r s' → I s') (hw : I ⟨w, []⟩) : I c.state :=
  Reaches.invariant_allowed (tracks E name) (fun _ _ hp => hp.starts.conforms)
    (fun i s op r s' hp hop hs ha => hI i s op r s' hp.choose_spec.1 hop hs ha) h
    (Conforming.idle fun _ => rfl) hw

/-- What holds of every step that the protocols allow, under an invariant, holds of every step of
a run. -/
theorem Runs.always (h : Runs E roles name w c) {I : State → Prop} {R : PastStep → Prop}
    (hI : ∀ i s op r s', i.role ∈ roles → (protocol name i.role).allows (s.phase i) op → I s →
      Act E i s op r s' → I s' ∧ R ⟨s, ⟨i, op, r, s.world⟩, s'.world⟩)
    (hw : I ⟨w, []⟩) : I c.state ∧ ∀ step ∈ c.state.steps, R step := by
  refine h.invariant (I := fun s => I s ∧ ∀ step ∈ s.steps, R step)
    (fun i s op r s' hi hop hs ha => ?_) ⟨hw, fun _ => nofun⟩
  obtain ⟨hs', hR⟩ := hI i s op r s' hi hop hs.1 ha
  refine ⟨hs', ?_⟩
  rw [ha.follows.steps]
  exact List.forall_mem_cons.mpr ⟨hR, hs.2⟩

/-- A run of any calls, each for an app of its own. -/
abbrev RunsFor (E : Env) (app : Call → String) (w : World) (c : Config Op Ans Exn State Call) : Prop :=
  Reaches (Act E) (fun i p => Starts (app i) i p) (.idle ⟨w, []⟩) c

/-- Runs for one app are runs for the apps of all calls. -/
theorem Runs.runsFor (h : Runs E roles name w c) : RunsFor E (fun _ => name) w c := by
  refine Relation.ReflTransGen.mono (fun _ _ hs => ?_) _ _ h
  cases hs with
  | start hi hp => exact .start hi hp.starts
  | fires hf => exact .fires hf

/-- What every operation that the protocols allow preserves holds throughout a run. -/
theorem RunsFor.invariant {app : Call → String} (h : RunsFor E app w c) {I : State → Prop}
    (hI : ∀ i s op r s', (i.role = .worker → i = ⟨.worker, 0⟩) →
      (protocol (app i) i.role).allows (s.phase i) op → I s → Act E i s op r s' → I s') (hw : I ⟨w, []⟩) : I c.state := by
  have ht : Protocol.Tracks (fun i => protocol (app i) (Call.role i)) (Act E) State.phase := {
    own := fun ha => ha.phase_self
    other := fun ha hij => ha.phase_other hij }
  refine Reaches.invariant_allowed ht (fun _ _ hp => hp.conforms) ?_ h (Conforming.idle fun _ => rfl) hw
  rintro i s op r s' ⟨p, hp⟩ hop hs ha
  exact hI i s op r s' hp.worker hop hs ha

end Runs

/-! ## Scripts -/

/-- The coroutine a script starts under the name `i`; the worker for `n` tasks. -/
def program (name : String) (n : ℕ) (i : Call) : Coro Unit :=
  match i.role with
  | .startApp => startApp name
  | .pauseApp => dockerPauseApp name
  | .stopApp => dockerStopApp name true
  | .shutdownApp => dockerShutdownApp name true false
  | .installRequest => installAppFromStore name .store
  | .uninstallRequest => uninstallApp name
  | .reinstallRequest => reinstallApp name
  | .worker => Worker.run n

theorem starts_program {name : String} {n : ℕ} {i : Call} (hi : i.role = .worker → i.id = 0) :
    Starts name i (program name n i) := by
  obtain ⟨role, id⟩ := i
  cases role with
  | installRequest => exact .inl ⟨.store, rfl⟩
  | worker => exact ⟨hi rfl, n, rfl⟩
  | _ => rfl

/-- A move of a script: a call is started, or performs its next operation under a choice of the
environment. -/
inductive Cue where
  | start (i : Call)
  | fire (i : Call) (c : Choice)
  deriving DecidableEq

def Cue.move (name : String) (n : ℕ) : Cue → Move Op Ans Exn Call Choice
  | .start i => .start i (program name n i)
  | .fire i c => .fire i c

/-- It starts no call of another kind, and no second worker. -/
def Cue.allowed (roles : List Role) : Cue → Bool
  | .start i => i.role ∈ roles && (i.role != .worker || i.id == 0)
  | .fire _ _ => true

/-- Call `i` performs its next operations under these choices. -/
def Cue.fires (i : Call) (choices : List Choice) : List Cue := choices.map (.fire i)

def Cue.call : Cue → Call
  | .start i => i
  | .fire i _ => i

section Script
variable (E : Env) [∀ s i op c, Decidable (E s i op c)] (roles : List Role) (name : String) (w : World)
  (n : ℕ) (cues : List Cue)

/-- A run of the script; nothing is in flight after it if all its calls have ended. -/
theorem exists_run_config (F : Config Op Ans Exn State Call → Bool)
    (hcues : cues.all (Cue.allowed roles) = true)
    (h : ((Config.idle ⟨w, []⟩).play (State.exec E) (cues.map (Cue.move name n))).any F = true) :
    ∃ c, Runs E roles name w c ∧ F c = true ∧
      ((cues.all fun cue => c.ended cue.call) = true → c.Quiescent) := by
  obtain ⟨c, hplay, hF⟩ := (Option.any_eq_true _ _).mp h
  have hexec : ∀ i s op c r s', State.exec E i s op c = some (r, s') → Act E i s op r s' :=
    fun _ _ _ _ _ _ => State.exec_act
  refine ⟨c, Config.play_reaches hexec (fun i p hm => ?_) hplay, hF, fun hended => ?_⟩
  · obtain ⟨cue, hcue, hmove⟩ := List.mem_map.mp hm
    cases cue with
    | start j =>
      cases hmove
      have hallowed := List.all_eq_true.mp hcues _ hcue
      simp only [Cue.allowed, Bool.and_eq_true, decide_eq_true_eq, Bool.or_eq_true, bne_iff_ne,
        beq_iff_eq] at hallowed
      exact ⟨hallowed.1, starts_program fun hrole => hallowed.2.resolve_left (not_not_intro hrole)⟩
    | fire j c => cases hmove
  · refine Config.play_quiescent hplay fun m hm => ?_
    obtain ⟨cue, hcue, rfl⟩ := List.mem_map.mp hm
    have hname : (Cue.move name n cue).name = cue.call := by cases cue <;> rfl
    rw [hname]
    exact List.all_eq_true.mp hended cue hcue

theorem exists_run (P : State → Bool) (hcues : cues.all (Cue.allowed roles) = true)
    (h : ((Config.idle ⟨w, []⟩).play (State.exec E) (cues.map (Cue.move name n))).any
      (fun c => P c.state) = true) :
    ∃ c, Runs E roles name w c ∧ P c.state = true := by
  obtain ⟨c, hrun, hP, -⟩ := exists_run_config E roles name w n cues (fun c => P c.state) hcues h
  exact ⟨c, hrun, hP⟩

end Script

end Freeshard

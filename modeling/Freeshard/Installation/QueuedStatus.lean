import Freeshard.Service.Phases

/-! # A queued status and the calls already in flight

The requests store their status without a lock, and a lifecycle call stores its own long after it has read
the one it acts on. So a call in flight may overwrite the status of an accepted request, and the worker then
drops its task. It may also be dropped because the app has other requests under way: the worker settles the
status at the end of each task. If a request stores its status only while no lifecycle call is about to act,
a reinstallation only while nothing else is under way for the app, and no uninstall is requested while a
reinstallation waits, the status stays until the worker takes the task. -/

namespace Freeshard
open Coroutine
set_option autoImplicit false

variable {name : String} {i j : Call} {s s' : State} {op : Op} {r : Answer op} {E : Env}

/-! ## Statement -/

/-- The statuses that requests for an installed app store. -/
def requestedStatus : List Status := [.uninstallationQueued, .reinstallationQueued]

/-- The worker takes the task of the last reinstallation accepted in the run. -/
def TakesReinstall (name : String) (step : PastStep) : Prop :=
  step.event.op = .dequeue ∧
    step.before.world.taskQueue = ⟨name, .reinstall⟩ :: step.after.taskQueue ∧
    ⟨name, .reinstall⟩ ∉ step.after.taskQueue ∧
    Succeeded (.enqueue ⟨name, .reinstall⟩) step.before.log

/-- No lifecycle call replaces the status of a request, and the worker finds it when it takes the task of
the last reinstallation. -/
structure KeepsQueued (name : String) (step : PastStep) : Prop where
  kept : step.event.call.role.lifecycle = true → ∀ status ∈ requestedStatus,
    step.before.world.status name = some status → step.after.status name = some status
  found : TakesReinstall name step → step.before.world.status name = some .reinstallationQueued

/-- No lifecycle call is about to act on a status it has read. -/
def NoneActing (s : State) : Prop := ∀ e ∈ s.log, s.phase e.call ≠ .engaged

/-- The worker has taken a task for the app and not finished it. -/
def Phase.worksOn (name : String) : Phase → Bool
  | .working task _ => task.appName == name
  | _ => false

/-- No task for the app waits in the queue, is being processed, or is about to be enqueued. -/
def Unclaimed (name : String) (s : State) : Prop :=
  (∀ task ∈ s.world.taskQueue, task.appName ≠ name) ∧
    ∀ e ∈ s.log, (s.phase e.call).worksOn name = false ∧ s.phase e.call ≠ .stored

instance (name : String) (step : PastStep) : Decidable (TakesReinstall name step) :=
  inferInstanceAs (Decidable (_ ∧ _ ∧ _ ∧ _))

instance (s : State) : Decidable (NoneActing s) :=
  inferInstanceAs (Decidable (∀ e ∈ s.log, _))

instance (name : String) (s : State) : Decidable (Unclaimed name s) :=
  inferInstanceAs (Decidable ((∀ task ∈ _, _) ∧ ∀ e ∈ s.log, _))

/-- The requests store their statuses only while nobody is about to act; a reinstallation only while
nothing else is under way for the app, and an uninstall not while a reinstallation waits. -/
def Env.unhurried (name : String) : Env := fun s _ op _ =>
  (op = .updateStatus name .uninstallationQueued →
    NoneActing s ∧ s.world.status name ≠ some .reinstallationQueued) ∧
  (op = .updateStatus name .reinstallationQueued → NoneActing s ∧ Unclaimed name s)

instance (s : State) (i : Call) (op : Op) (c : Choice) : Decidable (Env.unhurried name s i op c) :=
  inferInstanceAs (Decidable ((_ → _) ∧ (_ → _)))

/-- The functions that write a status over what they have read: starts, pauses and stops of a tick, requests to uninstall
and to reinstall, and the worker. -/
def revisingRoles : List Role :=
  [.startApp, .pauseApp, .stopApp, .uninstallRequest, .reinstallRequest, .worker]

/-! ## The invariant -/

/-- The tasks for the app that wait in the queue. -/
def World.tasksOf (w : World) (name : String) : List InstallationTask :=
  w.taskQueue.filter fun task => task.appName = name

/-- The row waits for a reinstallation: these are the tasks for the app, and only the holder is about to
enqueue one. -/
structure Held (name : String) (tasks : List InstallationTask) (holder : Option Call) (s : State) :
    Prop where
  status_eq : s.world.status name = some .reinstallationQueued
  tasks_eq : s.world.tasksOf name = tasks
  worker : ∀ j, j.role = .worker → (s.phase j).worksOn name = false
  stored : ∀ j, s.phase j = .stored → holder = some j

structure Unhurried (name : String) (s : State) : Prop where
  spared : ∀ status ∈ requestedStatus, s.world.status name = some status →
    ∀ j, j.role.lifecycle = true → s.phase j ≠ .engaged
  stored : ∀ j, j.role = .reinstallRequest → s.phase j = .stored → Held name [] (some j) s
  waiting : Succeeded (.enqueue ⟨name, .reinstall⟩) s.log → ⟨name, .reinstall⟩ ∈ s.world.taskQueue →
    Held name [⟨name, .reinstall⟩] none s

/-! ## Steps -/

/-- Only requests come to have stored their status. -/
theorem Phase.stored_kept {role : Role} (hrole : role.requests = false) {l : Phase}
    (h : l.after role op r = .stored) : l = .stored := by
  have hdemotion : ∀ actsOn, l.afterDemotion actsOn op r = .stored → l = .stored := by
    intro actsOn h
    unfold afterDemotion at h
    split at h
    · split at h
      · cases h
      · exact h
    · cases h
    · cases h
    · exact h
  cases role with
  | startApp =>
    change l.afterStart op r = .stored at h
    unfold afterStart at h
    split at h
    · cases h
    · split at h
      · cases h
      · exact h
    · cases h
    · cases h
    · exact h
  | pauseApp | stopApp | shutdownApp => exact hdemotion _ h
  | worker =>
    change l.afterWorker op r = .stored at h
    unfold afterWorker at h
    split at h <;> first
      | exact h
      | cases h
  | _ => cases hrole

/-- They do so by storing it. -/
theorem Phase.stored_cases {role : Role} (hrole : role.requests = true) {l : Phase}
    (h : l.after role op r = .stored) : (l = .stored ∧ ∀ task, op ≠ .enqueue task) ∨
      (∃ app, op = .insert app) ∨ ∃ other status, op = .updateStatus other status ∧
        ∀ E i s s', Act E i s op r s' → s'.world.status other = some status := by
  have hrequest : l.afterRequest op r = .stored := by
    cases role <;> first
      | exact h
      | cases hrole
  cases op with
  | insert app => exact .inr (.inl ⟨app, rfl⟩)
  | updateStatus other status =>
    rcases r with e | (_ | app)
    · cases hrequest
    · exact .inl ⟨hrequest, fun _ => nofun⟩
    · exact .inr (.inr ⟨other, status, rfl, fun _ _ _ _ ha => ha.updateStatus_ok⟩)
  | enqueue task => cases r <;> cases hrequest
  | _ =>
    refine .inl ⟨?_, fun _ => nofun⟩
    cases r <;> first
      | exact hrequest
      | cases hrequest

theorem NoneActing.phase (h : NoneActing s) (j : Call) : s.phase j ≠ .engaged := by
  intro hl
  obtain ⟨e, he, rfl⟩ := mem_log_of_phase (s := s) (j := j) (by rw [hl]; decide)
  exact h e he hl

namespace Unclaimed

theorem not_stored (h : Unclaimed name s) (j : Call) : s.phase j ≠ .stored := by
  intro hl
  obtain ⟨e, he, rfl⟩ := mem_log_of_phase (s := s) (j := j) (by rw [hl]; decide)
  exact (h.2 e he).2 hl

theorem worker (h : Unclaimed name s) (j : Call) : (s.phase j).worksOn name = false := by
  by_cases hl : s.phase j = .idle
  · rw [hl]
    rfl
  · obtain ⟨e, he, rfl⟩ := mem_log_of_phase hl
    exact (h.2 e he).1

theorem tasks_eq (h : Unclaimed name s) : s.world.tasksOf name = [] := by
  rw [World.tasksOf, List.filter_eq_nil_iff]
  intro task hmem
  simpa using h.1 task hmem

end Unclaimed

section Step
variable (ha : Act (.unhurried name) i s op r s') (hrole : i.role ∈ revisingRoles)
  (hop : (protocol name i.role).allows (s.phase i) op)

include hrole hop in
/-- The row is written by engaged lifecycle calls, by requests, and by the worker for a task of the app. -/
theorem row_writer (hwrites : op.writesRow name = true) :
    (i.role.lifecycle = true ∧ s.phase i = .engaged) ∨
    (i.role = .uninstallRequest ∧ op = .updateStatus name .uninstallationQueued) ∨
    (i.role = .reinstallRequest ∧ op = .updateStatus name .reinstallationQueued) ∨
    (i.role = .worker ∧ (s.phase i).worksOn name = true) := by
  by_cases hworker : i.role = .worker
  · rw [hworker] at hop
    obtain ⟨task, stage, hl, happ, -⟩ := WorkerAllows.task_of_writesRow hop hwrites
    refine .inr (.inr (.inr ⟨hworker, ?_⟩))
    rw [hl]
    exact beq_iff_eq.mpr happ
  · have hcall := callAllows_of_allows hworker hop
    have hinstall : i.role ≠ .installRequest := by
      intro hi
      rw [hi] at hrole
      exact absurd hrole (by decide)
    have hupdate : ∃ status ∈ i.role.footprint.statuses, op = .updateStatus name status := by
      have hcovers := hcall.covers
      cases op with
      | insert app =>
        have hinserts := hcovers.2.2
        cases hi : i.role <;> rw [hi] at hinserts <;> first
          | exact absurd hi hinstall
          | cases hinserts
      | updateStatus other status =>
        obtain ⟨rfl, hmem⟩ := hcovers
        exact ⟨status, hmem, rfl⟩
      | remove other =>
        have hremoves := hcovers.2
        cases hi : i.role <;> rw [hi] at hremoves <;> cases hremoves
      | _ => cases hwrites
    obtain ⟨status, hmem, rfl⟩ := hupdate
    cases hlife : i.role.lifecycle with
    | true => exact .inl ⟨rfl, hcall.acts hlife rfl⟩
    | false =>
      cases hi : i.role with
      | uninstallRequest =>
        rw [hi] at hmem
        obtain rfl := List.mem_singleton.mp hmem
        exact .inr (.inl ⟨rfl, rfl⟩)
      | reinstallRequest =>
        rw [hi] at hmem
        obtain rfl := List.mem_singleton.mp hmem
        exact .inr (.inr (.inl ⟨rfl, rfl⟩))
      | installRequest => exact absurd hi hinstall
      | worker => exact absurd hi hworker
      | _ =>
        rw [hi] at hlife
        cases hlife

include ha in
theorem allowed_uninstall (h : op = .updateStatus name .uninstallationQueued) :
    NoneActing s ∧ s.world.status name ≠ some .reinstallationQueued := by
  obtain ⟨c, hc, -⟩ := ha.allowed
  exact hc h

include ha in
theorem allowed_reinstall (h : op = .updateStatus name .reinstallationQueued) :
    NoneActing s ∧ Unclaimed name s := by
  obtain ⟨c, -, hc⟩ := ha.allowed
  exact hc h

/-! What a held row goes through. -/

variable {tasks : List InstallationTask} {holder : Option Call}

include ha hop in
/-- The worker does not take up the app without taking a task of it. -/
theorem worksOn_step (htasks : s'.world.tasksOf name = s.world.tasksOf name) (hi : i.role = .worker)
    (h : (s.phase i).worksOn name = false) : (s'.phase i).worksOn name = false := by
  rw [hi] at hop
  rw [ha.phase_self, hi]
  cases hphase : Phase.after .worker (s.phase i) op r with
  | working task stage =>
    obtain ⟨rfl, -⟩ | ⟨stage', hl⟩ := WorkerAllows.working_cases hop hphase
    · have hidle : s.phase i = .idle := hop
      rw [hidle] at hphase
      cases r with
      | error e => cases hphase
      | ok task' =>
        cases hphase
        refine beq_false_of_ne fun happ => ?_
        have hlength := congrArg List.length htasks
        rw [World.tasksOf, World.tasksOf, ha.dequeue_ok, List.filter_cons_of_pos (by simpa using happ)] at hlength
        simp at hlength
    · rw [hl] at h
      exact h
  | _ => rfl

include ha hop in
/-- A call that has left the row alone has not come to have stored a status. -/
theorem stored_of_kept (hkept : op.writesRow name = false) (h : s'.phase i = .stored) :
    s.phase i = .stored ∧ (i.role.requests = true → ∀ task, op ≠ .enqueue task) := by
  rw [ha.phase_self] at h
  cases hrequests : i.role.requests with
  | false => exact ⟨Phase.stored_kept hrequests h, nofun⟩
  | true =>
    have hcovers := (callAllows_of_allows (Role.requests_ne_worker hrequests) hop).covers
    obtain ⟨hl, hne⟩ | ⟨app, rfl⟩ | ⟨other, status, rfl, -⟩ := Phase.stored_cases hrequests h
    · exact ⟨hl, fun _ => hne⟩
    · obtain ⟨rfl, -⟩ := hcovers
      simp [Op.writesRow] at hkept
    · obtain ⟨rfl, -⟩ := hcovers
      simp [Op.writesRow] at hkept

include ha hrole hop in
/-- Nobody else comes near the row while it is held. -/
theorem Held.step (h : Held name tasks holder s)
    (hspared : ∀ j, j.role.lifecycle = true → s.phase j ≠ .engaged)
    (hclaimed : ¬Unclaimed name s) (htasks : s'.world.tasksOf name = s.world.tasksOf name) :
    Held name tasks holder s' := by
  have hkept : op.writesRow name = false := by
    by_contra hwrites
    obtain ⟨hlife, hl⟩ | ⟨-, hun⟩ | ⟨-, hre⟩ | ⟨hi, hl⟩ :=
      row_writer hrole hop (Bool.not_eq_false _ ▸ hwrites)
    · exact hspared i hlife hl
    · exact (allowed_uninstall ha hun).2 h.status_eq
    · exact hclaimed (allowed_reinstall ha hre).2
    · rw [h.worker i hi] at hl
      cases hl
  refine ⟨(ha.frame.status name hkept).trans h.status_eq, htasks.trans h.tasks_eq, fun j hj => ?_,
    fun j hl => ?_⟩
  · by_cases hji : j = i
    · subst hji
      exact worksOn_step ha hop htasks hj (h.worker j hj)
    · rw [ha.phase_other hji]
      exact h.worker j hj
  · by_cases hji : j = i
    · subst hji
      exact h.stored j (stored_of_kept ha hop hkept hl).1
    · rw [ha.phase_other hji] at hl
      exact h.stored j hl

/-! The tasks of the app. -/

theorem mem_tasksOf {w : World} {task : InstallationTask} :
    task ∈ w.tasksOf name ↔ task ∈ w.taskQueue ∧ task.appName = name := by
  simp [World.tasksOf]

include hop in
theorem enqueues_stored {task : InstallationTask} (henq : op = .enqueue task) :
    i.role.requests = true ∧ s.phase i = .stored ∧ task.appName = name ∧
      task.taskType ∈ i.role.footprint.enqueues := by
  subst henq
  by_cases hworker : i.role = .worker
  · rw [hworker] at hop
    obtain ⟨other, -, -, hcovers, -⟩ := hop
    have hnone : other.taskType.footprint.enqueues = [] := by cases other.taskType <;> rfl
    have hmem := hcovers.2
    rw [hnone] at hmem
    cases hmem
  · have hcall := callAllows_of_allows hworker hop
    refine ⟨?_, hcall.enqueues task rfl, hcall.covers⟩
    have hmem := hcall.covers.2
    cases hi : i.role <;> rw [hi] at hmem <;> first
      | rfl
      | cases hmem

variable (name) in
include ha in
/-- What becomes of the tasks of the app when nobody enqueues one. -/
theorem tasksOf_cases (henq : ∀ task, op ≠ .enqueue task) :
    s'.world.tasksOf name = s.world.tasksOf name ∨
      ∃ task, s.world.tasksOf name = task :: s'.world.tasksOf name := by
  obtain hsame | hpush | @⟨task, hpop⟩ := ha.queueStep
  · exact .inl (by rw [World.tasksOf, World.tasksOf, hsame])
  · exact absurd rfl (henq _)
  · by_cases happ : task.appName = name
    · refine .inr ⟨task, ?_⟩
      rw [World.tasksOf, World.tasksOf, hpop, List.filter_cons_of_pos (by simpa using happ)]
    · refine .inl ?_
      rw [World.tasksOf, World.tasksOf, hpop, List.filter_cons_of_neg (by simpa using happ)]

end Step

/-! The invariant. -/

namespace Unhurried

theorem actsOn_not_requested (role : Role) : ∀ status ∈ role.actsOn, status ∉ requestedStatus := by
  cases role <;> decide

theorem spared_step (h : Unhurried name s) (ha : Act (.unhurried name) i s op r s')
    (hop : (protocol name i.role).allows (s.phase i) op) {status : Status}
    (hmem : status ∈ requestedStatus) (hst : s'.world.status name = some status)
    (hlife : j.role.lifecycle = true) : s'.phase j ≠ .engaged := by
  intro hl
  have hengaged := ha.engaged_cases hop hlife hl
  obtain hsame | @⟨app, -, hst'⟩ | @⟨status', -, hst'⟩ | hnone := ha.statusStep name
  · obtain hl | ⟨-, -, -, read, hread, hst'⟩ := hengaged
    · exact h.spared status hmem (hsame.symm.trans hst) j hlife hl
    · obtain rfl := Option.some.inj ((hst'.symm.trans hsame.symm).trans hst)
      exact actsOn_not_requested j.role read hread hmem
  · have happ : app.status = .installationQueued := by
      by_cases hworker : i.role = .worker
      · rw [hworker] at hop
        obtain ⟨task, -, -, hcovers, -⟩ := hop
        exact hcovers.2.1
      · exact (callAllows_of_allows hworker hop).covers.2.1
    obtain rfl := Option.some.inj (hst'.symm.trans hst)
    rw [happ] at hmem
    exact absurd hmem (by decide)
  · obtain rfl := Option.some.inj (hst'.symm.trans hst)
    have hnone : NoneActing s := by
      obtain rfl | hmem := List.mem_cons.mp hmem
      · exact (allowed_uninstall ha rfl).1
      · obtain rfl := List.mem_singleton.mp hmem
        exact (allowed_reinstall ha rfl).1
    obtain hl | ⟨-, hread, -⟩ := hengaged
    · exact hnone.phase j hl
    · cases hread
  · rw [hst] at hnone
    cases hnone

theorem stored_step (h : Unhurried name s) (ha : Act (.unhurried name) i s op r s')
    (hrole : i.role ∈ revisingRoles) (hop : (protocol name i.role).allows (s.phase i) op)
    (hj : j.role = .reinstallRequest) (hl : s'.phase j = .stored) : Held name [] (some j) s' := by
  have hkeep : s.phase j = .stored → (j = i → ∀ task, op ≠ .enqueue task) →
      Held name [] (some j) s' := by
    intro hl henq
    have hheld := h.stored j hj hl
    have hne : ∀ task, op ≠ .enqueue task := by
      intro task he
      obtain ⟨-, hli, -⟩ := enqueues_stored hop he
      exact henq (Option.some.inj (hheld.stored i hli)) task he
    refine hheld.step ha hrole hop (h.spared _ (by decide) hheld.status_eq)
      (fun hun => hun.not_stored j hl) ?_
    obtain hsame | ⟨task, hcons⟩ := tasksOf_cases name ha hne
    · exact hsame
    · rw [hheld.tasks_eq] at hcons
      cases hcons
  by_cases hji : j = i
  · subst hji
    have hrequests : j.role.requests = true := by rw [hj]; rfl
    have hcall := callAllows_of_allows (Role.requests_ne_worker hrequests) hop
    have hafter := hl
    rw [ha.phase_self] at hafter
    obtain ⟨hl', hne⟩ | ⟨app, rfl⟩ | ⟨other, status, rfl, hstored⟩ := Phase.stored_cases hrequests hafter
    · exact hkeep hl' fun _ => hne
    · have hinserts := hcall.covers.2.2
      rw [hj] at hinserts
      cases hinserts
    · obtain ⟨rfl, hmem⟩ := hcall.covers
      rw [hj] at hmem
      obtain rfl := List.mem_singleton.mp hmem
      have hun := (allowed_reinstall ha rfl).2
      refine ⟨hstored _ _ _ _ ha, ?_, fun k hk => ?_, fun k hk => ?_⟩
      · rw [World.tasksOf, ha.frame.taskQueue rfl]
        exact hun.tasks_eq
      · have hkj : k ≠ j := by
          rintro rfl
          rw [hj] at hk
          cases hk
        rw [ha.phase_other hkj]
        exact hun.worker k
      · by_cases hkj : k = j
        · rw [hkj]
        · rw [ha.phase_other hkj] at hk
          exact absurd hk (hun.not_stored k)
  · have hl' := hl
    rw [ha.phase_other hji] at hl'
    exact hkeep hl' fun he => absurd he hji

theorem enqueue_step {task : InstallationTask} {r : Answer (.enqueue task)} (h : Unhurried name s)
    (ha : Act (.unhurried name) i s (.enqueue task) r s') (hrole : i.role ∈ revisingRoles)
    (hop : (protocol name i.role).allows (s.phase i) (.enqueue task))
    (hsucceeded : Succeeded (.enqueue ⟨name, .reinstall⟩) s'.log)
    (hmem : ⟨name, .reinstall⟩ ∈ s'.world.taskQueue) : Held name [⟨name, .reinstall⟩] none s' := by
  obtain ⟨hrequests, hl, happ, htype⟩ := enqueues_stored hop rfl
  have hqueue : s'.world.taskQueue = s.world.taskQueue ∨
      s'.world.taskQueue = s.world.taskQueue ++ [task] := by
    obtain hsame | hpush := ha.queueStep
    · exact .inl hsame
    · exact .inr hpush
  have hi : i.role = .reinstallRequest ∨ i.role = .uninstallRequest := by
    cases hi : i.role <;> rw [hi] at hrequests hrole <;> first
      | exact .inl rfl
      | exact .inr rfl
      | exact absurd hrole (by decide)
      | cases hrequests
  obtain ⟨app, taskType⟩ := task
  obtain rfl : app = name := happ
  obtain hi | hi := hi
  · rw [hi] at htype
    obtain rfl : taskType = .reinstall := List.mem_singleton.mp htype
    have hheld := h.stored i hi hl
    have htasks : s'.world.tasksOf app = [⟨app, .reinstall⟩] := by
      obtain hsame | hpush := hqueue
      · rw [hsame] at hmem
        have hold := mem_tasksOf.mpr ⟨hmem, rfl⟩
        rw [hheld.tasks_eq] at hold
        cases hold
      · have hnone := hheld.tasks_eq
        rw [World.tasksOf] at hnone ⊢
        rw [hpush, List.filter_append, hnone]
        simp
    refine ⟨(ha.frame.status app rfl).trans hheld.status_eq, htasks, fun k hk => ?_, fun k hk => ?_⟩
    · have hki : k ≠ i := by
        rintro rfl
        rw [hi] at hk
        cases hk
      rw [ha.phase_other hki]
      exact hheld.worker k hk
    · by_cases hki : k = i
      · subst hki
        rw [ha.phase_self, hi] at hk
        cases r <;> cases hk
      · rw [ha.phase_other hki] at hk
        exact absurd (Option.some.inj (hheld.stored k hk)).symm hki
  · rw [hi] at htype
    obtain rfl : taskType = .uninstall := List.mem_singleton.mp htype
    have hold := (ha.follows.succeeded_of_ne (by simp)).mp hsucceeded
    have hmem' : ⟨app, .reinstall⟩ ∈ s.world.taskQueue := by
      obtain hsame | hpush := hqueue
      · rwa [hsame] at hmem
      · rw [hpush] at hmem
        simpa using hmem
    cases (h.waiting hold hmem').stored i hl

theorem waiting_step (h : Unhurried name s) (ha : Act (.unhurried name) i s op r s')
    (hrole : i.role ∈ revisingRoles) (hop : (protocol name i.role).allows (s.phase i) op)
    (hsucceeded : Succeeded (.enqueue ⟨name, .reinstall⟩) s'.log)
    (hmem : ⟨name, .reinstall⟩ ∈ s'.world.taskQueue) : Held name [⟨name, .reinstall⟩] none s' := by
  by_cases henq : ∃ task, op = .enqueue task
  · obtain ⟨task, rfl⟩ := henq
    exact h.enqueue_step ha hrole hop hsucceeded hmem
  · have hne : ∀ task, op ≠ .enqueue task := fun task he => henq ⟨task, he⟩
    have hold := (ha.follows.succeeded_of_ne (hne _)).mp hsucceeded
    have hmem' : ⟨name, .reinstall⟩ ∈ s.world.taskQueue := by
      obtain hsame | hpush | hpop := ha.queueStep
      · rwa [hsame] at hmem
      · exact absurd rfl (hne _)
      · rw [hpop]
        exact List.mem_cons_of_mem _ hmem
    have hheld := h.waiting hold hmem'
    refine hheld.step ha hrole hop (h.spared _ (by decide) hheld.status_eq)
      (fun hun => hun.1 _ hmem' rfl) ?_
    obtain hsame | ⟨task, hcons⟩ := tasksOf_cases name ha hne
    · exact hsame
    · rw [hheld.tasks_eq, List.cons.injEq] at hcons
      have hgone := mem_tasksOf.mpr ⟨hmem, rfl⟩
      rw [← hcons.2] at hgone
      cases hgone

theorem step (h : Unhurried name s) (ha : Act (.unhurried name) i s op r s')
    (hrole : i.role ∈ revisingRoles) (hop : (protocol name i.role).allows (s.phase i) op) :
    Unhurried name s' where
  spared _ hmem hst _ hlife := h.spared_step ha hop hmem hst hlife
  stored _ hj hl := h.stored_step ha hrole hop hj hl
  waiting hsucceeded hmem := h.waiting_step ha hrole hop hsucceeded hmem

theorem initial (w : World) : Unhurried name ⟨w, []⟩ where
  spared _ _ _ _ _ := nofun
  stored _ _ := nofun
  waiting hsucceeded := by
    obtain ⟨e, hmem, -⟩ := hsucceeded
    cases hmem

theorem keeps (h : Unhurried name s) (ha : Act (.unhurried name) i s op r s')
    (hrole : i.role ∈ revisingRoles) (hop : (protocol name i.role).allows (s.phase i) op) :
    KeepsQueued name ⟨s, ⟨i, op, r, s.world⟩, s'.world⟩ where
  kept hlife status hmem hst := by
    refine (ha.frame.status name ?_).trans hst
    by_contra hwrites
    have hnone := h.spared status hmem hst i hlife
    have hlife' : i.role.lifecycle = true := hlife
    obtain ⟨-, hl⟩ | ⟨hi, -⟩ | ⟨hi, -⟩ | ⟨hi, -⟩ := row_writer hrole hop (Bool.not_eq_false _ ▸ hwrites)
    · exact hnone hl
    · rw [hi] at hlife'
      cases hlife'
    · rw [hi] at hlife'
      cases hlife'
    · rw [hi] at hlife'
      cases hlife'
  found htakes := by
    obtain ⟨-, hqueue, -, hsucceeded⟩ := htakes
    refine (h.waiting hsucceeded ?_).status_eq
    change s.world.taskQueue = _ at hqueue
    rw [hqueue]
    exact List.mem_cons_self

end Unhurried

/-! ## Main result -/

/-- In every run in which the requests store their statuses only while no lifecycle call is about to act, a
reinstallation only while nothing else is under way for the app, and an uninstall not while a reinstallation
waits, no lifecycle call replaces a queued status, and the worker finds REINSTALLATION_QUEUED when it takes
the task of the last reinstallation. -/
theorem queued_status_kept {name : String} {w : World} {c : Config Op Ans Exn State Call}
    (h : Runs (.unhurried name) revisingRoles name w c) :
    ∀ step ∈ c.state.steps, KeepsQueued name step :=
  (h.always (fun _ _ _ _ _ hrole hop hs ha => ⟨hs.step ha hrole hop, hs.keeps ha hrole hop⟩)
    (Unhurried.initial w)).2

/-! ## Two runs -/

/-- An app is paused, and the worker takes its reinstallation. -/
theorem queued_status_kept_run : ∃ w c, Runs (.unhurried "app") revisingRoles "app" w c ∧
    (c.state.steps.any fun step => decide (TakesReinstall "app" step)) = true ∧
    ∀ step ∈ c.state.steps, KeepsQueued "app" step := by
  let pause : Call := ⟨.pauseApp, 0⟩
  let request : Call := ⟨.reinstallRequest, 0⟩
  let worker : Call := ⟨.worker, 0⟩
  obtain ⟨c, hrun, htakes⟩ := exists_run (.unhurried "app") revisingRoles "app"
    (.withApp "app" .running (.single .running)) 1
    (.start pause :: Cue.fires pause ([.proceed, .docker (.ok ()) (.single .paused)] ++
        List.replicate 4 .proceed) ++
      .start request :: Cue.fires request (List.replicate 5 .proceed) ++
      .start worker :: Cue.fires worker [.proceed])
    (fun s => s.steps.any fun step => decide (TakesReinstall "app" step))
    (by decide) (by decide +kernel)
  exact ⟨_, c, hrun, htakes, queued_status_kept hrun⟩

/-- The control tick freezes the containers of an app, and a reinstallation of it is accepted. The pause
then stores PAUSED, and the worker drops the reinstallation. -/
theorem pause_drops_reinstallation : ¬ ∀ (w : World) (c : Config Op Ans Exn State Call),
    Runs .obedient revisingRoles "app" w c → ∀ step ∈ c.state.steps, KeepsQueued "app" step := by
  intro h
  let pause : Call := ⟨.pauseApp, 0⟩
  let request : Call := ⟨.reinstallRequest, 0⟩
  let worker : Call := ⟨.worker, 0⟩
  obtain ⟨c, hrun, hdrops⟩ := exists_run .obedient revisingRoles "app"
    (.withApp "app" .running (.single .running)) 1
    (.start pause :: Cue.fires pause [.proceed, .docker (.ok ()) (.single .paused)] ++
      .start request :: Cue.fires request (List.replicate 5 .proceed) ++
      Cue.fires pause (List.replicate 4 .proceed) ++
      .start worker :: Cue.fires worker [.proceed])
    (fun s => s.steps.any fun step => decide (TakesReinstall "app" step) &&
      step.before.world.status "app" == some .paused)
    (by decide) (by decide +kernel)
  obtain ⟨step, hmem, hstep⟩ := List.any_eq_true.mp hdrops
  simp only [Bool.and_eq_true, beq_iff_eq, decide_eq_true_eq] at hstep
  obtain ⟨htakes, hpaused⟩ := hstep
  have hqueued := (h _ c hrun step hmem).found htakes
  rw [hpaused] at hqueued
  cases hqueued

end Freeshard

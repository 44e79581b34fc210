import Freeshard.Boot.Reconcile
import Freeshard.Service.Progress

/-! # The queue and the rows waiting for it

The statuses the requests store outlive the process, the queue does not. A boot enqueues anew only
what `reconcile_interrupted_uninstalls` finds, and `refresh_init_apps` passes over rows that exist
already, so the tasks of rows waiting for an installation or a reinstallation are gone for good.

A run is a sequence of process lifetimes: a startup that may stop anywhere, and after a completed
one any number of requests and lifecycle calls for any apps, interleaved with the worker, until the
process stops. If it stops only while no row waits for an installation or a reinstallation, and no
exception gets between a row and its task, then every waiting row has its task. -/

namespace Freeshard
open Coroutine
set_option autoImplicit false

/-! ## Rows and tasks -/

/-- The task is the one for a row in this status. -/
def InstallationTask.Serves (task : InstallationTask) (name : String) (status : Status) : Prop :=
  task.appName = name ∧ task.taskType.expects = status

/-- Every row in a queued status has its task in the queue or being processed. -/
def World.Backed (w : World) : Prop :=
  ∀ name status, w.status name = some status → status ∈ queuedStatus →
    ∃ task, task.Serves name status ∧ (task ∈ w.taskQueue ∨ w.currentTask = some task)

/-- Every row in a queued status has its task in the queue. -/
def World.Queued (w : World) : Prop :=
  ∀ name status, w.status name = some status → status ∈ queuedStatus →
    ∃ task ∈ w.taskQueue, task.Serves name status

/-- No row waits for an installation or a reinstallation. -/
def NothingWaits (w : World) : Prop :=
  ∀ name, w.status name ≠ some .installationQueued ∧ w.status name ≠ some .reinstallationQueued

/-- The status a request stores. -/
def Role.queues : Role → Option Status
  | .installRequest => some .installationQueued
  | .uninstallRequest => some .uninstallationQueued
  | .reinstallRequest => some .reinstallationQueued
  | _ => none

/-- The row that call `i`, for the app `ν i`, has yet to see to: a request has stored the status
and not enqueued the task, the worker has taken the task and not replaced the status. -/
def owed (ν : Call → String) (i : Call) (s : State) : Option (String × Status) :=
  match (s.progress i).task with
  | some task => some (task.appName, task.taskType.expects)
  | none => if s.phase i = .stored then i.role.queues.map fun status => (ν i, status) else none

/-! ## Runs -/

/-- The operation stores a queued status or takes a task. -/
def Op.claims : Op → Bool
  | .insert _ => true
  | .updateStatus _ status => status ∈ queuedStatus
  | .dequeue => true
  | _ => false

/-- An exception surfaces after the effect. -/
def Choice.interrupts : Choice → Bool
  | .proceedRaise _ => true
  | _ => false

/-- No exception surfaces in a call that has yet to see to a row that waits for it, nor once a
queued status is stored or a task is taken. -/
def Env.orderly (ν : Call → String) : Env := fun s i op c =>
  (∀ row ∈ owed ν i s, s.world.status row.1 = some row.2 →
    (s.world.exec i op c).all (fun rw => rw.1.isOk) = true) ∧
  (op.claims = true → c.interrupts = false)

/-- A startup completes on what an earlier process has left, and `c` is what has come of it: calls
of all kinds, call `i` for the app `ν i`, and one worker. -/
def Serving (E : (Call → String) → Env) (w : World)
    (c : Config Op Ans Exn State Call) : Prop :=
  ∃ configuredInitApps boot s ν,
    Prog.Exec (Act .any boot) (startup configuredInitApps) ⟨w.reboot, []⟩ (.ok ()) s ∧
    Reaches (Act (E ν)) (fun i p => Starts (ν i) i p) (.idle ⟨s.world, []⟩) c

/-- What processes that stop only in worlds of `stops` may leave behind: a startup stops before
any of its operations, a process that is up at any point. -/
inductive LeftBehind (E : (Call → String) → Env) (stops : World → Prop) : World → Prop where
  | new {w : World} (hw : w.installedApps = .empty) : LeftBehind E stops w
  | startup {w : World} {configuredInitApps : List String} {boot : Call}
      {c : Config Op Ans Exn State Call} (hw : LeftBehind E stops w)
      (hc : Reaches (Act .any) (fun i p => i = boot ∧ p = Freeshard.startup configuredInitApps)
        (.idle ⟨w.reboot, []⟩) c) (hstop : stops c.state.world) : LeftBehind E stops c.state.world
  | process {w : World} {c : Config Op Ans Exn State Call} (hw : LeftBehind E stops w)
      (hc : Serving E w c) (hstop : stops c.state.world) : LeftBehind E stops c.state.world

/-- No request is in flight. -/
def NoRequest (c : Config Op Ans Exn State Call) : Prop :=
  ∀ i, i.role.requests = true → ∀ op next, c.pool i ≠ some (.await op next)

theorem LeftBehind.nothingWaits {E : (Call → String) → Env} {w : World}
    (h : LeftBehind E NothingWaits w) : NothingWaits w := by
  cases h with
  | new hw => simp [NothingWaits, World.status, hw, InstalledApps.status, InstalledApps.empty,
      InstalledApps.getByName]
  | startup _ _ hstop => exact hstop
  | process _ _ hstop => exact hstop

/-! ## Starting up -/

section Startup
variable {boot : Call} {s s' : State} {name : String}

theorem World.Queued.frame {op : Op} {r : Answer op} (h : s.world.Queued)
    (ha : Act .any boot s op r s') (hrow : ∀ other, op.writesRow other = false)
    (hq : op.queues = false) : s'.world.Queued := by
  intro other status hst
  rw [ha.frame.status other (hrow other)] at hst
  rw [ha.frame.taskQueue hq]
  exact h other status hst

/-- Rows are waiting for their tasks or among those still to be visited. -/
def Reconciling (apps : List InstalledApp) (s : State) : Prop :=
  ∀ name status, s.world.status name = some status → status ∈ queuedStatus →
    (∃ task ∈ s.world.taskQueue, task.Serves name status) ∨
      status = .uninstallationQueued ∧ ∃ app ∈ apps, app.name = name ∧ app.status = status

theorem wpOk_reconcile (h : NothingWaits s.world) :
    reconcileInterruptedUninstalls.wpOk (Act .any boot) (fun _ s' => s'.world.Queued) s := by
  refine Prog.wpOk_bind (P := Reconciling) (Prog.wpOk_perform fun apps s₁ ha => ?_)
    fun apps s₁ h₁ => ?_
  · have he := ha.effect_of_ok rfl rfl
    obtain ⟨happs, hw⟩ := Prod.mk.inj (Option.some.inj he)
    obtain rfl := Except.ok.inj happs
    intro name status hst hqueued
    rw [← hw] at hst
    obtain ⟨app, hget, rfl⟩ := Option.map_eq_some_iff.mp hst
    have hname := InstalledApps.getByName_name hget
    refine .inr ⟨?_, app, InstalledApps.mem_rows_iff.mpr (by rw [hname, hget]), hname, rfl⟩
    obtain ⟨hinst, hrein⟩ := h name
    rw [hst, ne_eq, Option.some.injEq] at hinst hrein
    simpa [queuedStatus, hinst, hrein] using hqueued
  · refine Prog.wpOk_mono (Prog.wpOk_forM (I := Reconciling) (fun app apps s₂ h₂ => ?_) h₁)
      fun _ s₂ h₂ name status hst hqueued => ?_
    · unfold onlyIf
      split
      · refine Prog.wpOk_perform fun _ s₃ ha => ?_
        have he := ha.effect_of_ok rfl rfl
        have hw := (Prod.mk.inj (Option.some.inj he)).2
        intro name status hst hqueued
        rw [← hw] at hst ⊢
        obtain ⟨task, htask, hserves⟩ | ⟨hun, other, hother, hname, hstatus⟩ :=
          h₂ name status hst hqueued
        · exact .inl ⟨task, List.mem_append_left _ htask, hserves⟩
        · obtain rfl | hother := List.mem_cons.mp hother
          · exact .inl ⟨_, List.mem_append_right _ (List.mem_singleton_self _), hname, hun.symm⟩
          · exact .inr ⟨hun, other, hother, hname, hstatus⟩
      · next hnot =>
        refine Prog.wpOk_ret fun name status hst hqueued => ?_
        obtain hback | ⟨hun, other, hother, hname, hstatus⟩ := h₂ name status hst hqueued
        · exact .inl hback
        · obtain rfl | hother := List.mem_cons.mp hother
          · rw [hstatus, hun] at hnot
            exact absurd (by decide) hnot
          · exact .inr ⟨hun, other, hother, hname, hstatus⟩
    · obtain hback | ⟨-, other, hother, -⟩ := h₂ name status hst hqueued
      · exact hback
      · cases hother

theorem wpOk_installAppFromStore (reason : InstallationReason) (h : s.world.Queued) :
    (installAppFromStore name reason).wpOk (Act .any boot) (fun _ s' => s'.world.Queued) s := by
  have hcheck : ∀ (c : Prop) [Decidable c] (e : Exn) (s : State), s.world.Queued →
      (raiseUnless c e).wpOk (Act .any boot) (fun _ s' => s'.world.Queued) s := by
    intro c _ e s hs
    unfold raiseUnless
    split
    · exact Prog.wpOk_ret hs
    · exact Prog.wpOk_raise _ _ _
  refine Prog.wpOk_bind (Prog.wpOk_perform fun _ _ ha => h.frame ha (fun _ => rfl) rfl) ?_
  intro inStore s₁ h₁
  refine Prog.wpOk_bind (hcheck _ _ _ h₁) fun _ s₂ h₂ => ?_
  refine Prog.wpOk_bind (Prog.wpOk_perform fun _ _ ha => h₂.frame ha (fun _ => rfl) rfl) ?_
  intro inDb s₃ h₃
  refine Prog.wpOk_bind (hcheck _ _ _ h₃) fun _ s₄ h₄ => ?_
  refine Prog.wpOk_bind (P := fun _ s => ∀ other status, s.world.status other = some status →
    status ∈ queuedStatus → (∃ task ∈ s.world.taskQueue, task.Serves other status) ∨
      name = other ∧ status = .installationQueued) (Prog.wpOk_perform fun _ s₅ ha => ?_) ?_
  · have he := ha.effect_of_ok rfl rfl
    simp only [World.effect] at he
    split at he
    · next apps hins =>
      have hw := (Prod.mk.inj (Option.some.inj he)).2
      intro other status hst hqueued
      rw [← hw] at hst ⊢
      have hstatus := InstalledApps.status_insert hins other
      by_cases hname : name = other
      · rw [if_pos hname] at hstatus
        exact .inr ⟨hname, (Option.some.inj (hstatus.symm.trans hst)).symm⟩
      · rw [if_neg hname] at hstatus
        exact .inl (h₄ other status (hstatus.symm.trans hst) hqueued)
    · cases he
  · intro _ s₅ h₅
    refine Prog.wpOk_bind (P := fun _ s => s.world.Queued) (Prog.wpOk_perform fun _ s₆ ha => ?_) ?_
    · have he := ha.effect_of_ok rfl rfl
      have hw := (Prod.mk.inj (Option.some.inj he)).2
      intro other status hst hqueued
      rw [← hw] at hst ⊢
      obtain ⟨task, htask, hserves⟩ | ⟨hname, hstatus⟩ := h₅ other status hst hqueued
      · exact ⟨task, List.mem_append_left _ htask, hserves⟩
      · exact ⟨_, List.mem_append_right _ (List.mem_singleton_self _), hname, hstatus.symm⟩
    · exact fun _ s₆ h₆ => Prog.wpOk_perform fun _ _ ha => h₆.frame ha (fun _ => rfl) rfl

theorem wpOk_refreshInitApps (configuredInitApps : List String) (h : s.world.Queued) :
    (refreshInitApps configuredInitApps).wpOk (Act .any boot) (fun _ s' => s'.world.Queued) s := by
  have hflag : initialAppsInstalled.wpOk (Act .any boot) (fun _ s' => s'.world.Queued) s := by
    refine Prog.wpOk_tryCatch (R := fun s' => s'.world.Queued) ?_ (fun _ _ h => h) fun e s' h' => ?_
    · have hget : (awaitOp (.getValue storeKeyInitialAppsInstalled)).wp (Act .any boot)
          (fun _ s' => s'.world.Queued) s :=
        (Prog.wp_perform _ _ _).mpr fun r s' ha => h.frame ha (fun _ => rfl) rfl
      exact Prog.wp_bind_of hget (fun _ _ h => h) fun _ _ h => h
    · cases e <;> first
        | exact Prog.wpOk_ret h'
        | exact Prog.wpOk_raise _ _ _
  refine Prog.wpOk_bind hflag fun installed s₁ h₁ => ?_
  unfold onlyIf
  split
  · refine Prog.wpOk_bind (Prog.wpOk_perform fun _ _ ha => h₁.frame ha (fun _ => rfl) rfl) ?_
    intro apps s₂ h₂
    refine Prog.wpOk_bind (Prog.wpOk_forM (I := fun _ s => s.world.Queued)
      (fun name _ s₃ h₃ => wpOk_installAppFromStore .config h₃) h₂) fun _ s₃ h₃ => ?_
    exact Prog.wpOk_perform fun _ _ ha => h₃.frame ha (fun _ => rfl) rfl
  · exact Prog.wpOk_ret h₁

/-- After a startup on a database in which nothing waits, every waiting row has its task. -/
theorem wpOk_startup (configuredInitApps : List String) (h : NothingWaits s.world) :
    (startup configuredInitApps).wpOk (Act .any boot) (fun _ s' => s'.world.Queued) s :=
  Prog.wpOk_bind (wpOk_reconcile h) fun _ _ h' => wpOk_refreshInitApps configuredInitApps h'

end Startup

/-! ## Serving -/

section Serving
variable {ν : Call → String} {i j : Call} {s s' : State} {op : Op} {r : Answer op}

/-- Every waiting row has its task in the queue or a call that sees to it, and the task of the
worker is the current one. -/
structure Accounted (ν : Call → String) (s : State) : Prop where
  backed : ∀ name status, s.world.status name = some status → status ∈ queuedStatus →
    (∃ task ∈ s.world.taskQueue, task.Serves name status) ∨ ∃ i, owed ν i s = some (name, status)
  current : ∀ i task, (s.progress i).task = some task →
    i = ⟨.worker, 0⟩ ∧ s.world.currentTask = some task

theorem World.Queued.accounted {w : World} (h : w.Queued) (ν : Call → String) :
    Accounted ν ⟨w, []⟩ where
  backed name status hst hqueued := .inl (h name status hst hqueued)
  current _ _ := nofun

theorem owed_other {E : Env} (ha : Act E i s op r s') (hij : j ≠ i) :
    owed ν j s' = owed ν j s := by
  have hphase : s'.phase j = s.phase j := (tracks E "").other ha hij
  have hprogress : s'.progress j = s.progress j := (progress_tracks E).other ha hij
  rw [owed, owed, hphase, hprogress]

theorem owed_of_task {task : InstallationTask} (h : (s.progress i).task = some task) :
    owed ν i s = some (task.appName, task.taskType.expects) := by
  rw [owed, h]

theorem owed_of_stored {status : Status} (h : (s.progress i).task = none)
    (hphase : s.phase i = .stored) (hrole : i.role.queues = some status) :
    owed ν i s = some (ν i, status) := by
  rw [owed, h]
  simp only
  rw [if_pos hphase, hrole]
  rfl

theorem owed_cases {name : String} {status : Status} (h : owed ν i s = some (name, status)) :
    (∃ task, (s.progress i).task = some task ∧ task.Serves name status) ∨
      ((s.progress i).task = none ∧ s.phase i = .stored ∧ i.role.queues = some status ∧
        ν i = name) := by
  unfold owed at h
  split at h
  · next task htask => exact .inl ⟨task, htask, by simpa [InstallationTask.Serves] using h⟩
  · next hnone =>
    split at h
    · next hphase =>
      obtain ⟨status', hst, hrow⟩ := Option.map_eq_some_iff.mp h
      obtain ⟨rfl, rfl⟩ := Prod.mk.inj hrow
      exact .inr ⟨hnone, hphase, hst, rfl⟩
    · cases h

theorem Role.requests_of_queues {role : Role} {status : Status}
    (h : role.queues = some status) : role.requests = true := by
  cases role <;> first
    | rfl
    | cases h

theorem Act.undisturbed_of_owed {name : String} {status : Status} (ha : Act (.orderly ν) i s op r s')
    (h : owed ν i s = some (name, status)) (hst : s.world.status name = some status) :
    r.isOk = true := by
  obtain ⟨c, ⟨hc, -⟩, he⟩ := ha.inv
  have hok := hc (name, status) h hst
  rw [he] at hok
  exact hok

/-- A queued status is stored, or a task taken, by an operation that answers. -/
theorem Act.claimed (ha : Act (.orderly ν) i s op r s') (hop : op.claims = true) :
    s.world.effect i op = some (r, s'.world) ∨ s'.world = s.world := by
  obtain ⟨c, ⟨-, hc⟩, he⟩ := ha.inv
  cases c with
  | proceed => exact .inl he
  | raise e => exact .inr (Prod.mk.inj (Option.some.inj he)).2.symm
  | proceedRaise e => cases hc hop
  | docker exit stack | clock now => cases op <;> first | cases he | cases hop
  | leaves dir e => cases op <;> first | cases he | cases hop

/-- The worker keeps its task only while it takes the lock and reads the row. -/
theorem Progress.taken_of_after {l : Progress} {task : InstallationTask}
    (h : (l.after .worker op r).task = some task) (hop : op ≠ .dequeue) :
    l = .taken task ∧ op.works = false := by
  unfold Progress.after at h
  split at h
  · exact absurd rfl hop
  · exact ⟨congrArg Progress.taken (Option.some.inj h), rfl⟩
  · split at h
    · exact ⟨congrArg Progress.taken (Option.some.inj h), rfl⟩
    · cases h
  · cases h

theorem works_worker {name : String} {role : Role} {l : Phase}
    (hop : (protocol name role).allows l op) (hworks : op.works = true) : role = .worker := by
  by_contra hrole
  have hcovers := (callAllows_of_allows hrole hop).covers
  cases op <;> first
    | exact hcovers
    | cases hworks

theorem Accounted.current_step {E : Env} (h : Accounted ν s) (ha : Act E i s op r s')
    (hop : (protocol (ν i) i.role).allows (s.phase i) op)
    (hworker : i.role = .worker → i = ⟨.worker, 0⟩) (task : InstallationTask)
    (htask : (s'.progress j).task = some task) :
    j = ⟨.worker, 0⟩ ∧ s'.world.currentTask = some task := by
  by_cases hj : j = i
  · subst hj
    rw [(progress_tracks E).own ha] at htask
    by_cases hrole : j.role = .worker
    · refine ⟨hworker hrole, ?_⟩
      change ((s.progress j).after j.role op r).task = _ at htask
      rw [hrole] at htask
      by_cases hdeq : op = .dequeue
      · subst hdeq
        cases r with
        | error e => cases htask
        | ok task' =>
          obtain rfl : task' = task := Option.some.inj htask
          have he := ha.effect_of_ok rfl rfl
          simp only [World.effect] at he
          split at he
          · cases he
          · obtain ⟨htask', hw⟩ := Prod.mk.inj (Option.some.inj he)
            rw [← hw, ← Except.ok.inj htask']
      · obtain ⟨htaken, hworks⟩ := Progress.taken_of_after htask hdeq
        rw [ha.frame.currentTask hworks]
        exact (h.current j task (by rw [htaken]; rfl)).2
    · change ((s.progress j).after j.role op r).task = _ at htask
      rw [Progress.after_of_ne hrole] at htask
      cases htask
  · rw [(progress_tracks E).other ha hj] at htask
    obtain ⟨rfl, hcur⟩ := h.current j task htask
    refine ⟨rfl, ?_⟩
    cases hworks : op.works with
    | false => rw [ha.frame.currentTask hworks, hcur]
    | true =>
      refine absurd (hworker ?_).symm hj
      exact works_worker hop hworks

theorem task_step (ha : Act (.orderly ν) i s op r s')
    (hop : (protocol (ν i) i.role).allows (s.phase i) op) {task : InstallationTask}
    (htask : task ∈ s.world.taskQueue) :
    task ∈ s'.world.taskQueue ∨ owed ν i s' = some (task.appName, task.taskType.expects) := by
  cases hqueues : op.queues with
  | false =>
    rw [ha.frame.taskQueue hqueues]
    exact .inl htask
  | true =>
    cases op with
    | enqueue other =>
      refine .inl ?_
      obtain he | ⟨e, -, hw | ⟨r₀, he⟩⟩ := ha.internal_cases rfl
      · rw [← (Prod.mk.inj (Option.some.inj he)).2]
        exact List.mem_append_left _ htask
      · rwa [hw]
      · rw [← (Prod.mk.inj (Option.some.inj he)).2]
        exact List.mem_append_left _ htask
    | dequeue =>
      obtain he | hw := ha.claimed rfl
      · simp only [World.effect] at he
        split at he
        · cases he
        · next first tasks hqueue =>
          obtain ⟨rfl, hw⟩ := Prod.mk.inj (Option.some.inj he)
          rw [hqueue] at htask
          obtain rfl | hmem := List.mem_cons.mp htask
          · refine .inr (owed_of_task ?_)
            rw [(progress_tracks _).own ha]
            change ((s.progress i).after i.role .dequeue (.ok task)).task = _
            rw [works_worker hop rfl]
            rfl
          · rw [← hw]
            exact .inl hmem
      · rw [hw]
        exact .inl htask
    | _ => cases hqueues

theorem Phase.afterRequest_stored (hok : r.isOk = true) (hne : ∀ task, op ≠ .enqueue task) :
    Phase.afterRequest .stored op r = .stored := by
  unfold Phase.afterRequest
  split
  · rfl
  · rfl
  · exact absurd rfl (hne _)
  · cases hok
  · rfl

theorem Role.expects_of_enqueues {role : Role} {status : Status} {taskType : TaskType}
    (hrole : role.queues = some status) (h : taskType ∈ role.footprint.enqueues) :
    taskType.expects = status := by
  cases role <;> cases hrole <;> cases taskType <;> first
    | rfl
    | exact absurd h (by decide)

/-- A call that has to see to a waiting row still has to, or has enqueued its task. -/
theorem owed_step (h : Accounted ν s) (ha : Act (.orderly ν) i s op r s')
    (hop : (protocol (ν i) i.role).allows (s.phase i) op) (hprog : (s.progress i).Allows op)
    {name : String} {status : Status} (howed : owed ν i s = some (name, status))
    (hst : s.world.status name = some status) (hst' : s'.world.status name = some status) :
    (∃ task ∈ s'.world.taskQueue, task.Serves name status) ∨
      owed ν i s' = some (name, status) := by
  have hok := ha.undisturbed_of_owed howed hst
  have hprogress : s'.progress i = (s.progress i).after i.role op r := (progress_tracks _).own ha
  obtain ⟨task, htask, rfl, rfl⟩ | ⟨hnone, hphase, hqueues, rfl⟩ := owed_cases howed
  · obtain ⟨rfl, -⟩ := h.current i task htask
    refine .inr ?_
    cases hl : s.progress ⟨.worker, 0⟩ with
    | idle =>
      rw [hl] at htask
      cases htask
    | taken task' =>
      rw [hl] at htask hprog hprogress
      obtain rfl := Option.some.inj htask
      refine owed_of_task ?_
      rw [hprogress]
      cases r with
      | error e => cases hok
      | ok a =>
        obtain rfl | rfl := hprog
        · rfl
        · have hrow := ha.getByName_ok
          have hmatch : a.map (·.status) = some task'.taskType.expects := by
            rw [hrow]
            exact hst
          simp only [Progress.after, hmatch, if_true]
          rfl
    | matched task' =>
      rw [hl] at htask hprog
      obtain rfl := Option.some.inj htask
      obtain rfl := hprog
      have he := ha.effect_of_ok rfl hok
      rw [← (Prod.mk.inj (Option.some.inj he)).2, World.setStatus_status_self, hst] at hst'
      have hbegins : task'.taskType.begins = task'.taskType.expects := Option.some.inj hst'
      exact absurd (hbegins ▸ task'.taskType.expects_mem) task'.taskType.begins_not_mem
  · have hrequests := Role.requests_of_queues hqueues
    have hne := Role.requests_ne_worker hrequests
    by_cases henq : ∃ task, op = .enqueue task
    · obtain ⟨task, rfl⟩ := henq
      have hcovers := (callAllows_of_allows hne hop).covers
      have he := ha.effect_of_ok rfl hok
      refine .inl ⟨task, ?_, hcovers.1, Role.expects_of_enqueues hqueues hcovers.2⟩
      rw [← (Prod.mk.inj (Option.some.inj he)).2]
      exact List.mem_append_right _ (List.mem_singleton_self _)
    · refine .inr (owed_of_stored ?_ ?_ hqueues)
      · rw [hprogress, Progress.after_of_ne hne]
        rfl
      · have hafter : s'.phase i = (protocol (ν i) i.role).after (s.phase i) op r :=
          (tracks _ _).own ha
        rw [hafter, after_of_requests hrequests, hphase]
        exact Phase.afterRequest_stored hok fun task he => henq ⟨task, he⟩

theorem worker_statuses {l : Phase} {name : String} {status : Status}
    (hop : WorkerAllows l (.updateStatus name status)) : status ∉ queuedStatus := by
  obtain ⟨task, stage, -, hcovers, -⟩ := hop
  exact task.taskType.footprint_not_queued status hcovers.2

/-- A row comes to wait only by a request, which then has to enqueue its task. -/
theorem stored_step (ha : Act (.orderly ν) i s op r s')
    (hop : (protocol (ν i) i.role).allows (s.phase i) op) {name : String} {status : Status}
    (hqueued : status ∈ queuedStatus) (hst : s.world.status name ≠ some status)
    (hst' : s'.world.status name = some status) : owed ν i s' = some (name, status) := by
  have hafter : s'.phase i = (protocol (ν i) i.role).after (s.phase i) op r :=
    (tracks _ _).own ha
  have hprogress : s'.progress i = (s.progress i).after i.role op r := (progress_tracks _).own ha
  have hchanged : s'.world ≠ s.world := by
    intro hw
    rw [hw] at hst'
    exact hst hst'
  cases hwrites : op.writesRow name with
  | false => exact absurd ((ha.frame.status name hwrites).symm.trans hst') hst
  | true =>
    cases op with
    | insert app =>
      obtain rfl : app.name = name := by simpa [Op.writesRow] using hwrites
      have hne : i.role ≠ .worker := by
        intro hrole
        rw [hrole] at hop
        obtain ⟨task, -, -, hcovers, -⟩ := hop
        have hins : task.taskType.footprint.inserts = false := by cases task.taskType <;> rfl
        have hinserts := hcovers.2.2
        rw [hins] at hinserts
        cases hinserts
      obtain ⟨hname, happ, hins⟩ := (callAllows_of_allows hne hop).covers
      have hrole : i.role = .installRequest := by
        cases hr : i.role <;> rw [hr] at hins <;> first
          | rfl
          | cases hins
      have he := (ha.claimed rfl).resolve_right hchanged
      simp only [World.effect] at he
      split at he
      · next apps happs =>
        obtain ⟨rfl, hw⟩ := Prod.mk.inj (Option.some.inj he)
        have hstatus := InstalledApps.status_insert happs app.name
        rw [← hw] at hst'
        rw [if_pos rfl] at hstatus
        obtain rfl := Option.some.inj (hstatus.symm.trans hst')
        rw [hname, happ]
        refine owed_of_stored ?_ ?_ (by rw [hrole]; rfl)
        · rw [hprogress, Progress.after_of_ne hne]
          rfl
        · rw [hafter, hrole]
          rfl
      · exact absurd (Prod.mk.inj (Option.some.inj he)).2.symm hchanged
    | updateStatus other stored =>
      obtain rfl : other = name := by simpa [Op.writesRow] using hwrites
      have hset : s'.world = s.world.setStatus other stored := by
        obtain he | ⟨e, -, hw | ⟨r₀, he⟩⟩ := ha.internal_cases rfl
        · exact (Prod.mk.inj (Option.some.inj he)).2.symm
        · exact absurd hw hchanged
        · exact (Prod.mk.inj (Option.some.inj he)).2.symm
      obtain ⟨row, hrow, rfl⟩ : ∃ row, s'.world.installedApps.getByName other = some row ∧
          row.status = status := Option.map_eq_some_iff.mp hst'
      have hstored : stored = row.status := by
        rw [hset, World.setStatus_status_self] at hst'
        obtain ⟨_, -, hst'⟩ := Option.map_eq_some_iff.mp hst'
        exact hst'
      subst hstored
      have hne : i.role ≠ .worker := by
        intro hrole
        rw [hrole] at hop
        exact worker_statuses hop hqueued
      obtain ⟨hname, hmem⟩ := (callAllows_of_allows hne hop).covers
      have hqueues : i.role.queues = some row.status := by
        revert hmem hqueued
        generalize row.status = status
        cases i.role <;> cases status <;> decide
      have he := (ha.claimed (decide_eq_true hqueued)).resolve_right hchanged
      obtain ⟨rfl, -⟩ := Prod.mk.inj (Option.some.inj he)
      rw [hname]
      refine owed_of_stored ?_ ?_ hqueues
      · rw [hprogress, Progress.after_of_ne hne]
        rfl
      · rw [hafter, after_of_requests (Role.requests_of_queues hqueues), ← hset, hrow]
        rfl
    | remove other =>
      obtain rfl : other = name := by simpa [Op.writesRow] using hwrites
      have hgone : s'.world.status other = none := by
        obtain he | ⟨e, -, hw | ⟨r₀, he⟩⟩ := ha.internal_cases rfl
        · rw [← (Prod.mk.inj (Option.some.inj he)).2]
          exact InstalledApps.status_remove_self _ _
        · exact absurd hw hchanged
        · rw [← (Prod.mk.inj (Option.some.inj he)).2]
          exact InstalledApps.status_remove_self _ _
      rw [hgone] at hst'
      cases hst'
    | _ => cases hwrites

theorem Accounted.step (h : Accounted ν s) (ha : Act (.orderly ν) i s op r s')
    (hop : (protocol (ν i) i.role).allows (s.phase i) op) (hprog : (s.progress i).Allows op)
    (hworker : i.role = .worker → i = ⟨.worker, 0⟩) : Accounted ν s' where
  backed name status hst' hqueued := by
    by_cases hst : s.world.status name = some status
    · obtain ⟨task, htask, rfl, rfl⟩ | ⟨j, hj⟩ := h.backed name status hst hqueued
      · obtain hmem | howed := task_step ha hop htask
        · exact .inl ⟨task, hmem, rfl, rfl⟩
        · exact .inr ⟨i, howed⟩
      · by_cases hji : j = i
        · subst hji
          exact (owed_step h ha hop hprog hj hst hst').imp_right fun howed => ⟨j, howed⟩
        · exact .inr ⟨j, (owed_other ha hji).trans hj⟩
    · exact .inr ⟨i, stored_step ha hop hqueued hst hst'⟩
  current _ task htask := h.current_step ha hop hworker task htask

variable {w : World} {c : Config Op Ans Exn State Call}

/-- The calls for apps named by `ν` keep to both protocols. -/
theorem tracks_both (E : Env) (ν : Call → String) : Protocol.Tracks
    (fun i => (protocol (ν i) (Call.role i)).and (progress i.role)) (Act E)
    fun i s => (s.phase i, s.progress i) :=
  Protocol.Tracks.and ⟨fun ha => (tracks E _).own ha, fun ha hij => (tracks E "").other ha hij⟩
    (progress_tracks E)

theorem Starts.conforms_both {name : String} {p : Coro Unit} (h : Starts name i p) :
    p.Conforms ((protocol name i.role).and (progress i.role)) (.idle, .idle)
      fun _ l => i.role.EndsIn l.1 ∧ l.2 = .idle :=
  h.conforms.and h.progresses

theorem Accounted.reaches (h : Accounted ν ⟨w, []⟩)
    (hc : Reaches (Act (.orderly ν)) (fun i p => Starts (ν i) i p) (.idle ⟨w, []⟩) c) :
    Accounted ν c.state := by
  refine Reaches.invariant_allowed (tracks_both _ ν) (fun _ _ hp => hp.conforms_both)
    (fun i s op r s' hp hop hs ha => ?_) hc (Conforming.idle fun _ => rfl) h
  obtain ⟨p, hp⟩ := hp
  exact hs.step ha hop.1 hop.2 hp.worker

/-- While no request is in flight, only the worker may have something to see to. -/
theorem Accounted.backed_of_noRequest (h : Accounted ν c.state)
    (hc : Reaches (Act (.orderly ν)) (fun i p => Starts (ν i) i p) (.idle ⟨w, []⟩) c)
    (hidle : NoRequest c) : c.state.world.Backed := by
  intro name status hst hqueued
  obtain ⟨task, htask, hserves⟩ | ⟨i, howed⟩ := h.backed name status hst hqueued
  · exact ⟨task, hserves, .inl htask⟩
  · obtain ⟨task, htask, hserves⟩ | ⟨-, hphase, hqueues, -⟩ := owed_cases howed
    · exact ⟨task, hserves, .inr (h.current i task htask).2⟩
    · have hrequests := Role.requests_of_queues hqueues
      have hends : c.state.phase i = .idle := by
        obtain hfirst | ⟨r, hends, -⟩ := Reaches.conforming_finished (tracks_both _ ν)
          (fun _ _ hp => hp.conforms_both) hc (Conforming.idle fun _ => rfl) (hidle i hrequests)
        · exact (Prod.mk.inj hfirst).1
        · exact hends (Role.lifecycle_of_requests hrequests)
      rw [hphase] at hends
      cases hends

end Serving

/-- If processes stop only while no row waits for an installation or a reinstallation, then after a
completed startup every row in a queued status has its task in the queue or being processed. -/
theorem queued_rows_backed {w : World} {c : Config Op Ans Exn State Call}
    (hw : LeftBehind Env.orderly NothingWaits w) (hc : Serving Env.orderly w c)
    (hidle : NoRequest c) : c.state.world.Backed := by
  obtain ⟨configuredInitApps, boot, s, ν, hboot, hreach⟩ := hc
  have hwaits : NothingWaits (State.mk w.reboot []).world := hw.nothingWaits
  have hqueued := hboot.wp (wpOk_startup configuredInitApps hwaits) () rfl
  exact ((hqueued.accounted ν).reaches hreach).backed_of_noRequest hreach hidle

/-! ## Two runs -/

/-- A shard before its first startup, with an app in the store. -/
def newShard : World where
  appStore := Function.update (fun _ => none) "app"
    (some { appMeta := some (.accepted (.named "app")), template := true, compose := true })
  defaultIdentity := some "id"

instance (s : State) (i : Call) (op : Op) (c : Choice) : Decidable (Env.any s i op c) :=
  inferInstanceAs (Decidable True)

instance (ν : Call → String) (s : State) (i : Call) (op : Op) (c : Choice) :
    Decidable (Env.orderly ν s i op c) :=
  inferInstanceAs (Decidable (_ ∧ _))

/-- An accepted request waits with its task in the queue. -/
theorem queued_rows_backed_run : ∃ w c, LeftBehind Env.orderly NothingWaits w ∧
    Serving Env.orderly w c ∧ NoRequest c ∧
    c.state.world.status "app" = some .installationQueued ∧ c.state.world.Backed := by
  have hw : LeftBehind Env.orderly NothingWaits newShard := .new rfl
  have hexec : ∀ i s op c r s', State.exec (Env.orderly fun _ => "app") i s op c = some (r, s') →
      Act (.orderly fun _ => "app") i s op r s' := fun _ _ _ _ _ _ => State.exec_act
  let request : Call := ⟨.installRequest, 0⟩
  let cues := .start request :: Cue.fires request (List.replicate 5 .proceed)
  obtain ⟨res, s, hboot, hP⟩ := State.exists_exec .any ⟨.worker, 0⟩ (startup [])
    ⟨newShard.reboot, []⟩ (List.replicate 4 .proceed)
    (fun res s => res.isOk && ((Config.idle ⟨s.world, []⟩).play
      (State.exec (Env.orderly fun _ => "app")) (cues.map (Cue.move "app" 0))).any fun c =>
        c.ended request && (c.state.world.status "app" == some .installationQueued))
    (by decide)
  rw [Bool.and_eq_true] at hP
  obtain ⟨c, hplay, hc⟩ := (Option.any_eq_true _ _).mp hP.2
  rw [Bool.and_eq_true, beq_iff_eq] at hc
  cases res with
  | error e => cases hP.1
  | ok u =>
    have hreach : Reaches (Act (.orderly fun _ => "app")) (fun i p => Starts "app" i p)
        (.idle ⟨s.world, []⟩) c := Config.play_reaches hexec
      (fun i p hm => by
        obtain ⟨cue, hcue, hmove⟩ := List.mem_map.mp hm
        cases cue with
        | start j =>
          cases hmove
          exact starts_program fun _ => by simp_all [cues, Cue.fires, request]
        | fire j choice => cases hmove) hplay
    have hidle : NoRequest c := fun i _ => Config.play_quiescent hplay (fun m hm => by
      obtain ⟨cue, hcue, rfl⟩ := List.mem_map.mp hm
      have hname : (Cue.move "app" 0 cue).name = request := by
        obtain rfl | hcue := List.mem_cons.mp hcue
        · rfl
        · obtain ⟨choice, -, rfl⟩ := List.mem_map.mp hcue
          rfl
      rw [hname]
      exact hc.1) i
    have hserving : Serving Env.orderly newShard c := ⟨[], _, s, fun _ => "app", hboot, hreach⟩
    exact ⟨newShard, c, hw, hserving, hidle, hc.2, queued_rows_backed hw hserving hidle⟩

/-- A crash in the first startup, after it has queued an initial app, strands the app. -/
theorem queued_rows_stranded : ¬ ∀ (w : World) (c : Config Op Ans Exn State Call),
    LeftBehind (fun _ => .obedient) (fun _ => True) w → Serving (fun _ => .obedient) w c →
    NoRequest c → c.state.world.Backed := by
  intro h
  let boot : Call := ⟨.worker, 0⟩
  have hexec : ∀ i s op c r s', State.exec .any i s op c = some (r, s') → Act .any i s op r s' :=
    fun _ _ _ _ _ _ => State.exec_act
  have hscript : ((Config.idle ⟨newShard.reboot, []⟩).play (State.exec .any)
      (.start boot (startup ["app"]) :: (List.replicate 7 .proceed).map (.fire boot))).any
      (fun c => ((startup ["app"]).follow (State.exec .any boot) ⟨c.state.world.reboot, []⟩
        (List.replicate 4 .proceed)).any fun run => run.1.isOk &&
          (run.2.world.status "app" == some .installationQueued) &&
          (run.2.world.taskQueue == []) && (run.2.world.currentTask == none)) = true := by
    decide
  obtain ⟨c, hplay, hc⟩ := (Option.any_eq_true _ _).mp hscript
  obtain ⟨res, s, hboot, hP⟩ := State.exists_exec .any boot (startup ["app"])
    ⟨c.state.world.reboot, []⟩ (List.replicate 4 .proceed)
    (fun res s => res.isOk && (s.world.status "app" == some .installationQueued) &&
      (s.world.taskQueue == []) && (s.world.currentTask == none)) hc
  simp only [Bool.and_eq_true, beq_iff_eq] at hP
  obtain ⟨⟨⟨hok, hstatus⟩, hqueue⟩, hcurrent⟩ := hP
  have hreach : Reaches (Act .any) (fun i p => i = boot ∧ p = startup ["app"])
      (.idle ⟨newShard.reboot, []⟩) c :=
    Config.play_reaches hexec (fun i p hm => by simpa using hm) hplay
  have hleft : LeftBehind (fun _ => .obedient) (fun _ => True) c.state.world :=
    .startup (.new rfl) hreach trivial
  cases res with
  | error e => cases hok
  | ok u =>
    have hserving : Serving (fun _ => .obedient) c.state.world (.idle ⟨s.world, []⟩) :=
      ⟨_, boot, s, fun _ => "app", hboot, .refl⟩
    obtain ⟨task, -, hmem | hcur⟩ := h _ _ hleft hserving (fun _ _ _ _ => nofun) "app" _ hstatus
      (by decide)
    · change task ∈ s.world.taskQueue at hmem
      rw [hqueue] at hmem
      cases hmem
    · change s.world.currentTask = some task at hcur
      rw [hcurrent] at hcur
      cases hcur

end Freeshard

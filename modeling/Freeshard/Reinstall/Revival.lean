import Freeshard.Service.Phases

/-! # Reviving an app under its reinstall

`_reinstall_app` takes no lock, and `start_app` reads the status once before it asks the daemon and
acts. So a `start_app` that has read STOPPED may still issue its `up` after the worker has stored
REINSTALLING, and then store RUNNING in its place. If REINSTALLING is stored only while no `start_app`
has such a status in hand, and no request writes over it, the worker alone replaces it. -/

namespace Freeshard
open Coroutine
set_option autoImplicit false

variable {name : String} {i j : Call} {s s' : State} {op : Op} {r : Answer op} {E : Env}

/-! ## Statement -/

/-- While the status is REINSTALLING `start_app` issues no command, and only the worker replaces it. -/
def SparesReinstalling (name : String) (step : PastStep) : Prop :=
  step.before.world.status name = some .reinstalling →
    (step.event.call.role = .startApp → ∀ cmd, step.event.op ≠ .compose name cmd) ∧
    (step.after.status name ≠ some .reinstalling → step.event.call.role = .worker ∧
      (step.after.status name = some .stopped ∨ step.after.status name = some .error))

/-- No `start_app` has read a status it acts on. -/
def NoneEngaged (s : State) : Prop :=
  ∀ e ∈ s.log, e.call.role = .startApp → s.phase e.call ≠ .engaged

instance (s : State) : Decidable (NoneEngaged s) :=
  inferInstanceAs (Decidable (∀ e ∈ s.log, _ → _))

/-- REINSTALLING is stored only while no `start_app` is about to act, and no request replaces it. -/
def Env.uncontended (name : String) : Env := fun s i op _ =>
  (op = .updateStatus name .reinstalling → NoneEngaged s) ∧
  (i.role = .reinstallRequest → op.writesRow name = true →
    s.world.status name ≠ some .reinstalling)

instance (s : State) (i : Call) (op : Op) (c : Choice) :
    Decidable (Env.uncontended name s i op c) :=
  inferInstanceAs (Decidable ((_ → _) ∧ (_ → _ → _)))

/-- Any number of starts and of reinstallations, and the worker. -/
def reinstallRoles : List Role := [.startApp, .reinstallRequest, .worker]

/-- The only tasks for the app are reinstallations. -/
def OnlyReinstalls (name : String) (w : World) : Prop :=
  ∀ task ∈ w.taskQueue, task.appName = name → task.taskType = .reinstall

/-! ## The invariant -/

structure Undisturbed (name : String) (s : State) : Prop where
  spared : s.world.status name = some .reinstalling → ∀ j, j.role = .startApp →
    s.phase j ≠ .engaged
  queue : OnlyReinstalls name s.world
  task : ∀ i task stage, i.role = .worker → s.phase i = .working task stage →
    task.appName = name → task.taskType = .reinstall

namespace Undisturbed

/-- Rows are written by `start_app`, by requests, and by the worker for a reinstallation. -/
theorem writes (h : Undisturbed name s) (hrole : i.role ∈ reinstallRoles)
    (hop : (protocol name i.role).allows (s.phase i) op) (hwrites : op.writesRow name = true) :
    (i.role = .startApp ∧ op = .updateStatus name .running ∧ s.phase i = .engaged) ∨
    (i.role = .reinstallRequest ∧ op = .updateStatus name .reinstallationQueued) ∨
    (i.role = .worker ∧ ∃ status ∈ TaskType.reinstall.footprint.statuses,
      op = .updateStatus name status) := by
  have hcovers : ∀ {f : Footprint}, f.inserts = false → f.removes = false → f.Covers name op →
      ∃ status ∈ f.statuses, op = .updateStatus name status := by
    intro f hins hrem hcovers
    cases op with
    | insert app =>
      have hinserts := hcovers.2.2
      rw [hins] at hinserts
      cases hinserts
    | updateStatus other status =>
      obtain ⟨rfl, hmem⟩ := hcovers
      exact ⟨status, hmem, rfl⟩
    | remove other =>
      have hremoves := hcovers.2
      rw [hrem] at hremoves
      cases hremoves
    | _ => cases hwrites
  cases hi : i.role with
  | startApp =>
    rw [hi] at hop
    obtain ⟨status, hmem, rfl⟩ := hcovers rfl rfl hop.covers
    obtain rfl : status = .running := List.mem_singleton.mp hmem
    exact .inl ⟨rfl, rfl, hop.acts rfl rfl⟩
  | reinstallRequest =>
    rw [hi] at hop
    obtain ⟨status, hmem, rfl⟩ := hcovers rfl rfl hop.covers
    obtain rfl : status = .reinstallationQueued := List.mem_singleton.mp hmem
    exact .inr (.inl ⟨rfl, rfl⟩)
  | worker =>
    rw [hi] at hop
    obtain ⟨task, stage, hphase, rfl, htask⟩ := WorkerAllows.task_of_writesRow hop hwrites
    rw [h.task i task stage hi hphase rfl] at htask
    exact .inr (.inr ⟨rfl, hcovers rfl rfl htask⟩)
  | _ =>
    rw [hi] at hrole
    exact absurd hrole (by decide)

theorem status_cases (h : Undisturbed name s) (ha : Act (.uncontended name) i s op r s')
    (hrole : i.role ∈ reinstallRoles) (hop : (protocol name i.role).allows (s.phase i) op) :
    s'.world.status name = s.world.status name ∨
    (i.role = .startApp ∧ s.phase i = .engaged ∧ s'.world.status name = some .running) ∨
    (i.role = .reinstallRequest ∧ s.world.status name ≠ some .reinstalling ∧
      s'.world.status name = some .reinstallationQueued) ∨
    (i.role = .worker ∧ ∃ status ∈ TaskType.reinstall.footprint.statuses,
      op = .updateStatus name status ∧ s'.world.status name = some status) := by
  obtain ⟨c, -, hrequest⟩ := ha.allowed
  cases hwrites : op.writesRow name with
  | false => exact .inl (ha.frame.status name hwrites)
  | true =>
    obtain ⟨hi, rfl, hl⟩ | ⟨hi, rfl⟩ | ⟨hi, status, hmem, rfl⟩ := h.writes hrole hop hwrites
    · obtain hsame | - | ⟨-, hst⟩ := ha.statusStep name
      · exact .inl hsame
      · exact .inr (.inl ⟨hi, hl, hst⟩)
    · obtain hsame | - | ⟨-, hst⟩ := ha.statusStep name
      · exact .inl hsame
      · exact .inr (.inr (.inl ⟨hi, hrequest hi hwrites, hst⟩))
    · obtain hsame | - | ⟨-, hst⟩ := ha.statusStep name
      · exact .inl hsame
      · exact .inr (.inr (.inr ⟨hi, status, hmem, rfl, hst⟩))

theorem spared_step (h : Undisturbed name s) (ha : Act (.uncontended name) i s op r s')
    (hrole : i.role ∈ reinstallRoles) (hop : (protocol name i.role).allows (s.phase i) op)
    (hst : s'.world.status name = some .reinstalling) (hj : j.role = .startApp) :
    s'.phase j ≠ .engaged := by
  intro hphase
  have hengaged := ha.engaged_cases hop (by rw [hj]; rfl) hphase
  obtain hsame | ⟨-, -, hst'⟩ | ⟨-, -, hst'⟩ | ⟨hi, status, -, rfl, hst'⟩ :=
    h.status_cases ha hrole hop
  · rw [hsame] at hst
    obtain hl | ⟨-, -, -, status, hmem, hread⟩ := hengaged
    · exact h.spared hst j hj hl
    · rw [hj] at hmem
      obtain rfl := Option.some.inj (hst.symm.trans hread)
      exact absurd hmem (by decide)
  · rw [hst] at hst'
    cases hst'
  · rw [hst] at hst'
    cases hst'
  · obtain rfl : status = .reinstalling := Option.some.inj (hst'.symm.trans hst)
    obtain hl | ⟨-, hread, -⟩ := hengaged
    · obtain ⟨c, hfree, -⟩ := ha.allowed
      obtain ⟨e, he, rfl⟩ := mem_log_of_phase (s := s) (j := j) (by rw [hl]; decide)
      exact hfree rfl e he hj hl
    · cases hread

theorem queue_step (h : Undisturbed name s) (ha : Act (.uncontended name) i s op r s')
    (hrole : i.role ∈ reinstallRoles) (hop : (protocol name i.role).allows (s.phase i) op) :
    OnlyReinstalls name s'.world := by
  intro task hmem happ
  obtain hsame | hpush | hpop := ha.queueStep
  · rw [hsame] at hmem
    exact h.queue task hmem happ
  · rw [hpush] at hmem
    obtain hold | hnew := List.mem_append.mp hmem
    · exact h.queue task hold happ
    · obtain rfl := List.mem_singleton.mp hnew
      cases hi : i.role with
      | startApp =>
        rw [hi] at hop
        cases hop.covers.2
      | reinstallRequest =>
        rw [hi] at hop
        exact List.mem_singleton.mp hop.covers.2
      | worker =>
        rw [hi] at hop
        obtain ⟨task', -, -, hcovers, -⟩ := hop
        have henq : task'.taskType.footprint.enqueues = [] := by cases task'.taskType <;> rfl
        have hmem' := hcovers.2
        rw [henq] at hmem'
        cases hmem'
      | _ =>
        rw [hi] at hrole
        exact absurd hrole (by decide)
  · refine h.queue task ?_ happ
    rw [hpop]
    exact List.mem_cons_of_mem _ hmem

theorem task_step (h : Undisturbed name s) (ha : Act (.uncontended name) i s op r s')
    (hop : (protocol name i.role).allows (s.phase i) op) {task : InstallationTask} {stage : Stage}
    (hj : j.role = .worker) (hphase : s'.phase j = .working task stage)
    (happ : task.appName = name) : task.taskType = .reinstall := by
  by_cases hji : j = i
  · subst hji
    rw [ha.phase_self, hj] at hphase
    rw [hj] at hop
    obtain ⟨-, hmem⟩ | ⟨stage', hl⟩ := WorkerAllows.working_cases hop hphase
    · exact h.queue task (hmem _ _ _ _ ha) happ
    · exact h.task j task stage' hj hl happ
  · rw [ha.phase_other hji] at hphase
    exact h.task j task stage hj hphase happ

theorem step (h : Undisturbed name s) (ha : Act (.uncontended name) i s op r s')
    (hrole : i.role ∈ reinstallRoles) (hop : (protocol name i.role).allows (s.phase i) op) :
    Undisturbed name s' where
  spared hst _ hj := h.spared_step ha hrole hop hst hj
  queue := h.queue_step ha hrole hop
  task _ _ _ hj hphase happ := h.task_step ha hop hj hphase happ

theorem spares (h : Undisturbed name s) (ha : Act (.uncontended name) i s op r s')
    (hrole : i.role ∈ reinstallRoles) (hop : (protocol name i.role).allows (s.phase i) op) :
    SparesReinstalling name ⟨s, ⟨i, op, r, s.world⟩, s'.world⟩ := by
  intro hst
  have hspared := h.spared hst
  refine ⟨fun hi cmd hcmd => ?_, fun hreplaced => ?_⟩
  · obtain rfl : op = .compose name cmd := hcmd
    have hi' : i.role = .startApp := hi
    exact hspared i hi' (engaged_of_acts hop (by rw [hi']; rfl) rfl)
  · obtain hsame | ⟨hi, hl, -⟩ | ⟨-, hne, -⟩ | ⟨hi, status, hmem, -, hst'⟩ :=
      h.status_cases ha hrole hop
    · exact absurd (hsame.trans hst) hreplaced
    · exact absurd hl (hspared i hi)
    · exact absurd hst hne
    · refine ⟨hi, ?_⟩
      change s'.world.status name ≠ some .reinstalling at hreplaced
      change s'.world.status name = some .stopped ∨ s'.world.status name = some .error
      rw [hst'] at hreplaced ⊢
      simp only [TaskType.footprint, List.mem_cons, List.not_mem_nil, or_false] at hmem
      obtain rfl | rfl | rfl := hmem
      · exact absurd rfl hreplaced
      · exact .inl rfl
      · exact .inr rfl

theorem initial {w : World} (hw : OnlyReinstalls name w) : Undisturbed name ⟨w, []⟩ where
  spared _ _ _ hphase := by cases hphase
  queue := hw
  task _ _ _ _ hphase := by cases hphase

end Undisturbed

/-! ## Main result -/

/-- In every run in which REINSTALLING is stored only while no `start_app` is about to act, and no
request replaces it, `start_app` leaves the app alone while the status is REINSTALLING, and only the
worker replaces it, by STOPPED or ERROR. -/
theorem start_app_spares_reinstalling {name : String} {w : World}
    {c : Config Op Ans Exn State Call} (hw : OnlyReinstalls name w)
    (h : Runs (.uncontended name) reinstallRoles name w c) :
    ∀ step ∈ c.state.steps, SparesReinstalling name step :=
  (h.always (fun _ _ _ _ _ hrole hop hs ha => ⟨hs.step ha hrole hop, hs.spares ha hrole hop⟩)
    (Undisturbed.initial hw)).2

/-! ## Two runs -/

/-- `start_app` and the reinstallation of a stopped app, one after the other. -/
theorem start_app_spares_reinstalling_run : ∃ w c, OnlyReinstalls "app" w ∧
    Runs (.uncontended "app") reinstallRoles "app" w c ∧
    (c.state.steps.any fun step => step.before.world.status "app" == some .reinstalling) = true ∧
    ∀ step ∈ c.state.steps, SparesReinstalling "app" step := by
  let start : Call := ⟨.startApp, 0⟩
  let request : Call := ⟨.reinstallRequest, 0⟩
  let worker : Call := ⟨.worker, 0⟩
  obtain ⟨c, hrun, hreinstalling⟩ := exists_run (.uncontended "app") reinstallRoles "app"
    (.withApp "app" .stopped (.single .exited)) 1
    (Cue.start start :: Cue.fires start (Choice.clock 10 :: List.replicate 4 Choice.proceed ++
        [Choice.docker (.ok ()) (.single .running)] ++ List.replicate 3 Choice.proceed) ++
      Cue.start request :: Cue.fires request (List.replicate 5 Choice.proceed) ++
      Cue.start worker :: Cue.fires worker (List.replicate 6 Choice.proceed))
    (fun s => s.steps.any fun step => step.before.world.status "app" == some .reinstalling)
    (by decide) (by decide +kernel)
  have hw : OnlyReinstalls "app" (.withApp "app" .stopped (.single .exited)) := by
    intro task hmem
    cases hmem
  exact ⟨_, c, hw, hrun, hreinstalling, start_app_spares_reinstalling hw hrun⟩

/-- A `start_app` that has read STOPPED starts the containers once the worker has stored
REINSTALLING, and stores RUNNING in its place. -/
theorem start_app_hits_reinstalling : ¬ ∀ (w : World) (c : Config Op Ans Exn State Call),
    OnlyReinstalls "app" w → Runs .obedient reinstallRoles "app" w c →
    ∀ step ∈ c.state.steps, SparesReinstalling "app" step := by
  intro h
  let start : Call := ⟨.startApp, 0⟩
  let request : Call := ⟨.reinstallRequest, 0⟩
  let worker : Call := ⟨.worker, 0⟩
  obtain ⟨c, hrun, hhit⟩ := exists_run .obedient reinstallRoles "app"
    (.withApp "app" .stopped (.single .exited)) 1
    (.start start :: Cue.fires start (.clock 10 :: List.replicate 4 .proceed) ++
      .start request :: Cue.fires request (List.replicate 5 .proceed) ++
      .start worker :: Cue.fires worker (List.replicate 3 .proceed) ++
      Cue.fires start [.docker (.ok ()) (.single .running)])
    (fun s => s.steps.any fun step => step.before.world.status "app" == some .reinstalling &&
      (step.event.call.role == .startApp && step.event.op == .compose "app" .up))
    (by decide) (by decide +kernel)
  obtain ⟨step, hmem, hstep⟩ := List.any_eq_true.mp hhit
  simp only [Bool.and_eq_true, beq_iff_eq] at hstep
  obtain ⟨hst, hrole, hop⟩ := hstep
  have hw : OnlyReinstalls "app" (.withApp "app" .stopped (.single .exited)) := by
    intro task hmem
    cases hmem
  exact (h _ c hw hrun step hmem hst).1 hrole .up hop

end Freeshard

import Freeshard.Service.Protocol
import Freeshard.System.Rules

/-! # The worker serves its queue in order

Any number of requests and lifecycle calls, for any apps, and the worker. Every task that is put into the queue is taken
once, in the order in which the tasks were put there, and only when the one before it is done; and between the two the
worker does nothing but what the task is there for. -/

namespace Freeshard
open Coroutine
set_option autoImplicit false

/-- The queue does not lose anything: what is put into it is in it, and a `get` that is cancelled has taken nothing. -/
def Env.queueing : Env := fun _ _ op c =>
  match op with
  | .enqueue _ => c = .proceed
  | .taskDone => c = .proceed
  | .dequeue => ∀ e, c ≠ .proceedRaise e
  | _ => True

theorem Env.reliable_le_queueing : reliable ≤ queueing := by
  rintro s i op c ⟨hinternal, -⟩
  cases op with
  | enqueue task | taskDone => exact hinternal rfl
  | dequeue =>
    obtain rfl := hinternal rfl
    exact fun _ h => by cases h
  | _ => trivial

namespace TaskOrder

/-! ## What a log tells of the queue -/

/-- The task that an operation puts into the queue. -/
def puts (e : Event) : List InstallationTask :=
  match e.op with
  | .enqueue task => [task]
  | _ => []

/-- The task that the worker reports done. -/
def finishes (e : Event) : List InstallationTask :=
  match e.op with
  | .taskDone => e.before.currentTask.toList
  | _ => []

/-- All tasks put into the queue, in order. -/
def enqueued (log : List Event) : List InstallationTask := log.reverse.flatMap puts

/-- All tasks reported done, in order. -/
def finished (log : List Event) : List InstallationTask := log.reverse.flatMap finishes

theorem enqueued_cons (e : Event) (log : List Event) : enqueued (e :: log) = enqueued log ++ puts e := by
  simp [enqueued]

theorem finished_cons (e : Event) (log : List Event) : finished (e :: log) = finished log ++ finishes e := by
  simp [finished]

/-- What the worker may do for its task. -/
def Permits (task : InstallationTask) (op : Op) : Prop :=
  (task.taskType = .uninstall ∧ (op = .acquire task.appName ∨ op = .release task.appName)) ∨
    task.taskType.footprint.Covers task.appName op

/-- An operation of the worker: it takes a task, reports it done, or serves it. -/
def Serves (e : Event) : Prop :=
  e.op = .dequeue ∨ e.op = .taskDone ∨ ∃ task, e.before.currentTask = some task ∧ Permits task e.op

/-! ## The worker's phase is its current task -/

/-- The task a worker in this phase has taken. -/
def taskOf : Phase → Option InstallationTask
  | .working task _ => some task
  | _ => none

variable {l : Phase} {op : Op} {r : Answer op}

theorem taskOf_after (hop : op.works = false) : taskOf (l.afterWorker op r) = taskOf l := by
  cases op with
  | dequeue | taskDone => cases hop
  | acquire name => cases l <;> cases r <;> rfl
  | _ => cases l <;> cases r <;> rfl

theorem permits_of_allowed (h : WorkerAllows l op) (hop : op.works = false) :
    ∃ task, taskOf l = some task ∧ Permits task op := by
  cases op with
  | dequeue | taskDone => cases hop
  | acquire name =>
    obtain rfl : l = .working ⟨name, .uninstall⟩ .fresh := h
    exact ⟨_, rfl, .inl ⟨rfl, .inl rfl⟩⟩
  | release name =>
    obtain rfl : l = .working ⟨name, .uninstall⟩ .locked := h
    exact ⟨_, rfl, .inl ⟨rfl, .inr rfl⟩⟩
  | _ =>
    obtain ⟨task, stage, rfl, hcovers, -⟩ := h
    exact ⟨task, rfl, .inr hcovers⟩

/-- Nobody but the worker takes tasks. -/
theorem worker_of_works {name : String} {i : Call} (h : (protocol name i.role).allows l op) (hop : op.works = true) :
    i.role = .worker := by
  obtain ⟨role, k⟩ := i
  cases role with
  | worker => rfl
  | _ =>
    have hcovers := CallAllows.covers h
    cases op with
    | dequeue | taskDone => exact absurd hcovers id
    | _ => cases hop

/-! ## The invariant -/

def worker : Call := ⟨.worker, 0⟩

structure InOrder (queue : List InstallationTask) (s : State) : Prop where
  order : queue ++ enqueued s.log = finished s.log ++ s.world.currentTask.toList ++ s.world.taskQueue
  current : s.world.currentTask = taskOf (s.phase worker)
  serves : ∀ e ∈ s.log, e.call.role = .worker → Serves e

variable {E : Env} {i : Call} {s s' : State} {queue : List InstallationTask} {app : Call → String}

/-- What an operation that leaves the worker's task alone does to the queue. -/
theorem queue_puts (h : Act E i s op r s') (hE : E ≤ Env.queueing) (hop : op.works = false) :
    s'.world.taskQueue = s.world.taskQueue ++ puts ⟨i, op, r, s.world⟩ := by
  cases op with
  | enqueue task =>
    obtain ⟨c, hc, he⟩ := h.inv
    obtain rfl : c = .proceed := hE _ _ _ _ hc
    rw [← (Prod.mk.inj (Option.some.inj he)).2]
    rfl
  | dequeue | taskDone => cases hop
  | _ => rw [h.frame.taskQueue rfl, puts, List.append_nil]

theorem taken {r : Answer .dequeue} (h : Act E i s .dequeue r s') (hE : E ≤ Env.queueing) :
    (∃ task tasks, s.world.taskQueue = task :: tasks ∧ r = .ok task ∧
      s'.world = { s.world with taskQueue := tasks, currentTask := some task }) ∨
      (∃ e, r = .error e) ∧ s'.world = s.world := by
  obtain ⟨c, hc, he⟩ := h.inv
  have hqueueing : ∀ e, c ≠ .proceedRaise e := hE _ _ _ _ hc
  cases c with
  | proceed =>
    simp only [World.exec, World.effect] at he
    split at he
    · cases he
    · next task tasks hqueue =>
      obtain ⟨hr, hw⟩ := Prod.mk.inj (Option.some.inj he)
      exact .inl ⟨task, tasks, hqueue, hr.symm, hw.symm⟩
  | raise e =>
    obtain ⟨hr, hw⟩ := Prod.mk.inj (Option.some.inj he)
    exact .inr ⟨⟨e, hr.symm⟩, hw.symm⟩
  | proceedRaise e => exact absurd rfl (hqueueing e)
  | docker exit stack | clock now => cases he
  | leaves dir e => cases he

theorem done_task {r : Answer .taskDone} (h : Act E i s .taskDone r s') (hE : E ≤ Env.queueing) :
    s'.world = { s.world with currentTask := none } := by
  obtain ⟨c, hc, he⟩ := h.inv
  obtain rfl : c = .proceed := hE _ _ _ _ hc
  exact (Prod.mk.inj (Option.some.inj he)).2.symm

/-- The step lemma. -/
theorem InOrder.step (h : InOrder queue s) (hE : E ≤ Env.queueing) (hworker : i.role = .worker → i = worker)
    (hop : (protocol (app i) i.role).allows (s.phase i) op) (ha : Act E i s op r s') : InOrder queue s' := by
  have hlog : s'.log = ⟨i, op, r, s.world⟩ :: s.log := ha.log
  have hserves : Serves ⟨i, op, r, s.world⟩ → ∀ e ∈ s'.log, e.call.role = .worker → Serves e := by
    intro hnew
    rw [hlog]
    exact List.forall_mem_cons.mpr ⟨fun _ => hnew, h.serves⟩
  cases hworks : op.works with
  | true =>
    have hrole := worker_of_works hop hworks
    obtain rfl := hworker hrole
    have hallowed : WorkerAllows (s.phase worker) op := hop
    have hphase : s'.phase worker = (s.phase worker).afterWorker op r := ha.phase_self
    cases op with
    | dequeue =>
      have hidle : s.phase worker = .idle := hallowed
      have hcurrent : s.world.currentTask = none := by
        rw [h.current, hidle]
        rfl
      obtain ⟨task, tasks, hqueue, rfl, hw⟩ | ⟨⟨e, rfl⟩, hw⟩ := taken ha hE
      · refine ⟨?_, ?_, hserves (.inl rfl)⟩
        · rw [hlog, enqueued_cons, finished_cons, hw]
          have horder := h.order
          rw [hcurrent, hqueue] at horder
          simpa [puts, finishes] using horder
        · rw [hphase, hw]
          cases s.phase worker <;> rfl
      · refine ⟨?_, ?_, hserves (.inl rfl)⟩
        · rw [hlog, enqueued_cons, finished_cons, hw]
          simpa [puts, finishes] using h.order
        · rw [hphase, hw, hidle, hcurrent]
          rfl
    | taskDone =>
      have hw := done_task ha hE
      refine ⟨?_, ?_, hserves (.inr (.inl rfl))⟩
      · rw [hlog, enqueued_cons, finished_cons, hw]
        simpa [puts, finishes] using h.order
      · rw [hphase, hw]
        cases s.phase worker <;> rfl
    | _ => cases hworks
  | false =>
    have hcurrent : s'.world.currentTask = s.world.currentTask := ha.frame.currentTask hworks
    have hfinishes : finishes ⟨i, op, r, s.world⟩ = [] := by cases op <;> first | rfl | cases hworks
    refine ⟨?_, ?_, ?_⟩
    · rw [hlog, enqueued_cons, finished_cons, hfinishes, hcurrent, queue_puts ha hE hworks, List.append_nil,
        ← List.append_assoc, ← List.append_assoc, h.order]
    · rw [hcurrent, h.current]
      by_cases hi : worker = i
      · subst hi
        have hphase : s'.phase worker = (s.phase worker).afterWorker op r := ha.phase_self
        rw [hphase, taskOf_after hworks]
      · rw [ha.phase_other hi]
    · rw [hlog]
      refine List.forall_mem_cons.mpr ⟨fun hrole => ?_, h.serves⟩
      obtain rfl := hworker hrole
      obtain ⟨task, htask, hpermits⟩ := permits_of_allowed (show WorkerAllows (s.phase worker) op from hop) hworks
      exact .inr (.inr ⟨task, h.current.trans htask, hpermits⟩)

/-! ## Main result -/

/-- Whatever fails: at any time the tasks that were in the queue and have been put there since are, in this order, those
that are done, the one the worker is at, and those in the queue; and the worker does nothing but serve its task. -/
theorem tasks_in_order {w : World} {c : Config Op Ans Exn State Call} (hE : E ≤ Env.queueing)
    (hw : w.currentTask = none) (h : RunsFor E app w c) :
    w.taskQueue ++ enqueued c.state.log =
      finished c.state.log ++ c.state.world.currentTask.toList ++ c.state.world.taskQueue ∧
    ∀ e ∈ c.state.log, e.call.role = .worker → Serves e := by
  have hinv : InOrder w.taskQueue c.state := by
    refine h.invariant (I := InOrder w.taskQueue) (fun i s op r s' hworker hop hs ha => ?_) ⟨?_, hw, ?_⟩
    · exact hs.step hE hworker hop ha
    · simp [enqueued, finished, hw]
    · exact fun _ hmem => by cases hmem
  exact ⟨hinv.order, hinv.serves⟩

/-- Two tasks are queued for an app: the first one is done, the second one is being processed. -/
theorem tasks_in_order_run : ∃ w c, RunsFor .reliable (fun _ => "app") w c ∧
    finished c.state.log = [⟨"app", .uninstall⟩] ∧
    w.taskQueue ++ enqueued c.state.log = finished c.state.log ++ c.state.world.currentTask.toList ++
      c.state.world.taskQueue ∧ c.state.world.currentTask = some ⟨"app", .reinstall⟩ := by
  let w : World := { World.withApp "app" .stopped .empty with
    taskQueue := [⟨"app", .uninstall⟩, ⟨"app", .reinstall⟩] }
  let cues : List Cue := Cue.start worker :: Cue.fires worker (List.replicate 6 Choice.proceed ++
    [Choice.docker (.ok ()) .empty] ++ List.replicate 3 Choice.proceed ++ [Choice.docker (.ok ()) .empty] ++
    List.replicate 11 Choice.proceed)
  obtain ⟨c, hrun, hF⟩ := exists_run .reliable [.worker] "app" w 2 cues (fun s =>
    finished s.log == [⟨"app", .uninstall⟩] && s.world.currentTask == some ⟨"app", .reinstall⟩)
    (by decide) (by decide +kernel)
  rw [Bool.and_eq_true, beq_iff_eq, beq_iff_eq] at hF
  exact ⟨w, c, hrun.runsFor, hF.1, (tasks_in_order Env.reliable_le_queueing rfl hrun.runsFor).1, hF.2⟩

end TaskOrder
end Freeshard

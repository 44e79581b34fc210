import Freeshard.Service.Footprints
import Freeshard.Service.Specs

/-! # The status in which the worker leaves an app

The worker runs its tasks one after the other while anything outside the database may fail. A task
first stores a transitional status, and `update_app_status` notifies before it returns; an
exception of the notification surfaces before the `try` block that would have turned it into ERROR,
and the row keeps the transitional status. This is the only way in which a task strands its app. -/

namespace Freeshard
open Coroutine
set_option autoImplicit false

/-! ## Transitional statuses -/

/-- The statuses of an app whose task is under way. -/
def transitionalStatus : List Status := [.installing, .reinstalling, .uninstalling]

/-- The row is absent or not in a transitional status. -/
def Settled (name : String) (w : World) : Prop := w.status name ∉ transitionalStatus.map some

instance (name : String) (w : World) : Decidable (Settled name w) :=
  inferInstanceAs (Decidable (_ ∉ _))

/-- The transitional status that a task stores. -/
def TaskType.mark : TaskType → Status
  | .installFromStore => .installing
  | .installFromZip => .installing
  | .uninstall => .uninstalling
  | .reinstall => .reinstalling

theorem TaskType.mark_mem (taskType : TaskType) : taskType.mark ∈ transitionalStatus := by
  cases taskType <;> decide

/-- `_uninstall_app` goes on after a `KeyError` of its first status write. -/
def TaskType.survives : TaskType → Exn → Bool
  | .uninstall, .keyError _ => true
  | _, _ => false

namespace InstallationTask

abbrev markOp (task : InstallationTask) : Op := .updateStatus task.appName task.taskType.mark

/-- The notification right after the transitional status was stored has raised, and the task has
not survived it. -/
def Unannounced (task : InstallationTask) : List Event → Prop
  | e :: e' :: log =>
    (e.op = .onAppsUpdate ∧ e'.op = task.markOp ∧
      e.raised.any (fun exn => !task.taskType.survives exn) = true) ∨ Unannounced task (e' :: log)
  | _ => False

instance instDecidableUnannounced (task : InstallationTask) : (log : List Event) → Decidable (task.Unannounced log)
  | [] => isFalse id
  | [_] => isFalse id
  | _ :: e' :: log =>
    have := instDecidableUnannounced task (e' :: log)
    inferInstanceAs (Decidable (_ ∨ _))

/-- What leaves the app of a task that starts in `w` in a transitional status: the installing tasks
refuse a row that already has one, and a failing notification ends any task. -/
def Stranded (task : InstallationTask) (w : World) (log : List Event) : Prop :=
  (task.taskType ≠ .uninstall ∧ ¬Settled task.appName w) ∨ task.Unannounced log

instance (task : InstallationTask) (w : World) (log : List Event) :
    Decidable (task.Stranded w log) :=
  inferInstanceAs (Decidable (_ ∨ _))

end InstallationTask

/-! ## The worker's loop -/

/-- A task that the worker has finished: the world it started in and the state it ended in, with
the events of this task only. -/
structure TaskRun where
  task : InstallationTask
  before : World
  after : State

/-- Starting in the first world, the worker takes these tasks from the queue, finishes one after the
other and stands in the last world. -/
inductive Processes (i : Call) : World → List TaskRun → World → Prop where
  | nil (w : World) : Processes i w [] w
  | cons {w w' : World} {task : InstallationTask} {tasks : List InstallationTask}
      {r : Except Exn Unit} {s : State} {runs : List TaskRun}
      (hq : w.taskQueue = task :: tasks)
      (hrun : Prog.Exec (Act .faulty i) (Worker.processCurrent task)
        ⟨{ w with taskQueue := tasks, currentTask := some task }, []⟩ r s)
      (hrest : Processes i s.world runs w') :
      Processes i w (⟨task, { w with taskQueue := tasks, currentTask := some task }, s⟩ :: runs) w'

/-- The worker on one script of choices for each task. -/
def serve (i : Call) (w : World) : List (List Choice) → Option (List TaskRun × World)
  | [] => some ([], w)
  | choices :: scripts =>
    match w.taskQueue with
    | [] => none
    | task :: tasks =>
      let before := { w with taskQueue := tasks, currentTask := some task }
      match (Worker.processCurrent task).follow (State.exec .faulty i) ⟨before, []⟩ choices with
      | none => none
      | some (_, after) =>
        match serve i after.world scripts with
        | none => none
        | some (runs, w') => some (⟨task, before, after⟩ :: runs, w')

theorem serve_processes {i : Call} {w w' : World} {scripts : List (List Choice)}
    {runs : List TaskRun} (h : serve i w scripts = some (runs, w')) : Processes i w runs w' := by
  induction scripts generalizing w runs with
  | nil =>
    cases h
    exact .nil _
  | cons choices scripts ih =>
    simp only [serve] at h
    split at h
    · cases h
    · next task tasks hq =>
      split at h
      · cases h
      · next r after hf =>
        split at h
        · cases h
        · next runs' w'' hs =>
          cases h
          have hexec : ∀ s op c r s', State.exec .faulty i s op c = some (r, s') →
              Act .faulty i s op r s' := fun _ _ _ _ _ => State.exec_act
          exact .cons hq (Prog.follow_exec hexec hf) (ih hs)

theorem exists_processes (i : Call) (w : World) (scripts : List (List Choice))
    (P : List TaskRun → Bool) (h : (serve i w scripts).any (fun out => P out.1) = true) :
    ∃ runs w', Processes i w runs w' ∧ P runs = true := by
  obtain ⟨⟨runs, w'⟩, hs, hP⟩ := (Option.any_eq_true _ _).mp h
  exact ⟨runs, w', serve_processes hs, hP⟩

/-- The environment does not look at the log: a run can be replayed on a fresh one. -/
theorem exec_fresh {α : Type} {i : Call} {p : Coro α} {s s' : State} {r : Except Exn α}
    (h : Prog.Exec (Act .faulty i) p s r s') :
    ∃ s'', Prog.Exec (Act .faulty i) p ⟨s.world, []⟩ r s'' ∧ s'.world = s''.world := by
  have hsim : ∀ (s v : State) op r s', s.world = v.world → Act .faulty i s op r s' →
      ∃ v', Act .faulty i v op r v' ∧ s'.world = v'.world := by
    rintro s v op r _ hv ⟨c, w', hE, he, rfl⟩
    exact ⟨v.next i op r w', ⟨c, w', hE, hv ▸ he, rfl⟩, rfl⟩
  exact h.simulate hsim rfl

theorem run_processes {i : Call} {n : ℕ} {s s' : State}
    (h : Prog.Exec (Act .faulty i) (Worker.run n) s (.ok ()) s') :
    ∃ runs, runs.length = n ∧ Processes i s.world runs s'.world := by
  induction n generalizing s with
  | zero =>
    cases h
    exact ⟨[], rfl, .nil _⟩
  | succ n ih =>
    obtain ⟨task, s₁, hdeq, hloop⟩ | ⟨e, he, -⟩ := h.bind_inv
    · have htask : ∃ tasks, s.world.taskQueue = task :: tasks ∧
          s₁.world = { s.world with taskQueue := tasks, currentTask := some task } := by
        have hwp : (awaitOp .dequeue).wp (Act .faulty i) (fun r s' => ∀ task, r = .ok task →
            ∃ tasks, s.world.taskQueue = task :: tasks ∧
              s'.world = { s.world with taskQueue := tasks, currentTask := some task }) s := by
          refine (Prog.wp_perform _ _ _).mpr fun r s' ha => ?_
          obtain ⟨task, tasks, hq, rfl, hw⟩ := ha.dequeued Env.faulty_le_reliable
          rintro _ ⟨⟩
          exact ⟨tasks, hq, hw⟩
        exact hdeq.wp hwp task rfl
      obtain ⟨tasks, hq, hw⟩ := htask
      obtain ⟨u, s₂, hrun, hrest⟩ | ⟨e, he, -⟩ := hloop.bind_inv
      · obtain ⟨s₃, hfresh, hw₃⟩ := exec_fresh hrun
        obtain ⟨runs, hlen, hruns⟩ := ih hrest
        rw [hw] at hfresh
        rw [hw₃] at hruns
        exact ⟨_, congrArg (· + 1) hlen, .cons hq hfresh hruns⟩
      · cases he
    · cases he

/-! ## What a task has been through -/

variable {i : Call} {s s' : State} {op : Op} {r : Answer op} {task : InstallationTask}

/-- Whatever may have failed has been dealt with. -/
structure Clear (task : InstallationTask) (s : State) : Prop where
  announced : ¬task.Unannounced s.log
  head : ∀ e ∈ s.log.head?, e.op ≠ task.markOp

/-- The task ends with its app settled. -/
structure Done (task : InstallationTask) (s : State) : Prop where
  clear : Clear task s
  settled : Settled task.appName s.world

/-- The task has ended at the notification, its status still stored. -/
structure Stuck (task : InstallationTask) (s : State) : Prop where
  unannounced : task.Unannounced s.log
  status_eq : s.world.status task.appName = some task.taskType.mark

theorem InstallationTask.Unannounced.step (h : task.Unannounced s.log) (ha : s'.Follows i op r s) :
    task.Unannounced s'.log := by
  rw [ha]
  revert h
  cases s.log with
  | nil => exact False.elim
  | cons e log => exact .inr

theorem unannounced_cons {e : Event} (h : ∀ e' ∈ s.log.head?, e.op = .onAppsUpdate →
    e'.op = task.markOp → e.raised.any (fun exn => !task.taskType.survives exn) = false) :
    task.Unannounced (e :: s.log) ↔ task.Unannounced s.log := by
  cases hlog : s.log with
  | nil => rfl
  | cons e' log =>
    refine or_iff_right ?_
    rintro ⟨hop, hmark, hraised⟩
    rw [h e' (by rw [hlog]; rfl) hop hmark] at hraised
    cases hraised

theorem Clear.step (h : Clear task s) (ha : s'.Follows i op r s) (hop : op ≠ task.markOp) :
    Clear task s' := by
  rw [State.Follows] at ha
  constructor
  · rw [ha, unannounced_cons fun e' he' _ hmark => absurd hmark (h.head e' he')]
    exact h.announced
  · rw [ha]
    rintro e ⟨⟩
    exact hop

/-- The transitional status has been stored and announced, or the task survives the exception. -/
theorem Clear.announce {s₁ : State} {r₁ : Answer task.markOp} {r : Answer .onAppsUpdate}
    (h : Clear task s) (hm : s₁.Follows i task.markOp r₁ s) (ha : s'.Follows i .onAppsUpdate r s₁)
    (hr : ∀ e, r = .error e → task.taskType.survives e = true) : Clear task s' := by
  rw [State.Follows] at ha hm
  constructor
  · rw [ha, unannounced_cons, hm, unannounced_cons]
    · exact h.announced
    · exact fun _ _ => nofun
    · intro e' _ _ _
      cases r with
      | ok u => rfl
      | error e => simp [Event.raised, hr e rfl]
  · rw [ha]
    rintro e ⟨⟩
    exact nofun

theorem InstallationTask.Unannounced.of_error {s₁ : State} {r₁ : Answer task.markOp} {e : Exn}
    (hm : s₁.Follows i task.markOp r₁ s) (ha : s'.Follows i .onAppsUpdate (.error e) s₁)
    (he : task.taskType.survives e = false) : task.Unannounced s'.log := by
  rw [State.Follows] at ha hm
  rw [ha, hm]
  exact .inl ⟨rfl, rfl, by simp [Event.raised, he]⟩

theorem Stuck.step (h : Stuck task s) (ha : s'.Follows i op r s)
    (hst : s'.world.status task.appName = s.world.status task.appName) : Stuck task s' :=
  ⟨h.unannounced.step ha, hst.trans h.status_eq⟩

theorem Stuck.not_settled (h : Stuck task s) : ¬Settled task.appName s.world := by
  intro hs
  refine hs ?_
  rw [h.status_eq]
  exact List.mem_map_of_mem task.taskType.mark_mem

/-- What a part of a task without row operations keeps. -/
structure Underway (task : InstallationTask) (status : Option Status) (s : State) : Prop where
  clear : Clear task s
  status_eq : s.world.status task.appName = status

variable {status : Option Status}

theorem Underway.step (h : Underway task status s) (ha : s'.Follows i op r s)
    (hop : op ≠ task.markOp) (hst : s'.world.status task.appName = s.world.status task.appName) :
    Underway task status s' :=
  ⟨h.clear.step ha hop, hst.trans h.status_eq⟩

theorem Underway.done (h : Underway task status s)
    (hst : status ∉ transitionalStatus.map some) : Done task s :=
  ⟨h.clear, by rw [Settled, h.status_eq]; exact hst⟩

theorem Underway.wp {α : Type} {f : Footprint} (hf : f.statuses = [] ∧ f.inserts = false ∧
    f.removes = false) {p : Coro α} (hp : Bounded f task.appName p)
    (h : Underway task status s) :
    p.wp (Act .faulty i) (fun r s' => Underway task status s' ∧
      ∀ e, r = .error e → e.isException = true) s := by
  refine Prog.wp_and (hp.uses.wp (fun op hop w r w' hw ha => ?_) h)
    (hp.raises.wp (fun op w e w' ha => ha.isException Env.faulty_le_uncancelled) s)
  have hrow : op.writesRow task.appName = false := by
    cases op with
    | insert app => simp [Footprint.Covers, hf.2.1] at hop
    | updateStatus other status => simp [Footprint.Covers, hf.1] at hop
    | remove other => simp [Footprint.Covers, hf.2.2] at hop
    | _ => rfl
  refine hw.step ha.follows ?_ (ha.frame.status _ hrow)
  rintro rfl
  simp [Op.writesRow] at hrow

theorem wp_updateAppStatus_underway {status' : Status} (h : Underway task status s)
    (hst : status ≠ none) (hne : status' ≠ task.taskType.mark) :
    (updateAppStatus task.appName status').wp (Act .faulty i)
      (fun r s' => Underway task (some status') s' ∧ ∀ e, r = .error e → e.isException = true)
      s := by
  have hb : Bounded { statuses := [status'] } task.appName (updateAppStatus task.appName status') :=
    bounds_updateAppStatus (List.mem_singleton_self _)
  refine Prog.wp_and (wp_updateAppStatus Env.faulty_le_reliable (by rw [h.status_eq]; exact hst)
      fun row => wp_sendOnAppsUpdate fun r => ?_)
    (hb.raises.wp (fun op w e w' ha => ha.isException Env.faulty_le_uncancelled) s)
  have h₁ : Underway task (some status') (s.next i (.updateStatus task.appName status') (.ok row)
      (s.world.setStatus task.appName status')) := by
    refine ⟨h.clear.step State.follows_next ?_, ?_⟩
    · intro hop
      injection hop with _ hst'
      exact hne hst'
    · rw [World.setStatus_status_self, h.status_eq]
      obtain ⟨old, rfl⟩ := Option.ne_none_iff_exists'.mp hst
      rfl
  exact h₁.step State.follows_next nofun rfl

/-! ## The installing tasks -/

/-- The `try` block that ends in STOPPED or ERROR. -/
theorem wp_installing {f : Footprint} (hf : f.statuses = [] ∧ f.inserts = false ∧
    f.removes = false) {p : Coro Unit} (hp : Bounded f task.appName p)
    (h : Underway task status s) (hst : status ≠ none) :
    (exceptException
      (do
        p
        updateAppStatus task.appName .stopped)
      (Worker.failInstallation task.appName)).wp (Act .faulty i) (fun _ s' => Done task s') s := by
  have hmark : ∀ status ∈ [Status.stopped, .error], status ≠ task.taskType.mark ∧
      some status ∉ transitionalStatus.map some := by
    cases task.taskType <;> decide
  have hfail : ∀ e s₁ status₁, Underway task status₁ s₁ → status₁ ≠ none →
      (Worker.failInstallation task.appName e).wp (Act .faulty i) (fun _ s' => Done task s') s₁ := by
    intro e s₁ status₁ h₁ hst₁
    have hwp := wp_updateAppStatus_underway (i := i) h₁ hst₁ (hmark .error (by simp)).1
    refine Prog.wp_bind_of hwp (fun _ s₂ h₂ => ?_) fun _ s₂ h₂ => h₂.1.done (hmark .error (by simp)).2
    refine (Prog.wp_perform _ _ _).mpr fun r s₃ ha => ?_
    exact (h₂.1.step ha.follows nofun (ha.frame.status _ rfl)).done (hmark .error (by simp)).2
  refine wp_exceptException ((Prog.wp_bind _ _ _ _).mpr (Prog.wp_mono (h.wp hf hp) ?_))
  rintro (e | u) s₁ ⟨h₁, he⟩
  · simp only [he e rfl, if_true]
    exact hfail e s₁ status h₁ hst
  · refine Prog.wp_mono (wp_updateAppStatus_underway h₁ hst (hmark .stopped (by simp)).1) ?_
    rintro (e | u) s₂ ⟨h₂, he⟩
    · simp only [he e rfl, if_true]
      exact hfail e s₂ _ h₂ nofun
    · exact h₂.done (hmark .stopped (by simp)).2

theorem wp_mark (h : Underway task status s) (hst : status ≠ none) :
    (updateAppStatus task.appName task.taskType.mark).wp (Act .faulty i) (fun r s' => match r with
      | .ok _ => Underway task (some task.taskType.mark) s'
      | .error e => if task.taskType.survives e then Underway task (some task.taskType.mark) s'
          else Stuck task s') s := by
  refine wp_updateAppStatus Env.faulty_le_reliable (by rw [h.status_eq]; exact hst)
    fun row => wp_sendOnAppsUpdate fun r => ?_
  have hset : (s.world.setStatus task.appName task.taskType.mark).status task.appName =
      some task.taskType.mark := by
    obtain ⟨old, hold⟩ := Option.ne_none_iff_exists'.mp hst
    rw [World.setStatus_status_self, h.status_eq, hold]
    rfl
  cases r with
  | ok u => exact ⟨h.clear.announce State.follows_next State.follows_next nofun, hset⟩
  | error e =>
    dsimp only
    cases he : task.taskType.survives e with
    | true =>
      rw [if_pos rfl]
      refine ⟨h.clear.announce State.follows_next State.follows_next ?_, hset⟩
      rintro _ ⟨⟩
      exact he
    | false =>
      rw [if_neg Bool.false_ne_true]
      exact ⟨.of_error State.follows_next State.follows_next he, hset⟩

/-- A task ends with its app settled exactly if it is not stranded. -/
abbrev Decided (task : InstallationTask) (w : World) (s : State) : Prop :=
  Settled task.appName s.world ↔ ¬task.Stranded w s.log

theorem Done.decided {w : World} (h : Done task s)
    (hw : task.taskType = .uninstall ∨ Settled task.appName w) : Decided task w s := by
  refine iff_of_true h.settled ?_
  rintro (⟨hkind, hn⟩ | hun)
  · exact hw.elim hkind hn
  · exact h.clear.announced hun

theorem Stuck.decided {w : World} (h : Stuck task s) : Decided task w s :=
  iff_of_false h.not_settled (not_not_intro (.inr h.unannounced))

theorem Underway.decided {w : World} (h : Underway task (w.status task.appName) s)
    (hkind : task.taskType ≠ .uninstall) : Decided task w s := by
  by_cases hw : Settled task.appName w
  · exact (h.done hw).decided (.inr hw)
  · refine iff_of_false ?_ (not_not_intro (.inl ⟨hkind, hw⟩))
    rw [Settled, h.status_eq]
    exact hw

/-- What the installing tasks share: the row must have the queued status of the task. -/
theorem wp_task (task : InstallationTask) (queued : Status)
    (hqueued : some queued ∉ transitionalStatus.map some) (hkind : task.taskType ≠ .uninstall)
    {tail : Coro Unit} {w : World}
    (htail : ∀ s, Underway task (some task.taskType.mark) s →
      tail.wp (Act .faulty i) (fun _ s' => Done task s') s) :
    (do
      let installedApp ← getAppFromDb task.appName
      assertAppStatus installedApp queued
      updateAppStatus task.appName task.taskType.mark
      tail : Coro Unit).wp (Act .faulty i) (fun _ s' => Decided task w s') ⟨w, []⟩ := by
  have h₀ : Underway task (w.status task.appName) ⟨w, []⟩ := ⟨⟨id, by simp⟩, rfl⟩
  have h₁ : Underway task (w.status task.appName) (State.looked ⟨w, []⟩ i task.appName) :=
    h₀.step State.follows_next nofun rfl
  have hsurvives : ∀ e, task.taskType.survives e = false := by
    intro e
    cases htype : task.taskType <;> first | rfl | exact absurd htype hkind
  refine (Prog.wp_bind _ _ _ _).mpr (wp_getAppFromDb Env.faulty_le_reliable ?_)
  cases hrow : w.installedApps.getByName task.appName with
  | none => exact h₁.decided hkind
  | some app =>
    have happ : w.status task.appName = some app.status := by
      simp [World.status, InstalledApps.status, hrow]
    dsimp only
    by_cases hst : app.status = queued
    · have hw : Settled task.appName w := by
        rw [Settled, happ, hst]
        exact hqueued
      rw [assertAppStatus, raiseUnless_pos hst, pure_bind]
      refine Prog.wp_bind_of (wp_mark h₁ (by simp [happ])) (fun _ s₂ h₂ => ?_) fun e s₂ h₂ => ?_
      · exact Prog.wp_mono (htail s₂ h₂) fun _ _ h => h.decided (.inr hw)
      · simp only [hsurvives e] at h₂
        exact h₂.decided
    · rw [assertAppStatus, raiseUnless_neg hst]
      exact h₁.decided hkind

theorem wp_installAppFromStore_decided (name : String) (w : World) :
    (Worker.installAppFromStore name).wp (Act .faulty i)
      (fun _ s' => Decided ⟨name, .installFromStore⟩ w s') ⟨w, []⟩ := by
  have hb : Bounded { commands := [.upNoStart] } name (do
      Worker.downloadAppZip name
      Worker.installAppFromZip name) :=
    .bind (.perform rfl) fun _ => Worker.bounds_installAppFromZip (by decide)
  refine wp_task ⟨name, .installFromStore⟩ .installationQueued (by decide) nofun fun s hs => ?_
  have htail := wp_installing (i := i) ⟨rfl, rfl, rfl⟩ hb hs nofun
  rwa [bind_assoc] at htail

theorem wp_installAppFromExistingZip_decided (name : String) (w : World) :
    (Worker.installAppFromExistingZip name).wp (Act .faulty i)
      (fun _ s' => Decided ⟨name, .installFromZip⟩ w s') ⟨w, []⟩ := by
  refine wp_task ⟨name, .installFromZip⟩ .installationQueued (by decide) nofun fun s hs => ?_
  have hb : Bounded { commands := [.upNoStart] } name (Worker.installAppFromZip name) :=
    Worker.bounds_installAppFromZip (by decide)
  exact wp_installing ⟨rfl, rfl, rfl⟩ hb hs nofun

theorem wp_reinstallApp_decided (name : String) (w : World) :
    (Worker.reinstallApp name).wp (Act .faulty i)
      (fun _ s' => Decided ⟨name, .reinstall⟩ w s') ⟨w, []⟩ := by
  have hb : Bounded { commands := [.upNoStart] } name (do
      Worker.downloadAppZip name
      Worker.installAppFromZip name) :=
    .bind (.perform rfl) fun _ => Worker.bounds_installAppFromZip (by decide)
  refine wp_task ⟨name, .reinstall⟩ .reinstallationQueued (by decide) nofun fun s hs => ?_
  have hstop := hs.wp (i := i) (f := { statuses := [], commands := [.unpause, .stop, .down] })
    ⟨rfl, rfl, rfl⟩ (Worker.bounds_stopAndShutdown false)
  refine Prog.wp_bind_of (wp_swallow_ok hstop) (fun _ s₁ h₁ => ?_) fun e s₁ h₁ => by cases h₁.1
  refine (Prog.wp_bind _ _ _ _).mpr (wp_rmtree Env.faulty_le_reliable fun s₂ ha hframe => ?_)
  have h₂ := h₁.2.step ha nofun (hframe.status _ rfl)
  have htail := wp_installing (i := i) ⟨rfl, rfl, rfl⟩ hb h₂ nofun
  rwa [bind_assoc] at htail

/-! ## The uninstall task -/

theorem Clear.covered {f : Footprint} (hf : task.taskType.mark ∉ f.statuses) (h : Clear task s)
    (hop : f.Covers task.appName op) (ha : s'.Follows i op r s) : Clear task s' := by
  refine h.step ha ?_
  rintro rfl
  exact hf hop.2

/-- A settled app stays settled under operations that store no transitional status. -/
theorem Done.covered {f : Footprint} (hf : ∀ status ∈ f.statuses, status ∉ transitionalStatus)
    (hins : f.inserts = false) (h : Done task s) (hop : f.Covers task.appName op)
    (ha : Act .faulty i s op r s') : Done task s' := by
  refine ⟨h.clear.covered (fun hm => hf _ hm task.taskType.mark_mem) hop ha.follows, ?_⟩
  have hset := h.settled
  rw [Settled] at hset ⊢
  cases op with
  | insert app => simp [Footprint.Covers, hins] at hop
  | updateStatus other status =>
    obtain ⟨rfl, hmem⟩ := hop
    rw [(ha.updatedStatus Env.faulty_le_reliable).2, World.setStatus_status_self]
    cases s.world.status task.appName with
    | none => simp
    | some old =>
      intro hbad
      obtain ⟨status', hst, heq⟩ := List.mem_map.mp hbad
      cases heq
      exact hf status hmem hst
  | remove other =>
    obtain rfl := hop.1
    have hnone : s'.world.status task.appName = none := by
      rw [(ha.removed Env.faulty_le_reliable).2]
      exact InstalledApps.status_remove_self _ _
    rw [hnone]
    decide
  | _ => rwa [ha.frame.status _ rfl]

theorem Done.wp {α : Type} {f : Footprint}
    (hf : ∀ status ∈ f.statuses, status ∉ transitionalStatus) (hins : f.inserts = false)
    {p : Coro α} (hp : Bounded f task.appName p) (h : Done task s) :
    p.wp (Act .faulty i) (fun _ s' => Done task s') s :=
  hp.uses.wp (fun _ hop _ _ _ hw ha => hw.covered hf hins hop ha) h

section Uninstall
variable {name : String}

abbrev uninstallTask (name : String) : InstallationTask := ⟨name, .uninstall⟩

/-- Before the first `except KeyError`: what is raised, other than a `KeyError`, ends the task. -/
def Tried (name : String) (r : Except Exn Unit) (s : State) : Prop :=
  match r with
  | .ok _ => Clear (uninstallTask name) s
  | .error e => if TaskType.uninstall.survives e then Clear (uninstallTask name) s
      else Done (uninstallTask name) s ∨ Stuck (uninstallTask name) s

theorem Done.tried {e : Exn} (h : Done (uninstallTask name) s) : Tried name (.error e) s := by
  unfold Tried
  dsimp only
  split
  · exact h.clear
  · exact .inl h

theorem wp_dockerUnpauseApp_underway (h : Underway (uninstallTask name) (some .paused) s) :
    (dockerUnpauseApp name).wp (Act .faulty i) (fun _ s' =>
      ∃ status, status ∉ transitionalStatus ∧ Underway (uninstallTask name) (some status) s') s := by
  have h₁ : Underway (uninstallTask name) (some .paused) (s.looked i name) :=
    h.step State.follows_next nofun rfl
  refine (Prog.wp_bind _ _ _ _).mpr (wp_readStatus Env.faulty_le_reliable ?_)
  dsimp only
  rw [onlyIf_pos h.status_eq]
  refine (Prog.wp_bind _ _ _ _).mpr ((Prog.wp_perform _ _ _).mpr fun r s₂ ha => ?_)
  have h₂ := h₁.step ha.follows nofun (ha.frame.status _ rfl)
  cases r with
  | error e => exact ⟨_, by decide, h₂⟩
  | ok u =>
    refine (Prog.wp_bind _ _ _ _).mpr (wp_writeStatus Env.faulty_le_reliable fun row =>
      wp_sendOnAppsUpdate fun r => ⟨.running, by decide, ?_⟩)
    have h₃ : Underway (uninstallTask name) (some .running) (s₂.next i
        (.updateStatus name .running) (.ok row) (s₂.world.setStatus name .running)) := by
      refine ⟨h₂.clear.step State.follows_next (by simp [TaskType.mark]), ?_⟩
      have hst := h₂.status_eq
      dsimp only at hst ⊢
      rw [World.setStatus_status_self, hst]
      rfl
    exact h₃.step State.follows_next nofun rfl

theorem wp_storeUninstalling (h : Underway (uninstallTask name) status s) (hst : status ≠ none) :
    (updateAppStatus name .uninstalling).wp (Act .faulty i) (Tried name) s := by
  refine Prog.wp_mono (wp_mark h hst) ?_
  rintro (e | u) s₁ h₁
  · unfold Tried
    dsimp only at h₁ ⊢
    split at h₁
    · next he =>
      rw [if_pos he]
      exact h₁.clear
    · next he =>
      rw [if_neg he]
      exact .inr h₁
  · exact h₁.clear

theorem wp_markUninstalling_outcome (h : Underway (uninstallTask name) status s) :
    (Worker.markUninstalling name).wp (Act .faulty i) (fun r s' => match r with
      | .ok _ => Clear (uninstallTask name) s'
      | .error _ => Done (uninstallTask name) s' ∨ Stuck (uninstallTask name) s') s := by
  have hbody : (do
      let installedApp ← getAppFromDb name
      onlyIf (installedApp.status = .paused) (dockerUnpauseApp name)
      updateAppStatus name .uninstalling : Coro Unit).wp (Act .faulty i) (Tried name) s := by
    have h₁ : Underway (uninstallTask name) status (s.looked i name) :=
      h.step State.follows_next (fun h => by cases h) rfl
    refine (Prog.wp_bind _ _ _ _).mpr (wp_getAppFromDb Env.faulty_le_reliable ?_)
    cases hrow : s.world.installedApps.getByName name with
    | none => exact h₁.clear
    | some app =>
      have happ : s.world.status name = some app.status := by
        simp [World.status, InstalledApps.status, hrow]
      obtain rfl : some app.status = status := happ.symm.trans h.status_eq
      dsimp only
      by_cases hpaused : app.status = .paused
      · rw [onlyIf_pos hpaused]
        rw [hpaused] at h₁
        refine Prog.wp_bind_of (wp_dockerUnpauseApp_underway h₁) ?_ ?_
        · rintro u s₂ ⟨status, -, h₂⟩
          exact wp_storeUninstalling h₂ (Option.some_ne_none _)
        · rintro e s₂ ⟨status, hst, h₂⟩
          exact (h₂.done (by simpa using hst)).tried
      · rw [onlyIf_neg hpaused, pure_bind]
        exact wp_storeUninstalling h₁ (Option.some_ne_none _)
  refine Prog.wp_tryCatch_of hbody (fun _ _ h => h) fun e s₁ h₁ => ?_
  cases e <;> exact h₁

theorem wp_uninstallApp_decided (w : World) :
    (Worker.uninstallApp name).wp (Act .faulty i)
      (fun _ s' => Decided (uninstallTask name) w s') ⟨w, []⟩ := by
  have h₀ : Underway (uninstallTask name) (w.status name) ⟨w, []⟩ := ⟨⟨id, by simp⟩, rfl⟩
  refine (Prog.wp_bind _ _ _ _).mpr ((Prog.wp_perform _ _ _).mpr fun r s₁ ha => ?_)
  obtain ⟨-, rfl, -⟩ := ha.acquired Env.faulty_le_reliable
  have h₁ := h₀.step ha.follows nofun (ha.frame.status _ rfl)
  have hbody : (do
      Worker.markUninstalling name
      exceptException
        (do
          dockerStopApp name true
          dockerShutdownApp name true false)
        fun _ => pure ()
      awaitOp (.rmtree name)
      awaitOp (.remove name)
      writeTraefikDynConfig
      sendOnAppsUpdate : Coro Unit).wp (Act .faulty i)
      (fun _ s' => Done (uninstallTask name) s' ∨ Stuck (uninstallTask name) s') s₁ := by
    refine Prog.wp_bind_of (wp_markUninstalling_outcome h₁) (fun _ s₂ h₂ => ?_) fun _ _ h => h
    have hclear : ∀ op, Footprint.Covers { statuses := [.stopped, .down], commands := [.unpause, .stop, .down] } name op →
        ∀ w r w', Clear (uninstallTask name) w → Act .faulty i w op r w' →
          Clear (uninstallTask name) w' :=
      fun op hop w r w' hw ha => hw.covered (by simp [TaskType.mark]) hop ha.follows
    have hb : Bounded { statuses := [.stopped, .down], commands := [.unpause, .stop, .down] } name _ :=
      Worker.bounds_stopAndShutdown true
    have hstop := Prog.wp_and (hb.uses.wp hclear h₂)
      (hb.raises.wp (fun op w e w' ha => ha.isException Env.faulty_le_uncancelled) s₂)
    refine Prog.wp_bind_of (wp_swallow_ok hstop) (fun _ s₃ h₃ => ?_) fun e s₃ h₃ => by cases h₃.1
    refine (Prog.wp_bind _ _ _ _).mpr (wp_rmtree Env.faulty_le_reliable fun s₄ ha₄ _ => ?_)
    have h₄ := h₃.2.step ha₄ nofun
    refine (Prog.wp_bind _ _ _ _).mpr ((Prog.wp_perform _ _ _).mpr fun r s₅ ha₅ => ?_)
    obtain ⟨rfl, hw₅⟩ := ha₅.removed Env.faulty_le_reliable
    have h₅ : Done (uninstallTask name) s₅ := by
      refine ⟨h₄.step ha₅.follows nofun, ?_⟩
      have hnone : s₅.world.status name = none := by
        rw [hw₅]
        exact InstalledApps.status_remove_self _ _
      rw [Settled, hnone]
      decide
    have hb₅ : Bounded {} name (do
        writeTraefikDynConfig
        sendOnAppsUpdate) := bounds_writeTraefikDynConfig.bind fun _ => Bounded.sendOnAppsUpdate
    exact Prog.wp_mono (h₅.wp (by simp) rfl hb₅) fun _ _ h => .inl h
  have hend : ∀ s₂, Done (uninstallTask name) s₂ ∨ Stuck (uninstallTask name) s₂ →
      (awaitOp (.release name)).wp (Act .faulty i)
        (fun _ s' => Done (uninstallTask name) s' ∨ Stuck (uninstallTask name) s') s₂ := by
    rintro s₂ h₂
    refine (Prog.wp_perform _ _ _).mpr fun r s₃ ha => h₂.imp (fun h => ?_) fun h => ?_
    · have hf : Footprint.Covers { locks := true } name (.release name) := ⟨rfl, rfl⟩
      exact h.covered (by simp) rfl hf ha
    · exact h.step ha.follows (ha.frame.status _ rfl)
  refine Prog.wp_mono (Prog.wp_tryFinally_same hbody hend) ?_
  rintro _ s' (h | h)
  · exact h.decided (.inl rfl)
  · exact h.decided

end Uninstall

/-! ## The worker -/

theorem wp_process_decided (task : InstallationTask) (w : World) :
    (Worker.process task).wp (Act .faulty i) (fun _ s' => Decided task w s') ⟨w, []⟩ := by
  obtain ⟨name, taskType⟩ := task
  cases taskType with
  | installFromStore => exact wp_installAppFromStore_decided name w
  | installFromZip => exact wp_installAppFromExistingZip_decided name w
  | uninstall => exact wp_uninstallApp_decided w
  | reinstall => exact wp_reinstallApp_decided name w

theorem wp_processCurrent_decided (task : InstallationTask) (w : World) :
    (Worker.processCurrent task).wp (Act .faulty i) (fun _ s' => Decided task w s') ⟨w, []⟩ := by
  refine Prog.wp_tryFinally_same (wp_swallow (wp_process_decided task w)) fun s₁ h₁ => ?_
  refine (Prog.wp_perform _ _ _).mpr fun r s₂ ha => ?_
  have hlog : task.Unannounced s₂.log ↔ task.Unannounced s₁.log := by
    rw [ha.log]
    exact unannounced_cons fun _ _ => nofun
  rw [Decided, Settled, ha.frame.status _ rfl, InstallationTask.Stranded, hlog]
  exact h₁

/-- Whenever the worker has finished a task, the task's row is absent or not in a transitional
status, exactly if no task is stranded. -/
theorem worker_settles_iff {w w' : World} {runs : List TaskRun} (h : Processes i w runs w') :
    (∀ run ∈ runs, Settled run.task.appName run.after.world) ↔
      ∀ run ∈ runs, ¬run.task.Stranded run.before run.after.log := by
  induction h with
  | nil w => simp
  | @cons w w' task tasks r s runs hq hrun hrest ih =>
    have hdecided := hrun.wp (wp_processCurrent_decided task _)
    simp only [List.forall_mem_cons, ih, hdecided]

/-- An app is installed and uninstalled again. -/
theorem worker_settles_install_uninstall : ∃ runs w',
    Processes ⟨.worker, 0⟩
      { World.withApp "app" .installationQueued .empty with
        taskQueue := [⟨"app", .installFromStore⟩, ⟨"app", .uninstall⟩] } runs w' ∧
    runs.length = 2 ∧ ∀ run ∈ runs, Settled run.task.appName run.after.world := by
  obtain ⟨runs, w', hruns, hP⟩ := exists_processes ⟨.worker, 0⟩
    { World.withApp "app" .installationQueued .empty with
      taskQueue := [⟨"app", .installFromStore⟩, ⟨"app", .uninstall⟩] }
    [List.replicate 9 Choice.proceed ++ [Choice.docker (.ok ()) (.single .created)] ++
        List.replicate 7 Choice.proceed,
      List.replicate 5 Choice.proceed ++ [Choice.docker (.ok ()) (.single .created)] ++
        List.replicate 3 Choice.proceed ++ [Choice.docker (.ok ()) .empty] ++ List.replicate 10 Choice.proceed]
    (fun runs => runs.length == 2 &&
      decide (∀ run ∈ runs, ¬run.task.Stranded run.before run.after.log)) (by decide)
  rw [Bool.and_eq_true, beq_iff_eq] at hP
  exact ⟨runs, w', hruns, hP.1, (worker_settles_iff hruns).mpr (of_decide_eq_true hP.2)⟩

/-- An app about to be installed next to one whose `app_meta.json` fails validation. -/
def World.besideRefused : World where
  installedApps := ⟨[⟨"app", .store, .installationQueued, none⟩, ⟨"other", .store, .stopped, none⟩],
    by decide⟩
  appDirs := Function.update (fun _ => none) "other"
    (some { appMeta := some (.rejected (.validationError "v")), template := true, compose := true })
  appStore := Function.update (fun _ => none) "app"
    (some { appMeta := some (.accepted (.named "app")), template := true, compose := true })
  taskQueue := [⟨"app", .installFromStore⟩]
  defaultIdentity := some "id"

/-- The other app's metadata leaves the row INSTALLING for good. -/
theorem worker_strands_beside_refused : ¬ ∀ (i : Call) (w w' : World) (runs : List TaskRun),
    Processes i w runs w' → ∀ run ∈ runs, Settled run.task.appName run.after.world := by
  intro h
  obtain ⟨runs, w', hruns, hP⟩ := exists_processes ⟨.worker, 0⟩ .besideRefused
    [List.replicate 4 .proceed]
    (fun runs => runs.any fun run => run.after.world.status run.task.appName == some .installing)
    (by decide)
  obtain ⟨run, hmem, hst⟩ := List.any_eq_true.mp hP
  refine h _ _ _ _ hruns run hmem ?_
  rw [beq_iff_eq.mp hst]
  decide

end Freeshard

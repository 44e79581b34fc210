import Freeshard.Service.Errand
import Freeshard.Service.Phases

/-! # The last request decides whether the app is installed

The worker takes the tasks in the order in which they were enqueued, and an uninstall deletes the row
whatever its status is by then. So an install or a reinstallation that is accepted while an uninstall of
the app is still to come loses its row to it, and its own task finds none. If every step succeeds, this is
all that can go wrong. -/

namespace Freeshard
open Coroutine
set_option autoImplicit false

variable {name : String} {i j : Call} {s s' : State} {op : Op} {r : Answer op} {E : Env}

/-! ## Statement -/

/-- Every operation does what it is there to do, and those of the worker succeed. -/
def Env.unfailing : Env := fun s i op c =>
  obedient s i op c ∧ (i.role = .worker → (s.world.exec i op c).all (fun rw => rw.1.isOk) = true)

instance (s : State) (i : Call) (op : Op) (c : Choice) : Decidable (Env.unfailing s i op c) :=
  inferInstanceAs (Decidable (_ ∧ (_ → _)))

/-- The task of the last accepted request for the app, and the state in which it was enqueued. -/
def lastAccepted (name : String) : List Event → Option (TaskType × State)
  | [] => none
  | e :: log =>
    match e.op with
    | .enqueue task =>
      if task.appName = name ∧ e.ok = true then some (task.taskType, ⟨e.before, log⟩)
      else lastAccepted name log
    | _ => lastAccepted name log

/-- An uninstall of the app waits in the queue, or the worker has taken one and not deleted the row. -/
def UninstallPending (name : String) (s : State) : Prop :=
  ⟨name, .uninstall⟩ ∈ s.world.taskQueue ∨ s.errand ⟨.worker, 0⟩ = .removing name

instance (name : String) (s : State) : Decidable (UninstallPending name s) :=
  inferInstanceAs (Decidable (_ ∨ _))

/-- No install request is in flight. -/
def NoInstall (c : Config Op Ans Exn State Call) : Prop :=
  ∀ i, i.role = .installRequest → ∀ op next, c.pool i ≠ some (.await op next)

/-! ## The invariant -/

/-- A task that is to leave the row in place is enqueued while nothing is about to delete it. -/
structure Stays (name : String) (taskType : TaskType) (s : State) : Prop where
  installs : taskType ≠ .uninstall
  row : s.world.status name ≠ none
  not_pending : ¬UninstallPending name s

structure RowFollows (name : String) (s : State) : Prop where
  kept : ∀ taskType v, lastAccepted name s.log = some (taskType, v) → Stays name taskType v →
    s.world.status name ≠ none ∧ ¬UninstallPending name s
  lost : ∀ taskType v, lastAccepted name s.log = some (taskType, v) → ¬Stays name taskType v →
    UninstallPending name s ∨ s.world.status name = none ∨
      ∃ i, i.role = .installRequest ∧ s.errand i = .inserted
  sound : s.errand ⟨.worker, 0⟩ ≠ .failed

theorem Env.unfailing_le_obedient : unfailing ≤ obedient := fun _ _ _ _ h => h.1

theorem Env.unfailing_le_reliable : unfailing ≤ reliable :=
  unfailing_le_obedient.trans obedient_le_reliable

theorem Act.worker_ok (ha : Act .unfailing i s op r s') (hi : i.role = .worker) : r.isOk = true := by
  obtain ⟨c, ⟨-, hok⟩, he⟩ := ha.inv
  have hr := hok hi
  rw [he] at hr
  exact hr

theorem Act.errand_self (ha : Act E i s op r s') : s'.errand i = (errand i.role).after (s.errand i) op r :=
  (errand_tracks E).own ha

theorem Act.errand_other (ha : Act E i s op r s') (hj : j ≠ i) : s'.errand j = s.errand j :=
  (errand_tracks E).other ha hj

theorem lastAccepted_enqueue {task : InstallationTask} (htask : task.appName = name)
    (ha : Act E i s (.enqueue task) (.ok ()) s') :
    lastAccepted name s'.log = some (task.taskType, s) := by
  rw [ha.log]
  exact if_pos ⟨htask, rfl⟩

theorem lastAccepted_other (hop : ∀ task, op ≠ .enqueue task) (ha : Act E i s op r s') :
    lastAccepted name s'.log = lastAccepted name s.log := by
  rw [ha.log]
  cases op with
  | enqueue task => exact absurd rfl (hop task)
  | _ => rfl

/-! What the worker does to its errand. -/

namespace Errand

theorem afterWorker_ne_failed {l : Errand} (hl : l ≠ .failed) (hr : r.isOk = true) :
    l.afterWorker op r ≠ .failed := by
  unfold afterWorker
  split
  · split <;> nofun
  · nofun
  · nofun
  · cases hr
  · exact hl

theorem removing_cases {l : Errand} (h : l.afterWorker op r = .removing name) :
    (op = .dequeue ∧ ∀ E i s s', Act E i s op r s' → ⟨name, .uninstall⟩ ∈ s.world.taskQueue) ∨
      l = .removing name := by
  unfold afterWorker at h
  split at h
  · next task =>
    split at h
    · next htype =>
      obtain ⟨app, taskType⟩ := task
      obtain rfl : taskType = .uninstall := htype
      cases h
      refine .inl ⟨rfl, fun E i s s' ha => ?_⟩
      rw [ha.dequeue_ok]
      exact List.mem_cons_self
    · cases h
  · cases h
  · cases h
  · cases h
  · exact .inr h

end Errand

/-! The pending uninstalls. -/

section Step
variable (ha : Act .unfailing i s op r s') (hop : (protocol name i.role).allows (s.phase i) op)
  (herrand : (errand i.role).allows (s.errand i) op) (hworker : i.role = .worker → i = ⟨.worker, 0⟩)
include ha

theorem mem_queue_step {task : InstallationTask} (hne : ∀ task, op ≠ .enqueue task)
    (h : task ∈ s'.world.taskQueue) : task ∈ s.world.taskQueue := by
  obtain hsame | hpush | hpop := ha.queueStep
  · rwa [hsame] at h
  · exact absurd rfl (hne _)
  · rw [hpop]
    exact List.mem_cons_of_mem _ h

/-- Only a request brings a new uninstall. -/
theorem not_pending_step (hne : ∀ task, op ≠ .enqueue task) (h : ¬UninstallPending name s) :
    ¬UninstallPending name s' := by
  rintro (hmem | hremoving)
  · exact h (.inl (mem_queue_step ha hne hmem))
  · by_cases hi : ⟨.worker, 0⟩ = i
    · subst hi
      rw [ha.errand_self] at hremoving
      obtain ⟨-, hmem⟩ | hl := Errand.removing_cases hremoving
      · exact h (.inl (hmem _ _ _ _ ha))
      · exact h (.inr hl)
    · rw [ha.errand_other hi] at hremoving
      exact h (.inr hremoving)

include hop in
/-- Only the worker takes tasks. -/
theorem dequeue_worker (hdequeue : op = .dequeue) : i.role = .worker := by
  subst hdequeue
  by_contra hne
  exact (callAllows_of_allows hne hop).covers

include hop herrand hworker in
/-- A pending uninstall stays so until the row is deleted. -/
theorem pending_step (h : UninstallPending name s) :
    UninstallPending name s' ∨ s'.world.status name = none := by
  obtain hmem | hremoving := h
  · obtain hsame | hpush | hpop := ha.queueStep
    · exact .inl (.inl (by rwa [hsame]))
    · exact .inl (.inl (by
        rw [hpush]
        exact List.mem_append_left _ hmem))
    · have hi := dequeue_worker ha hop rfl
      obtain rfl := hworker hi
      have hok := ha.worker_ok rfl
      cases r with
      | error e => cases hok
      | ok task =>
        rw [ha.dequeue_ok] at hmem
        obtain rfl | hmem := List.mem_cons.mp hmem
        · refine .inl (.inr ?_)
          rw [ha.errand_self]
          rfl
        · exact .inl (.inl hmem)
  · by_cases hi : ⟨.worker, 0⟩ = i
    · subst hi
      have hok := ha.worker_ok rfl
      obtain ⟨hdone, hdequeue, hremove⟩ : (Errand.removing name).WorkerAllows op := by
        rw [← hremoving]
        exact herrand
      have hself := ha.errand_self
      rw [hremoving] at hself
      cases r with
      | error e => cases hok
      | ok a =>
        cases op with
        | remove other =>
          obtain rfl := hremove other rfl
          exact .inr (ha.remove_ok rfl)
        | taskDone => exact absurd rfl hdone
        | dequeue => exact absurd rfl hdequeue
        | _ => exact .inl (.inr hself)
    · exact .inl (.inr ((ha.errand_other hi).trans hremoving))

/-! The row. -/

include hop herrand hworker in
/-- Only an uninstall that the worker has taken deletes the row. -/
theorem row_step (hsound : s.errand ⟨.worker, 0⟩ ≠ .failed) (hpending : ¬UninstallPending name s)
    (h : s.world.status name ≠ none) : s'.world.status name ≠ none := by
  intro hnone
  obtain hsame | ⟨-, hst⟩ | ⟨-, hst⟩ | - := ha.statusStep name
  · exact h (hsame.symm.trans hnone)
  · rw [hnone] at hst
    cases hst
  · rw [hnone] at hst
    cases hst
  · by_cases hi : i.role = .worker
    · obtain rfl := hworker hi
      have hallows : (s.errand ⟨.worker, 0⟩).WorkerAllows (.remove name) := herrand
      cases hl : s.errand ⟨.worker, 0⟩ with
      | idle =>
        rw [hl] at hallows
        exact hallows name rfl
      | removing other =>
        rw [hl] at hallows
        obtain rfl := hallows.2.2 name rfl
        exact hpending (.inr hl)
      | failed => exact hsound hl
      | inserted =>
        rw [hl] at hallows
        exact hallows
    · have hremoves := (callAllows_of_allows hi hop).covers.2
      cases hrole : i.role <;> rw [hrole] at hremoves <;> cases hremoves

include hop in
/-- Only an install request brings a new row. -/
theorem absent_step (h : s.world.status name = none) : s'.world.status name = none ∨
    ∃ j, j.role = .installRequest ∧ s'.errand j = .inserted := by
  obtain hsame | @⟨app, hname, hst⟩ | ⟨hrow, -⟩ | hnone := ha.statusStep name
  · exact .inl (hsame.trans h)
  · have hi : i.role = .installRequest := by
      by_cases hi : i.role = .worker
      · rw [hi] at hop
        obtain ⟨task, -, -, hcovers, -⟩ := hop
        have hins : task.taskType.footprint.inserts = false := by cases task.taskType <;> rfl
        have hinserts := hcovers.2.2
        rw [hins] at hinserts
        cases hinserts
      · have hinserts := (callAllows_of_allows hi hop).covers.2.2
        cases hrole : i.role <;> rw [hrole] at hinserts <;> first
          | rfl
          | cases hinserts
    have he := ha.undisturbed Env.unfailing_le_obedient nofun nofun
    simp only [World.effect] at he
    split at he
    · obtain ⟨rfl, -⟩ := Prod.mk.inj (Option.some.inj he)
      refine .inr ⟨i, hi, ?_⟩
      rw [ha.errand_self, hi]
      rfl
    · rw [← (Prod.mk.inj (Option.some.inj he)).2]
      exact .inl h
  · exact absurd h hrow
  · exact .inl hnone

include herrand in
/-- It enqueues its task next. -/
theorem inserted_step (hne : ∀ task, op ≠ .enqueue task) (hj : j.role = .installRequest)
    (h : s.errand j = .inserted) : s'.errand j = .inserted := by
  by_cases hji : j = i
  · subst hji
    rw [hj, h] at herrand
    obtain ⟨task, he⟩ := herrand
    exact absurd he (hne task)
  · rw [ha.errand_other hji, h]

end Step

namespace RowFollows

theorem sound_step (h : RowFollows name s) (ha : Act .unfailing i s op r s')
    (hworker : i.role = .worker → i = ⟨.worker, 0⟩) : s'.errand ⟨.worker, 0⟩ ≠ .failed := by
  by_cases hi : ⟨.worker, 0⟩ = i
  · subst hi
    rw [ha.errand_self]
    exact Errand.afterWorker_ne_failed h.sound (ha.worker_ok rfl)
  · rw [ha.errand_other hi]
    exact h.sound

/-- A request enqueues its task: from now on it is the last. -/
theorem enqueue_step {task : InstallationTask} {r : Answer (.enqueue task)} (h : RowFollows name s)
    (ha : Act .unfailing i s (.enqueue task) r s')
    (hop : (protocol name i.role).allows (s.phase i) (.enqueue task))
    (hworker : i.role = .worker → i = ⟨.worker, 0⟩) : RowFollows name s' := by
  obtain ⟨rfl, hw⟩ := ha.enqueued Env.unfailing_le_reliable
  have hi : i.role ≠ .worker := by
    intro hi
    rw [hi] at hop
    obtain ⟨other, -, -, hcovers, -⟩ := hop
    have henq : other.taskType.footprint.enqueues = [] := by cases other.taskType <;> rfl
    have hmem := hcovers.2
    rw [henq] at hmem
    cases hmem
  have htask : task.appName = name := (callAllows_of_allows hi hop).covers.1
  have hlast := lastAccepted_enqueue htask ha
  have hrow : s'.world.status name = s.world.status name := by rw [hw]; rfl
  have hqueue : s'.world.taskQueue = s.world.taskQueue ++ [task] := by rw [hw]
  have herrand : s'.errand ⟨.worker, 0⟩ = s.errand ⟨.worker, 0⟩ := by
    refine ha.errand_other fun he => hi ?_
    rw [← he]
  refine ⟨fun taskType v hv hstays => ?_, fun taskType v hv hstays => ?_, h.sound_step ha hworker⟩
  · obtain ⟨rfl, rfl⟩ := Prod.mk.inj (Option.some.inj (hlast.symm.trans hv))
    refine ⟨hrow ▸ hstays.row, ?_⟩
    rintro (hmem | hremoving)
    · rw [hqueue] at hmem
      obtain hmem | hmem := List.mem_append.mp hmem
      · exact hstays.not_pending (.inl hmem)
      · obtain rfl := List.mem_singleton.mp hmem
        exact hstays.installs rfl
    · exact hstays.not_pending (.inr (herrand ▸ hremoving))
  · obtain ⟨rfl, rfl⟩ := Prod.mk.inj (Option.some.inj (hlast.symm.trans hv))
    by_cases htype : task.taskType = .uninstall
    · refine .inl (.inl ?_)
      rw [hqueue, ← htask, ← htype]
      exact List.mem_append_right _ (List.mem_singleton_self _)
    · by_cases hnone : s.world.status name = none
      · exact .inr (.inl (hrow.trans hnone))
      · refine .inl ?_
        obtain hmem | hremoving := not_not.mp fun hpending => hstays ⟨htype, hnone, hpending⟩
        · refine .inl ?_
          rw [hqueue]
          exact List.mem_append_left _ hmem
        · exact .inr (herrand.trans hremoving)

theorem step (h : RowFollows name s) (ha : Act .unfailing i s op r s')
    (hop : (protocol name i.role).allows (s.phase i) op)
    (herrand : (errand i.role).allows (s.errand i) op)
    (hworker : i.role = .worker → i = ⟨.worker, 0⟩) : RowFollows name s' := by
  by_cases henq : ∃ task, op = .enqueue task
  · obtain ⟨task, rfl⟩ := henq
    exact h.enqueue_step ha hop hworker
  · have hne : ∀ task, op ≠ .enqueue task := fun task he => henq ⟨task, he⟩
    refine ⟨fun taskType v hv hstays => ?_, fun taskType v hv hstays => ?_, h.sound_step ha hworker⟩
    · rw [lastAccepted_other hne ha] at hv
      obtain ⟨hrow, hpending⟩ := h.kept taskType v hv hstays
      exact ⟨row_step ha hop herrand hworker h.sound hpending hrow, not_pending_step ha hne hpending⟩
    · rw [lastAccepted_other hne ha] at hv
      obtain hpending | hnone | ⟨j, hj, hinserted⟩ := h.lost taskType v hv hstays
      · exact (pending_step ha hop herrand hworker hpending).imp_right .inl
      · exact .inr (absent_step ha hop hnone)
      · exact .inr (.inr ⟨j, hj, inserted_step ha herrand hne hj hinserted⟩)

theorem initial (w : World) : RowFollows name ⟨w, []⟩ where
  kept _ _ hv := by cases hv
  lost _ _ hv := by cases hv
  sound := nofun

end RowFollows

/-! ## Main result -/

section Main
variable {w : World} {c : Config Op Ans Exn State Call}

theorem Runs.rowFollows (h : Runs .unfailing installing name w c) : RowFollows name c.state := by
  refine Reaches.invariant_allowed ((tracks _ name).and (errand_tracks _))
    (fun _ _ hp => hp.starts.conforms.and hp.starts.errands) (fun i s op r s' hp hop hs ha => ?_) h
    (Conforming.idle fun _ => rfl) (.initial w)
  obtain ⟨p, hp⟩ := hp
  exact hs.step ha hop.1 hop.2 hp.starts.worker

theorem Runs.errands (h : Runs .unfailing installing name w c) :
    Conforming (fun i => errand (Call.role i)) State.errand (StartsOf installing name) (fun _ => .idle)
      (fun _ _ l => l = .idle) c :=
  Reaches.conforming (errand_tracks _) (fun _ _ hp => hp.starts.errands) h (Conforming.idle fun _ => rfl)

/-- An idle worker has no uninstall to finish. -/
theorem Runs.worker_idle (h : Runs .unfailing installing name w c) (hidle : WorkerIdle c) :
    c.state.errand ⟨.worker, 0⟩ ≠ .removing name := by
  intro hremoving
  have hconf := h.errands ⟨.worker, 0⟩
  cases hp : c.pool ⟨.worker, 0⟩ with
  | none =>
    rw [hp] at hconf
    exact absurd (hremoving.symm.trans hconf) nofun
  | some p =>
    rw [hp] at hconf
    obtain ⟨-, hconf⟩ := hconf
    rw [hremoving] at hconf
    cases p with
    | ret a => cases hconf
    | raise e => cases hconf
    | await op next => exact hconf.1.2.1 (hidle op next hp)

/-- If every step succeeds, then once the queue is empty, the worker idle and no install request in flight,
the row exists exactly if the last accepted request was no uninstall, if and only if that request was an
uninstall, or the row existed and no uninstall was still to come when it enqueued its task. -/
theorem row_follows_requests_iff (h : Runs .unfailing installing name w c) (hidle : WorkerIdle c)
    (hqueue : c.state.world.taskQueue = []) (hinstalls : NoInstall c) {taskType : TaskType} {v : State}
    (hlast : lastAccepted name c.state.log = some (taskType, v)) :
    (c.state.world.status name ≠ none ↔ taskType ≠ .uninstall) ↔
      taskType = .uninstall ∨ (v.world.status name ≠ none ∧ ¬UninstallPending name v) := by
  have hpending : ¬UninstallPending name c.state := by
    rintro (hmem | hremoving)
    · rw [hqueue] at hmem
      cases hmem
    · exact h.worker_idle hidle hremoving
  by_cases hstays : Stays name taskType v
  · have hrow := (h.rowFollows.kept taskType v hlast hstays).1
    exact iff_of_true (iff_of_true hrow hstays.installs) (.inr ⟨hstays.row, hstays.not_pending⟩)
  · have hnone : c.state.world.status name = none := by
      obtain hp | hnone | ⟨i, hi, hinserted⟩ := h.rowFollows.lost taskType v hlast hstays
      · exact absurd hp hpending
      · exact hnone
      · obtain hfirst | ⟨-, hends⟩ := Reaches.conforming_finished (errand_tracks _)
          (fun _ _ hp => hp.starts.errands) h (Conforming.idle fun _ => rfl) (hinstalls i hi)
        · rw [hinserted] at hfirst
          cases hfirst
        · rw [hinserted] at hends
          cases hends
    rw [hnone]
    by_cases htype : taskType = .uninstall
    · simp [htype]
    · have hnot : ¬(v.world.status name ≠ none ∧ ¬UninstallPending name v) :=
        fun hv => hstays ⟨htype, hv.1, hv.2⟩
      simp [htype, hnot]

end Main

/-! ## Two runs -/

/-- A stopped app is reinstalled. -/
theorem row_follows_requests_run : ∃ w c v, Runs .unfailing installing "app" w c ∧ WorkerIdle c ∧
    lastAccepted "app" c.state.log = some (.reinstall, v) ∧ c.state.world.status "app" ≠ none := by
  let request : Call := ⟨.reinstallRequest, 0⟩
  let worker : Call := ⟨.worker, 0⟩
  let stays (last : TaskType × State) : Bool := last.1 == .reinstall &&
    decide (last.2.world.status "app" ≠ none ∧ ¬UninstallPending "app" last.2)
  let cues := .start request :: Cue.fires request (List.replicate 5 .proceed) ++
    .start worker :: Cue.fires worker (List.replicate 13 .proceed ++
      [.docker (.ok ()) (.single .exited)] ++ List.replicate 7 .proceed)
  obtain ⟨c, hrun, hF, hquiet⟩ := exists_run_config .unfailing installing "app"
    (.withApp "app" .stopped (.single .exited)) 1 cues
    (fun c => cues.all (fun cue => c.ended cue.call) && (c.state.world.taskQueue == [] &&
      (lastAccepted "app" c.state.log).any stays)) (by decide) (by decide +kernel)
  simp only [Bool.and_eq_true, beq_iff_eq] at hF
  obtain ⟨hended, hqueue, hlast⟩ := hF
  obtain ⟨⟨taskType, v⟩, hlast, hstays⟩ := (Option.any_eq_true _ _).mp hlast
  simp only [stays, Bool.and_eq_true, beq_iff_eq, decide_eq_true_eq] at hstays
  obtain ⟨rfl, hstays⟩ := hstays
  have hidle : WorkerIdle c := fun op next hp => absurd hp (hquiet hended _ op next)
  have hinstalls : NoInstall c := fun i _ op next => hquiet hended i op next
  have hiff := (row_follows_requests_iff hrun hidle hqueue hinstalls hlast).mpr (.inr hstays)
  exact ⟨_, c, v, hrun, hidle, hlast, hiff.mpr nofun⟩

/-- A reinstallation that is accepted before the worker takes the uninstall accepted earlier is lost, and
the row with it. -/
theorem reinstall_lost_to_uninstall : ¬ ∀ (w : World) (c : Config Op Ans Exn State Call),
    Runs .unfailing installing "app" w c → WorkerIdle c → c.state.world.taskQueue = [] → NoInstall c →
    ∀ taskType v, lastAccepted "app" c.state.log = some (taskType, v) →
      (c.state.world.status "app" ≠ none ↔ taskType ≠ .uninstall) := by
  intro h
  let uninstall : Call := ⟨.uninstallRequest, 0⟩
  let reinstall : Call := ⟨.reinstallRequest, 0⟩
  let worker : Call := ⟨.worker, 0⟩
  let cues := Cue.start uninstall :: Cue.fires uninstall (List.replicate 5 Choice.proceed) ++
    Cue.start reinstall :: Cue.fires reinstall (List.replicate 5 Choice.proceed) ++
    Cue.start worker :: Cue.fires worker (List.replicate 6 Choice.proceed ++
      [Choice.docker (.ok ()) (.single .exited)] ++ List.replicate 3 Choice.proceed ++
      [Choice.docker (.ok ()) .empty] ++ List.replicate 13 Choice.proceed)
  obtain ⟨c, hrun, hF, hquiet⟩ := exists_run_config .unfailing installing "app"
    (.withApp "app" .stopped (.single .exited)) 2 cues
    (fun c => cues.all (fun cue => c.ended cue.call) && (c.state.world.taskQueue == [] &&
      ((c.state.world.status "app").isNone &&
        (lastAccepted "app" c.state.log).any fun last => last.1 == .reinstall)))
    (by decide) (by decide +kernel)
  simp only [Bool.and_eq_true, beq_iff_eq, Option.isNone_iff_eq_none] at hF
  obtain ⟨hended, hqueue, hnone, hlast⟩ := hF
  obtain ⟨⟨taskType, v⟩, hlast, htype⟩ := (Option.any_eq_true _ _).mp hlast
  obtain rfl : taskType = .reinstall := eq_of_beq htype
  exact (h _ c hrun (fun op next hp => absurd hp (hquiet hended _ op next)) hqueue
    (fun i _ op next => hquiet hended i op next) _ v hlast).mpr nofun hnone

end Freeshard

import Freeshard.Service.Protocol
import Freeshard.System.Rules

/-! # How the calls get into their phases

A lifecycle call is engaged from reading a status it acts on; `start_app` is so only under the op
lock. The worker holds the lock for all of an uninstall and never for any other task. -/

namespace Freeshard
open Coroutine
set_option autoImplicit false

variable {name : String} {i j : Call} {s s' : State} {op : Op} {r : Answer op} {E : Env}

theorem mem_log_of_phase (h : s.phase j ≠ .idle) : ∃ e ∈ s.log, e.call = j := by
  obtain ⟨w, log⟩ := s
  change phaseOf j log ≠ .idle at h
  change ∃ e ∈ log, e.call = j
  induction log with
  | nil => exact absurd rfl h
  | cons e log ih =>
    by_cases he : e.call = j
    · exact ⟨e, List.mem_cons_self, he⟩
    · rw [phaseOf, if_neg he] at h
      obtain ⟨e', he', hj⟩ := ih h
      exact ⟨e', List.mem_cons_of_mem e he', hj⟩

/-! ## Lifecycle calls -/

/-- `start_app` is under the lock only after it has taken it, and gives it back once. -/
theorem Phase.afterStart_cases {l : Phase} (hop : CallAllows name .startApp l op)
    (h : l.afterStart op r = .holding ∨ l.afterStart op r = .engaged) :
    (op = .acquire name ∧ r.isOk = true) ∨
      ((l = .holding ∨ l = .engaged) ∧ ∀ other, op ≠ .release other) := by
  cases op with
  | acquire other =>
    obtain ⟨rfl, -⟩ := hop.covers
    cases r with
    | ok u => exact .inl ⟨rfl, rfl⟩
    | error e => exact .inr ⟨h, fun _ he => by cases he⟩
  | getByName other => exact .inr ⟨hop.reads rfl _ rfl, fun _ he => by cases he⟩
  | updateStatus other status => exact .inr ⟨.inr (hop.acts rfl rfl), fun _ he => by cases he⟩
  | release other => obtain h | h := h <;> cases h
  | _ =>
    refine .inr ⟨?_, fun _ he => by cases he⟩
    cases r <;> exact h

theorem Phase.engaged_cases {role : Role} {l : Phase} (hlife : role.lifecycle = true)
    (h : l.after role op r = .engaged) : l = .engaged ∨ ∃ other, op = .getByName other ∧
      ∀ E i s s', Act E i s op r s' → ∃ status ∈ role.actsOn, s.world.status other = some status := by
  have hread : ∀ (other : String) (r : Answer (.getByName other)),
      (∀ app, r = .ok (some app) → app.status ∉ role.actsOn) ∨ ∃ app, r = .ok (some app) ∧
        ∀ E i s s', Act E i s (.getByName other) r s' →
          ∃ status ∈ role.actsOn, s.world.status other = some status := by
    intro other r
    rcases r with e | (_ | app)
    · exact .inl fun _ he => by cases he
    · exact .inl fun _ he => by cases he
    · by_cases hmem : app.status ∈ role.actsOn
      · refine .inr ⟨app, rfl, fun E i s s' ha => ⟨app.status, hmem, ?_⟩⟩
        rw [World.status, InstalledApps.status, ← ha.getByName_ok]
        rfl
      · refine .inl fun app' he => ?_
        obtain rfl := Option.some.inj (Except.ok.inj he)
        exact hmem
  cases op with
  | getByName other =>
    obtain hnot | ⟨app, rfl, hst⟩ := hread other r
    · refine .inl ?_
      rcases r with e | (_ | app)
      · cases role <;> first | exact h | cases h
      · cases role <;> exact h
      · have hmem := hnot app rfl
        cases role <;> first | exact (if_neg hmem).symm.trans h | cases hlife
    · exact .inr ⟨other, rfl, hst⟩
  | _ =>
    refine .inl ?_
    cases role <;> first | (cases r <;> first | exact h | cases h) | cases hlife

/-- No call but `i` changes its phase, and `i` becomes engaged only by reading a status. -/
theorem Act.engaged_cases (ha : Act E i s op r s') (hop : (protocol name i.role).allows (s.phase i) op)
    (hlife : j.role.lifecycle = true) (h : s'.phase j = .engaged) :
    s.phase j = .engaged ∨ (j = i ∧ op = .getByName name ∧
      (j.role = .startApp → s.phase j = .holding) ∧
      ∃ status ∈ j.role.actsOn, s.world.status name = some status) := by
  by_cases hji : j = i
  · subst hji
    have hne : j.role ≠ .worker := by
      intro hrole
      rw [hrole] at hlife
      cases hlife
    have hcall := callAllows_of_allows hne hop
    rw [ha.phase_self] at h
    obtain hl | ⟨other, rfl, hread⟩ := Phase.engaged_cases hlife h
    · exact .inl hl
    · obtain rfl := hcall.covers
      by_cases hl : s.phase j = .engaged
      · exact .inl hl
      · refine .inr ⟨rfl, rfl, fun hrole => ?_, hread _ _ _ _ ha⟩
        exact (hcall.reads hrole _ rfl).resolve_right hl
  · rw [ha.phase_other hji] at h
    exact .inl h

/-- A lifecycle call commands containers and stores a status only while it is engaged. -/
theorem engaged_of_acts (hop : (protocol name i.role).allows (s.phase i) op)
    (hlife : i.role.lifecycle = true) (hacts : op.acts = true) : s.phase i = .engaged := by
  have hne : i.role ≠ .worker := by
    intro hrole
    rw [hrole] at hlife
    cases hlife
  exact (callAllows_of_allows hne hop).acts hlife hacts

/-! ## The worker -/

/-- The worker holds the lock in an uninstall from taking it to giving it back. -/
theorem WorkerAllows.locked_cases {l : Phase} {task : InstallationTask} (hop : WorkerAllows l op)
    (h : l.afterWorker op r = .working task .locked) :
    (op = .acquire task.appName ∧ r.isOk = true) ∨
      (l = .working task .locked ∧ op ≠ .release task.appName) := by
  cases op with
  | acquire other =>
    obtain rfl : l = .working ⟨other, .uninstall⟩ .fresh := hop
    cases r with
    | ok u =>
      cases h
      exact .inl ⟨rfl, rfl⟩
    | error e => cases h
  | release other =>
    obtain rfl : l = .working ⟨other, .uninstall⟩ .locked := hop
    cases h
  | dequeue =>
    obtain rfl : l = .idle := hop
    cases r <;> cases h
  | taskDone => cases h
  | _ =>
    obtain ⟨other, stage, rfl, -⟩ := hop
    exact .inr ⟨h, fun he => by cases he⟩

theorem WorkerAllows.locked_kept {l : Phase} (hop : WorkerAllows l op)
    (hl : l = .working ⟨name, .uninstall⟩ .locked) (hne : op ≠ .release name) :
    l.afterWorker op r = .working ⟨name, .uninstall⟩ .locked := by
  subst hl
  cases op with
  | acquire other => cases hop
  | release other =>
    cases hop
    exact absurd rfl hne
  | dequeue => cases hop
  | taskDone =>
    obtain ⟨task, stage, htask, hstage⟩ := hop
    cases htask
    cases hstage rfl
  | _ => rfl

theorem WorkerAllows.working_cases {l : Phase} {task : InstallationTask} {stage : Stage}
    (hop : WorkerAllows l op) (h : l.afterWorker op r = .working task stage) :
    (op = .dequeue ∧ ∀ E i s s', Act E i s op r s' → task ∈ s.world.taskQueue) ∨
      ∃ stage', l = .working task stage' := by
  cases op with
  | dequeue =>
    obtain rfl : l = .idle := hop
    cases r with
    | ok task' =>
      cases h
      refine .inl ⟨rfl, fun E i s s' ha => ?_⟩
      rw [ha.dequeue_ok]
      exact List.mem_cons_self
    | error e => cases h
  | taskDone => cases h
  | acquire other =>
    obtain rfl : l = .working ⟨other, .uninstall⟩ .fresh := hop
    cases r <;> cases h <;> exact .inr ⟨_, rfl⟩
  | release other =>
    obtain rfl : l = .working ⟨other, .uninstall⟩ .locked := hop
    cases h
    exact .inr ⟨_, rfl⟩
  | _ =>
    obtain ⟨other, stage', rfl, -⟩ := hop
    cases h
    exact .inr ⟨_, rfl⟩

theorem WorkerAllows.task_of_writesRow {l : Phase} (hop : WorkerAllows l op)
    (hwrites : op.writesRow name = true) : ∃ task stage, l = .working task stage ∧
      task.appName = name ∧ task.taskType.footprint.Covers name op := by
  cases op with
  | insert app =>
    obtain ⟨task, stage, rfl, hcovers, -⟩ := hop
    have happ : app.name = name := by simpa [Op.writesRow] using hwrites
    obtain rfl : task.appName = name := hcovers.1.symm.trans happ
    exact ⟨task, stage, rfl, rfl, hcovers⟩
  | updateStatus other status | remove other =>
    obtain ⟨task, stage, rfl, hcovers, -⟩ := hop
    have happ : other = name := by simpa [Op.writesRow] using hwrites
    obtain rfl : task.appName = name := hcovers.1.symm.trans happ
    exact ⟨task, stage, rfl, rfl, hcovers⟩
  | _ => cases hwrites

end Freeshard

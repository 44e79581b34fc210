import Freeshard.System.Environments

/-! # What an operation answers

For each kind of environment the inversion of a performed operation, and from it one rule for each
operation of `app_tools.py`: what has to be shown of the answers it can give. -/

namespace Freeshard
open Coroutine
set_option autoImplicit false

variable {E : Env} {i : Call} {s s' : State} {op : Op} {r : Answer op}

/-! ## Inversions -/

/-- A performed operation as a choice of the environment, the state it leaves written out. -/
theorem Act.inv (h : Act E i s op r s') :
    ∃ c, E s i op c ∧ s.world.exec i op c = some (r, s'.world) := by
  obtain ⟨c, w', hE, he, rfl⟩ := h
  exact ⟨c, hE, he⟩

theorem Act.state_eq (h : Act E i s op r s') : s' = s.next i op r s'.world := by
  obtain ⟨c, w', -, -, rfl⟩ := h
  rfl

theorem Act.proceeded (h : Act E i s op r s') (hproceed : ∀ c, E s i op c → c = .proceed) :
    s.world.effect i op = some (r, s'.world) := by
  obtain ⟨c, hc, he⟩ := h.inv
  obtain rfl := hproceed c hc
  exact he

theorem act_of_effect {w' : World} (hproceed : E s i op .proceed)
    (h : s.world.effect i op = some (r, w')) : Act E i s op r (s.next i op r w') :=
  ⟨.proceed, w', hproceed, h, rfl⟩

/-- Database, lock and queue operations have their effect and nothing else happens. -/
theorem Act.internal (h : Act E i s op r s') (hE : E ≤ Env.reliable) (hop : op.internal = true) :
    s.world.effect i op = some (r, s'.world) := by
  obtain ⟨c, hc, he⟩ := h.inv
  obtain rfl := (hE _ _ _ _ hc).1 hop
  exact he

/-- In an obedient environment everything but compose commands and the throttle has its effect. -/
theorem Act.undisturbed (h : Act E i s op r s') (hE : E ≤ Env.obedient)
    (hcmd : ∀ name cmd, op ≠ .compose name cmd) (hthr : ∀ name, op ≠ .throttle name) :
    s.world.effect i op = some (r, s'.world) := by
  obtain ⟨c, hc, he⟩ := h.inv
  have hob := hE _ _ _ _ hc
  obtain rfl : c = .proceed := by
    cases op <;> first
      | exact hob
      | exact absurd rfl (hcmd _ _)
      | exact absurd rfl (hthr _)
  exact he

/-- Without cancellation only `Exception`s surface. -/
theorem Act.isException {e : Exn} (h : Act E i s op (.error e) s') (hE : E ≤ Env.uncancelled) :
    e.isException = true := by
  obtain ⟨c, hc, he⟩ := h.inv
  have hun : c.raised ≠ some .cancelled := hE _ _ _ _ hc
  have hne : ∀ {e' : Exn}, c.raised = some e' → e' = e → e.isException = true := by
    rintro e' hr rfl
    cases e' <;> first | rfl | exact absurd hr hun
  cases c with
  | proceed => exact World.effect_isException he
  | raise e' =>
    simp only [World.exec, Option.some.injEq, Prod.mk.injEq, Except.error.injEq] at he
    exact hne rfl he.1
  | proceedRaise e' =>
    simp only [World.exec, Option.map_eq_some_iff, Prod.mk.injEq, Except.error.injEq] at he
    obtain ⟨_, -, hee, -⟩ := he
    exact hne rfl hee
  | docker exit stack =>
    cases op with
    | compose name cmd =>
      simp only [World.exec] at he
      split at he
      · rw [Option.some.injEq, Prod.mk.injEq] at he
        cases exit <;> cases he.1
        rfl
      · cases he
    | _ => cases he
  | clock now =>
    cases op with
    | throttle name =>
      simp only [World.exec] at he
      split at he <;> rw [Option.some.injEq, Prod.mk.injEq] at he <;> cases he.1
    | _ => cases he
  | leaves dir e' =>
    cases op with
    | rmtree name => cases he
    | moveUploadedZip name _ | downloadAppZip name | extractAppZip name | unlinkZip name
    | renderTemplate name =>
      simp only [World.exec, Op.appDir, Option.map_some, Option.some.injEq, Prod.mk.injEq,
        Except.error.injEq] at he
      exact hne rfl he.1
    | _ => cases he

/-- An operation without an effect of its own leaves the world alone, whatever it answers. -/
theorem Act.world_eq (h : Act E i s op r s')
    (heff : ∀ i w r w', World.effect i w op = some (r, w') → w' = w)
    (hcmd : ∀ name cmd, op ≠ .compose name cmd) (hthr : ∀ name, op ≠ .throttle name)
    (hdir : op.appDir = none) : s'.world = s.world := by
  obtain ⟨c, -, he⟩ := h.inv
  obtain h | ⟨r₀, h⟩ | ⟨name, cmd, _, rfl, -⟩ | ⟨name, _, rfl, -⟩ | ⟨_, _, hd, -⟩ :=
    World.exec_cases he
  · exact h
  · exact heff _ _ _ _ h
  · exact absurd rfl (hcmd name cmd)
  · exact absurd rfl (hthr name)
  · rw [hdir] at hd
    cases hd

theorem Act.notified {r : Answer .onAppsUpdate} (h : Act E i s .onAppsUpdate r s') :
    s'.world = s.world :=
  h.world_eq (fun _ _ _ _ he => by cases he; rfl) nofun nofun rfl

/-! ## Any environment -/

section Any

theorem Act.internal_cases (h : Act E i s op r s') (hop : op.internal = true) :
    s.world.effect i op = some (r, s'.world) ∨
      ∃ e, r = .error e ∧ (s'.world = s.world ∨ ∃ r₀, s.world.effect i op = some (r₀, s'.world)) := by
  obtain ⟨c, -, he⟩ := h.inv
  refine World.exec_internal ?_ ?_ ?_ he
  · rintro name cmd rfl
    cases hop
  · rintro name rfl
    cases hop
  · cases op <;> first | rfl | cases hop

theorem Act.effect_of_ok (h : Act E i s op r s') (hop : op.internal = true) (hr : r.isOk = true) :
    s.world.effect i op = some (r, s'.world) := by
  obtain he | ⟨e, rfl, -⟩ := h.internal_cases hop
  · exact he
  · cases hr

theorem Act.proceed_of_ok (h : Act E i s op r s') (hop : op.internal = true) (hr : r.isOk = true) :
    E s i op .proceed := by
  obtain ⟨c, hc, he⟩ := h.inv
  cases c with
  | proceed => exact hc
  | raise e =>
    obtain ⟨rfl, -⟩ := Prod.mk.inj (Option.some.inj he)
    cases hr
  | proceedRaise e =>
    simp only [World.exec, Option.map_eq_some_iff, Prod.mk.injEq] at he
    obtain ⟨_, -, rfl, -⟩ := he
    cases hr
  | docker exit stack | clock now => cases op <;> first | cases he | cases hop
  | leaves dir e => cases op <;> first | cases he | cases hop

variable {name : String}

theorem Act.updateStatus_ok {status : Status} {app : InstalledApp}
    (h : Act E i s (.updateStatus name status) (.ok (some app)) s') :
    s'.world.status name = some status := by
  have he := h.effect_of_ok rfl rfl
  obtain ⟨hrow, hw⟩ := Prod.mk.inj (Option.some.inj he)
  have hget := Except.ok.inj hrow
  rw [← hw, World.setStatus_status_self]
  cases hold : s.world.status name with
  | none =>
    rw [(World.getByName_setStatus_eq_none status).mpr hold] at hget
    cases hget
  | some old => rfl

theorem Act.acquire_ok {r : Answer (.acquire name)} (h : Act E i s (.acquire name) r s')
    (hr : r.isOk = true) :
    s.world.opLocks name = none ∧ s'.world = s.world.setLock name (some i) := by
  have he := h.effect_of_ok rfl hr
  simp only [World.effect] at he
  split at he
  · next hl => exact ⟨hl, (Prod.mk.inj (Option.some.inj he)).2.symm⟩
  · cases he

theorem Act.remove_ok {r : Answer (.remove name)} (h : Act E i s (.remove name) r s')
    (hr : r.isOk = true) : s'.world.status name = none := by
  have he := h.effect_of_ok rfl hr
  rw [← (Prod.mk.inj (Option.some.inj he)).2]
  exact InstalledApps.status_remove_self _ _

theorem Act.getByName_ok {row : Option InstalledApp}
    (h : Act E i s (.getByName name) (.ok row) s') :
    row = s.world.installedApps.getByName name := by
  have he := h.effect_of_ok rfl rfl
  exact (Except.ok.inj (Prod.mk.inj (Option.some.inj he)).1).symm

/-- Nobody but its holder releases a lock, and nobody takes it while it is held. -/
theorem Act.lock_kept (h : Act E i s op r s') {j : Call} (hj : s.world.opLocks name = some j)
    (hne : op = .release name → i ≠ j) : s'.world.opLocks name = some j := by
  cases hlocks : op.locks name with
  | false => rw [h.frame.opLocks name hlocks, hj]
  | true =>
    cases op with
    | acquire other =>
      obtain rfl : other = name := by simpa [Op.locks] using hlocks
      have hblocked : s.world.effect i (.acquire other) = none := by
        simp [World.effect, hj]
      obtain he | ⟨e, -, hw | ⟨r₀, he⟩⟩ := h.internal_cases rfl
      · rw [hblocked] at he
        cases he
      · rw [hw, hj]
      · rw [hblocked] at he
        cases he
    | release other =>
      obtain rfl : other = name := by simpa [Op.locks] using hlocks
      have hblocked : s.world.effect i (.release other) = none := by
        simp [World.effect, hj, Ne.symm (hne rfl)]
      obtain he | ⟨e, -, hw | ⟨r₀, he⟩⟩ := h.internal_cases rfl
      · rw [hblocked] at he
        cases he
      · rw [hw, hj]
      · rw [hblocked] at he
        cases he
    | _ => cases hlocks

theorem Act.inserted_absent {app : InstalledApp} {r : Answer (.insert app)}
    (h : Act E i s (.insert app) r s') :
    s'.world.status app.name = s.world.status app.name ∨ s.world.status app.name = none := by
  by_cases hrow : s.world.status app.name = none
  · exact .inr hrow
  · have hfull : s.world.effect i (.insert app) = some (.error (.uniqueViolation app.name), s.world) := by
      have hmem : (s.world.installedApps.status app.name).isSome := Option.isSome_iff_ne_none.mpr hrow
      simp [World.effect, InstalledApps.insert_eq_none.mpr hmem]
    have hsame : s'.world = s.world := by
      obtain he | ⟨e, -, hw | ⟨r₀, he⟩⟩ := h.internal_cases rfl
      · rw [hfull] at he
        exact (Prod.mk.inj (Option.some.inj he)).2.symm
      · exact hw
      · rw [hfull] at he
        exact (Prod.mk.inj (Option.some.inj he)).2.symm
    exact .inl (by rw [hsame])

/-- What an operation may do to the status of a row. -/
inductive StatusStep (name : String) (w w' : World) : Op → Prop where
  | same {op : Op} (h : w'.status name = w.status name) : StatusStep name w w' op
  | inserted {app : InstalledApp} (hname : app.name = name)
      (h : w'.status name = some app.status) : StatusStep name w w' (.insert app)
  | updated {status : Status} (hrow : w.status name ≠ none)
      (h : w'.status name = some status) : StatusStep name w w' (.updateStatus name status)
  | removed (h : w'.status name = none) : StatusStep name w w' (.remove name)

theorem Act.statusStep (h : Act E i s op r s') (name : String) :
    StatusStep name s.world s'.world op := by
  cases hwrites : op.writesRow name with
  | false => exact .same (h.frame.status name hwrites)
  | true =>
    cases op with
    | insert app =>
      obtain rfl : app.name = name := by simpa [Op.writesRow] using hwrites
      have hinsert : ∀ r₀, s.world.effect i (.insert app) = some (r₀, s'.world) →
          StatusStep app.name s.world s'.world (.insert app) := by
        intro r₀ he
        simp only [World.effect] at he
        split at he
        · next apps hins =>
          have hstatus := InstalledApps.status_insert hins app.name
          rw [if_pos rfl] at hstatus
          refine .inserted rfl ?_
          rw [← (Prod.mk.inj (Option.some.inj he)).2]
          exact hstatus
        · rw [(Prod.mk.inj (Option.some.inj he)).2]
          exact .same rfl
      obtain he | ⟨e, -, hw | ⟨r₀, he⟩⟩ := h.internal_cases rfl
      · exact hinsert _ he
      · exact .same (by rw [hw])
      · exact hinsert _ he
    | updateStatus other status =>
      obtain rfl : other = name := by simpa [Op.writesRow] using hwrites
      have hupdate : s'.world = s.world.setStatus other status →
          StatusStep other s.world s'.world (.updateStatus other status) := by
        intro hw
        have hset : s'.world.status other = (s.world.status other).map fun _ => status := by
          rw [hw, World.setStatus_status_self]
        cases hrow : s.world.status other with
        | none => exact .same (by rw [hset, hrow]; rfl)
        | some old => exact .updated (by simp [hrow]) (by rw [hset, hrow]; rfl)
      obtain he | ⟨e, -, hw | ⟨r₀, he⟩⟩ := h.internal_cases rfl
      · exact hupdate (Prod.mk.inj (Option.some.inj he)).2.symm
      · exact .same (by rw [hw])
      · exact hupdate (Prod.mk.inj (Option.some.inj he)).2.symm
    | remove other =>
      obtain rfl : other = name := by simpa [Op.writesRow] using hwrites
      obtain he | ⟨e, -, hw | ⟨r₀, he⟩⟩ := h.internal_cases rfl
      · rw [← (Prod.mk.inj (Option.some.inj he)).2]
        exact .removed (InstalledApps.status_remove_self _ _)
      · exact .same (by rw [hw])
      · rw [← (Prod.mk.inj (Option.some.inj he)).2]
        exact .removed (InstalledApps.status_remove_self _ _)
    | _ => cases hwrites

/-- What an operation may do to the task queue. -/
inductive QueueStep (w w' : World) : Op → Prop where
  | same {op : Op} (h : w'.taskQueue = w.taskQueue) : QueueStep w w' op
  | pushed {task : InstallationTask} (h : w'.taskQueue = w.taskQueue ++ [task]) :
    QueueStep w w' (.enqueue task)
  | popped {task : InstallationTask} (h : w.taskQueue = task :: w'.taskQueue) :
    QueueStep w w' .dequeue

theorem Act.queueStep (h : Act E i s op r s') : QueueStep s.world s'.world op := by
  cases hqueues : op.queues with
  | false => exact .same (h.frame.taskQueue hqueues)
  | true =>
    cases op with
    | enqueue task =>
      obtain he | ⟨e, -, hw | ⟨r₀, he⟩⟩ := h.internal_cases rfl
      · rw [← (Prod.mk.inj (Option.some.inj he)).2]
        exact .pushed rfl
      · exact .same (by rw [hw])
      · rw [← (Prod.mk.inj (Option.some.inj he)).2]
        exact .pushed rfl
    | dequeue =>
      have hpop : ∀ r₀, s.world.effect i .dequeue = some (r₀, s'.world) →
          QueueStep s.world s'.world .dequeue := by
        intro r₀ he
        simp only [World.effect] at he
        split at he
        · cases he
        · next task tasks hq =>
          have hpopped : s.world.taskQueue = task :: s'.world.taskQueue := by
            rw [hq, ← (Prod.mk.inj (Option.some.inj he)).2]
          exact .popped hpopped
      obtain he | ⟨e, -, hw | ⟨r₀, he⟩⟩ := h.internal_cases rfl
      · exact hpop _ he
      · exact .same (by rw [hw])
      · exact hpop _ he
    | _ => cases hqueues

theorem Act.dequeue_ok {task : InstallationTask} (h : Act E i s .dequeue (.ok task) s') :
    s.world.taskQueue = task :: s'.world.taskQueue := by
  have he := h.effect_of_ok rfl rfl
  simp only [World.effect] at he
  split at he
  · cases he
  · next task' tasks hq =>
    obtain ⟨htask, hw⟩ := Prod.mk.inj (Option.some.inj he)
    rw [hq, ← hw, Except.ok.inj htask]

end Any

/-! ## The database, the op locks and the queue -/

section Reliable
variable (hE : E ≤ Env.reliable) {name : String}
include hE

theorem Act.gotAll {r : Answer .getAll} (h : Act E i s .getAll r s') :
    r = .ok s.world.installedApps.rows ∧ s'.world = s.world := by
  simpa [World.effect, eq_comm] using h.internal hE rfl

theorem Act.gotByName {r : Answer (.getByName name)} (h : Act E i s (.getByName name) r s') :
    r = .ok (s.world.installedApps.getByName name) ∧ s'.world = s.world := by
  simpa [World.effect, eq_comm] using h.internal hE rfl

theorem Act.contained {r : Answer (.contains name)} (h : Act E i s (.contains name) r s') :
    r = .ok (s.world.installedApps.contains name) ∧ s'.world = s.world := by
  simpa [World.effect, eq_comm] using h.internal hE rfl

theorem Act.updatedStatus {status : Status} {r : Answer (.updateStatus name status)}
    (h : Act E i s (.updateStatus name status) r s') :
    r = .ok ((s.world.setStatus name status).installedApps.getByName name) ∧
      s'.world = s.world.setStatus name status := by
  simpa [World.effect, eq_comm] using h.internal hE rfl

theorem Act.removed {r : Answer (.remove name)} (h : Act E i s (.remove name) r s') :
    r = .ok () ∧
      s'.world = { s.world with installedApps := s.world.installedApps.remove name } := by
  simpa [World.effect, eq_comm] using h.internal hE rfl

theorem Act.deleted {r : Answer (.rmtree name)} (h : Act E i s (.rmtree name) r s') :
    r = .ok () := by
  obtain ⟨c, hc, he⟩ := h.inv
  have hs := (hE _ _ _ _ hc).2 rfl
  cases c with
  | proceed => simpa [World.exec, World.effect, eq_comm] using (Prod.mk.inj (Option.some.inj he)).1
  | leaves dir e => simpa [World.exec, eq_comm] using (Prod.mk.inj (Option.some.inj he)).1
  | raise e | proceedRaise e => cases hs
  | docker exit stack | clock now => cases he

theorem Act.enqueued {task : InstallationTask} {r : Answer (.enqueue task)}
    (h : Act E i s (.enqueue task) r s') :
    r = .ok () ∧ s'.world = { s.world with taskQueue := s.world.taskQueue ++ [task] } := by
  simpa [World.effect, eq_comm] using h.internal hE rfl

theorem Act.dequeued {r : Answer .dequeue} (h : Act E i s .dequeue r s') :
    ∃ task tasks, s.world.taskQueue = task :: tasks ∧ r = .ok task ∧
      s'.world = { s.world with taskQueue := tasks, currentTask := some task } := by
  have he := h.internal hE rfl
  simp only [World.effect] at he
  split at he
  · cases he
  · next task tasks hq =>
    simp only [Option.some.injEq, Prod.mk.injEq] at he
    exact ⟨task, tasks, hq, he.1.symm, he.2.symm⟩

theorem Act.finished {r : Answer .taskDone} (h : Act E i s .taskDone r s') :
    r = .ok () ∧ s'.world = { s.world with currentTask := none } := by
  simpa [World.effect, eq_comm] using h.internal hE rfl

theorem Act.acquired {r : Answer (.acquire name)} (h : Act E i s (.acquire name) r s') :
    s.world.opLocks name = none ∧ r = .ok () ∧ s'.world = s.world.setLock name (some i) := by
  have he := h.internal hE rfl
  simp only [World.effect] at he
  split at he
  · next hl =>
    simp only [Option.some.injEq, Prod.mk.injEq] at he
    exact ⟨hl, he.1.symm, he.2.symm⟩
  · cases he

theorem Act.released {r : Answer (.release name)} (h : Act E i s (.release name) r s') :
    s.world.opLocks name = some i ∧ r = .ok () ∧ s'.world = s.world.setLock name none := by
  have he := h.internal hE rfl
  simp only [World.effect] at he
  split at he
  · next hl =>
    simp only [Option.some.injEq, Prod.mk.injEq] at he
    exact ⟨hl, he.1.symm, he.2.symm⟩
  · cases he

end Reliable

/-! ## Compose commands -/

theorem Act.composed {name : String} {cmd : ComposeCmd} {r : Answer (.compose name cmd)}
    (h : Act E i s (.compose name cmd) r s') (hE : E ≤ Env.daemon)
    (hcc : ∃ cc, s.world.appCompose name = .ok cc) :
    (cmd.allowed (s.world.stack name) = true ∧ r = .ok () ∧ ∃ K,
      cmd.leaves (s.world.stack name) K = true ∧
      s'.world = s.world.setStack (normalizeProjectName name) K) ∨
    (cmd.allowed (s.world.stack name) = false ∧ s'.world = s.world ∧ ∃ text,
      r = .error (.subprocessError text) ∧ staleNetwork text = false ∧
      staleContainers text = false) := by
  obtain ⟨c, hc, he⟩ := h.inv
  have hob := (hE _ _ _ _ hc).2
  obtain ⟨cc, hcc⟩ := hcc
  simp only [Env.dockerObeys, hcc] at hob
  cases c with
  | docker exit K =>
    simp only [World.exec, hcc, World.appCompose_project hcc, Option.some.injEq,
      Prod.mk.injEq] at he
    obtain ⟨rfl, hw⟩ := he
    cases exit with
    | ok u =>
      simp only [ComposeCmd.obeyed, Bool.and_eq_true] at hob
      exact .inl ⟨hob.1, rfl, K, hob.2, hw.symm⟩
    | error text =>
      simp only [ComposeCmd.obeyed, Bool.and_eq_true, Bool.not_eq_true', beq_iff_eq] at hob
      obtain ⟨⟨⟨hal, rfl⟩, hn⟩, hcon⟩ := hob
      refine .inr ⟨hal, ?_, text, rfl, hn, hcon⟩
      rw [← hw]
      unfold World.setStack World.stack
      rw [Function.update_eq_self]
  | _ => cases hob

theorem Act.composed_world {name : String} {cmd : ComposeCmd} {r : Answer (.compose name cmd)}
    (h : Act E i s (.compose name cmd) r s') :
    s'.world = s.world ∨ ∃ K, s'.world = s.world.setStack (normalizeProjectName name) K := by
  obtain ⟨c, -, he⟩ := h.inv
  obtain hw | ⟨r₀, heffect⟩ | ⟨_, _, K, hop, hw⟩ | ⟨_, _, hop, -⟩ | ⟨_, _, hdir, -⟩ := World.exec_cases he
  · exact .inl hw
  · simp only [World.effect] at heffect
    split at heffect
    · exact .inl (Prod.mk.inj (Option.some.inj heffect)).2.symm
    · cases heffect
  · cases hop
    exact .inr ⟨K, hw⟩
  · cases hop
  · cases hdir

theorem Act.not_composed {name : String} {cmd : ComposeCmd} {r : Answer (.compose name cmd)}
    (h : Act E i s (.compose name cmd) r s') {e : Exn} (hcc : s.world.appCompose name = .error e) :
    s'.world = s.world := by
  obtain ⟨c, -, he⟩ := h.inv
  cases c with
  | proceed =>
    simp only [World.exec, World.effect, hcc, Option.some.injEq, Prod.mk.injEq] at he
    exact he.2.symm
  | raise e' =>
    simp only [World.exec, Option.some.injEq, Prod.mk.injEq] at he
    exact he.2.symm
  | proceedRaise e' =>
    simp only [World.exec, World.effect, hcc, Option.map_some, Option.some.injEq,
      Prod.mk.injEq] at he
    exact he.2.symm
  | docker exit K =>
    simp only [World.exec, hcc] at he
    cases he
  | clock now => cases he
  | leaves dir e' => cases he

end Freeshard

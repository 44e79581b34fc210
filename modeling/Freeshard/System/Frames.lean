import Freeshard.System.Operations

/-! # What an operation can change

`exec_cases` splits a performed operation into the effect of the operation itself and the few
things the environment may do instead. From it follow, for each part of the world, which operations
leave it alone, and the inversion of the operations that do not. -/

namespace Freeshard
open Coroutine
set_option autoImplicit false

variable {i : Call} {w w' : World} {op : Op} {c : Choice} {r : Answer op}

namespace World

/-- The world after an operation: untouched, the operation's own effect, or what the environment
left behind after a compose command, a clock reading or an interrupted file operation. -/
theorem exec_cases (h : w.exec i op c = some (r, w')) :
    w' = w ∨ (∃ r₀, w.effect i op = some (r₀, w')) ∨
    (∃ name cmd s, op = .compose name cmd ∧ w' = w.setStack (normalizeProjectName name) s) ∨
    (∃ name now, op = .throttle name ∧
      w' = { w with lastStart := Function.update w.lastStart name (some now) }) ∨
    (∃ name dir, op.appDir = some name ∧ w' = w.setDir name dir) := by
  cases c with
  | proceed => exact .inr (.inl ⟨r, h⟩)
  | raise e =>
    cases h
    exact .inl rfl
  | proceedRaise e =>
    simp only [exec, Option.map_eq_some_iff, Prod.mk.injEq] at h
    obtain ⟨⟨r₀, w₀⟩, he, -, rfl⟩ := h
    exact .inr (.inl ⟨r₀, he⟩)
  | docker exit stack =>
    cases op with
    | compose name cmd =>
      simp only [exec] at h
      split at h
      · next cc hc =>
        cases h
        rw [appCompose_project hc]
        exact .inr (.inr (.inl ⟨name, cmd, stack, rfl, rfl⟩))
      · cases h
    | _ => cases h
  | clock now =>
    cases op with
    | throttle name =>
      simp only [exec] at h
      split at h
      · cases h
        exact .inr (.inr (.inr (.inl ⟨name, now, rfl, rfl⟩)))
      · cases h
        exact .inl rfl
    | _ => cases h
  | leaves dir e =>
    cases op with
    | rmtree name =>
      cases h
      exact .inr (.inr (.inr (.inr ⟨name, dir, rfl, rfl⟩)))
    | moveUploadedZip name _ | downloadAppZip name | extractAppZip name | unlinkZip name
    | renderTemplate name =>
      cases h
      exact .inr (.inr (.inr (.inr ⟨name, dir, rfl, rfl⟩)))
    | _ => cases h

end World

/-! ## Which operations touch what -/

def Op.writesRow (name : String) : Op → Bool
  | .insert app => app.name == name
  | .updateStatus other _ => other == name
  | .remove other => other == name
  | _ => false

def Op.locks (name : String) : Op → Bool
  | .acquire other => other == name
  | .release other => other == name
  | _ => false

def Op.queues : Op → Bool
  | .enqueue _ => true
  | .dequeue => true
  | _ => false

/-- The worker takes up or finishes a task. -/
def Op.works : Op → Bool
  | .dequeue => true
  | .taskDone => true
  | _ => false

def Op.commands (project : String) : Op → Bool
  | .compose name _ => normalizeProjectName name == project
  | _ => false

/-- `op` has changed at most what it is there to change. -/
structure Frame (op : Op) (w w' : World) : Prop where
  status : ∀ name, op.writesRow name = false → w'.status name = w.status name
  opLocks : ∀ name, op.locks name = false → w'.opLocks name = w.opLocks name
  taskQueue : op.queues = false → w'.taskQueue = w.taskQueue
  currentTask : op.works = false → w'.currentTask = w.currentTask
  stack : ∀ name, op.commands (normalizeProjectName name) = false → w'.stack name = w.stack name
  appDirs : ∀ name, op.appDir ≠ some name → w'.appDirs name = w.appDirs name

theorem Frame.refl (op : Op) (w : World) : Frame op w w :=
  ⟨fun _ _ => rfl, fun _ _ => rfl, fun _ => rfl, fun _ => rfl, fun _ _ => rfl, fun _ _ => rfl⟩

namespace World

theorem setDir_frame {op : Op} {name : String} (hop : op.appDir = some name) (w : World)
    (dir : Option AppDir) : Frame op w (w.setDir name dir) where
  status _ _ := rfl
  opLocks _ _ := rfl
  taskQueue _ := rfl
  currentTask _ := rfl
  stack _ _ := rfl
  appDirs other hne := by
    refine Function.update_of_ne (fun he => hne ?_) ..
    rw [hop, he]

theorem effect_frame (h : w.effect i op = some (r, w')) : Frame op w w' := by
  cases op with
  | insert app =>
    simp only [effect] at h
    split at h
    · next apps hins =>
      cases h
      refine ⟨fun name hop => ?_, fun _ _ => rfl, fun _ => rfl, fun _ => rfl, fun _ _ => rfl,
      fun _ _ => rfl⟩
      have hne : app.name ≠ name := by simpa [Op.writesRow] using hop
      change apps.status name = _
      rw [InstalledApps.status_insert hins, if_neg hne]
      rfl
    · cases h
      exact .refl _ _
  | updateStatus other status =>
    cases h
    refine ⟨fun name hop => ?_, fun _ _ => rfl, fun _ => rfl, fun _ => rfl, fun _ _ => rfl,
      fun _ _ => rfl⟩
    have hne : other ≠ name := by simpa [Op.writesRow] using hop
    exact setStatus_status_ne _ _ _ (Ne.symm hne)
  | remove other =>
    cases h
    refine ⟨fun name hop => ?_, fun _ _ => rfl, fun _ => rfl, fun _ => rfl, fun _ _ => rfl,
      fun _ _ => rfl⟩
    have hne : other ≠ name := by simpa [Op.writesRow] using hop
    exact InstalledApps.status_remove_ne _ (Ne.symm hne)
  | acquire other | release other =>
    simp only [effect] at h
    split at h <;> cases h
    refine ⟨fun _ _ => rfl, fun name hop => ?_, fun _ => rfl, fun _ => rfl, fun _ _ => rfl,
      fun _ _ => rfl⟩
    have hne : other ≠ name := by simpa [Op.locks] using hop
    exact setLock_opLocks_ne _ _ _ (Ne.symm hne)
  | enqueue _ =>
    cases h
    exact ⟨fun _ _ => rfl, fun _ _ => rfl, nofun, fun _ => rfl, fun _ _ => rfl, fun _ _ => rfl⟩
  | dequeue =>
    simp only [effect] at h
    split at h <;> cases h
    exact ⟨fun _ _ => rfl, fun _ _ => rfl, nofun, nofun, fun _ _ => rfl, fun _ _ => rfl⟩
  | taskDone =>
    cases h
    exact ⟨fun _ _ => rfl, fun _ _ => rfl, fun _ => rfl, nofun, fun _ _ => rfl, fun _ _ => rfl⟩
  | rmtree _ | moveUploadedZip _ _ =>
    cases h
    exact setDir_frame rfl _ _
  | downloadAppZip _ | unlinkZip _ | renderTemplate _ =>
    simp only [effect] at h
    split at h <;> cases h <;> first | exact setDir_frame rfl _ _ | exact .refl _ _
  | extractAppZip _ =>
    simp only [effect] at h
    split at h
    · split at h <;> cases h <;> first | exact setDir_frame rfl _ _ | exact .refl _ _
    · cases h
      exact .refl _ _
  | compose _ _ | composePs _ _ | inspect _ _ =>
    simp only [effect] at h
    split at h <;> cases h <;> exact .refl _ _
  | getValue _ =>
    simp only [effect] at h
    split at h <;> cases h <;> exact .refl _ _
  | throttle _ => cases h
  | writeTraefikDyn _ | setValue _ _ =>
    cases h
    exact ⟨fun _ _ => rfl, fun _ _ => rfl, fun _ => rfl, fun _ => rfl, fun _ _ => rfl,
      fun _ _ => rfl⟩
  | getAll | getByName _ | contains _ | getDefaultIdentity | onAppsUpdate | onAppInstallError _ _
  | reclaimContainer _ | getAppMetadata _ | appExistsInStore _ =>
    cases h
    exact .refl _ _

/-- Rows change only by writes to them, op locks by acquiring and releasing them, containers by
compose commands for their project, app directories by file operations on them. -/
theorem exec_frame (h : w.exec i op c = some (r, w')) : Frame op w w' := by
  obtain rfl | ⟨r₀, he⟩ | ⟨other, _, s, rfl, rfl⟩ | ⟨_, _, -, rfl⟩ | ⟨_, _, hdir, rfl⟩ :=
    exec_cases h
  · exact .refl _ _
  · exact effect_frame he
  · refine ⟨fun _ _ => rfl, fun _ _ => rfl, fun _ => rfl, fun _ => rfl, fun name hop => ?_, fun _ _ => rfl⟩
    have hne : normalizeProjectName other ≠ normalizeProjectName name := by
      simpa [Op.commands] using hop
    exact Function.update_of_ne (Ne.symm hne) ..
  · exact ⟨fun _ _ => rfl, fun _ _ => rfl, fun _ => rfl, fun _ => rfl, fun _ _ => rfl,
      fun _ _ => rfl⟩
  · exact setDir_frame hdir _ _

theorem exec_traefikDyn (h : w.exec i op c = some (r, w')) (hop : ∀ apps, op ≠ .writeTraefikDyn apps) :
    w'.traefikDyn = w.traefikDyn := by
  obtain rfl | ⟨r₀, he⟩ | ⟨_, _, _, rfl, rfl⟩ | ⟨_, _, -, rfl⟩ | ⟨_, _, -, rfl⟩ := exec_cases h
  · rfl
  · cases op with
    | writeTraefikDyn apps => exact absurd rfl (hop apps)
    | insert _ | acquire _ | release _ | compose _ _ | composePs _ _ | inspect _ _ | dequeue
    | downloadAppZip _ | unlinkZip _ | renderTemplate _ | getValue _ =>
      simp only [effect] at he
      split at he <;> cases he <;> rfl
    | extractAppZip _ =>
      simp only [effect] at he
      split at he
      · split at he <;> cases he <;> rfl
      · cases he
        rfl
    | throttle _ => cases he
    | _ =>
      cases he
      rfl
  · rfl
  · rfl
  · rfl

end World

theorem Act.traefikDyn {E : Env} {s s' : State} (h : Act E i s op r s')
    (hop : ∀ apps, op ≠ .writeTraefikDyn apps) : s'.world.traefikDyn = s.world.traefikDyn := by
  obtain ⟨c, w', -, he, rfl⟩ := h
  exact World.exec_traefikDyn he hop

theorem Act.frame {E : Env} {s s' : State} (h : Act E i s op r s') :
    Frame op s.world s'.world := by
  obtain ⟨c, w', -, he, rfl⟩ := h
  exact World.exec_frame he

theorem Act.log {E : Env} {s s' : State} (h : Act E i s op r s') :
    s'.log = ⟨i, op, r, s.world⟩ :: s.log := by
  obtain ⟨c, w', -, -, rfl⟩ := h
  rfl

theorem Act.allowed {E : Env} {s s' : State} (h : Act E i s op r s') : ∃ c, E s i op c := by
  obtain ⟨c, -, hE, -⟩ := h
  exact ⟨c, hE⟩

theorem Act.mono {E E' : Env} (hE : ∀ s i op c, E s i op c → E' s i op c) {s s' : State}
    (h : Act E i s op r s') : Act E' i s op r s' := by
  obtain ⟨c, w', ha, he⟩ := h
  exact ⟨c, w', hE _ _ _ _ ha, he⟩

/-! ## The operations that do change something -/

namespace World

/-- An operation that only the service performs (no compose command, clock or file operation) does
its effect or nothing; an exception may surface in both cases. -/
theorem exec_internal (hcmd : ∀ name cmd, op ≠ .compose name cmd)
    (hthr : ∀ name, op ≠ .throttle name) (hdir : op.appDir = none)
    (h : w.exec i op c = some (r, w')) :
    w.effect i op = some (r, w') ∨
      ∃ e, r = .error e ∧ (w' = w ∨ ∃ r₀, w.effect i op = some (r₀, w')) := by
  cases c with
  | proceed => exact .inl h
  | raise e =>
    cases h
    exact .inr ⟨e, rfl, .inl rfl⟩
  | proceedRaise e =>
    simp only [exec, Option.map_eq_some_iff, Prod.mk.injEq] at h
    obtain ⟨⟨r₀, w₀⟩, he, rfl, rfl⟩ := h
    exact .inr ⟨e, rfl, .inr ⟨r₀, he⟩⟩
  | docker exit stack =>
    cases op with
    | compose name cmd => exact absurd rfl (hcmd name cmd)
    | _ => cases h
  | clock now =>
    cases op with
    | throttle name => exact absurd rfl (hthr name)
    | _ => cases h
  | leaves dir e =>
    cases op <;> first | (simp [Op.appDir] at hdir; done) | cases h

/-- No operation raises a `CancelledError` by itself. -/
theorem effect_isException {e : Exn} (h : w.effect i op = some (.error e, w')) :
    e.isException = true := by
  cases op with
  | onAppsUpdate =>
    simp only [effect, Option.some.injEq, Prod.mk.injEq] at h
    cases hsent : w.sendAppsUpdate with
    | ok message =>
      rw [hsent] at h
      cases h.1
    | error e' =>
      rw [hsent] at h
      cases h.1
      exact sendAppsUpdate_isException hsent
  | getAppMetadata name =>
    simp only [effect, Option.some.injEq, Prod.mk.injEq] at h
    exact getAppMetadata_isException h.1
  | compose name cmd | composePs name all =>
    simp only [effect] at h
    split at h <;> cases h
    next he => exact appComposeCommand_isException he
  | extractAppZip name =>
    simp only [effect] at h
    split at h
    · split at h <;> cases h
      rfl
    · cases h
      rfl
  | insert _ | acquire _ | release _ | inspect _ _ | dequeue | downloadAppZip _ | unlinkZip _
  | renderTemplate _ | getValue _ =>
    simp only [effect] at h
    split at h <;> cases h <;> rfl
  | _ => cases h

end World
end Freeshard

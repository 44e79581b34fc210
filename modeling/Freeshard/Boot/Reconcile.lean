import Freeshard.Service.Specs

/-! # The next boot

What a new process finds of the old one, and which uninstalls `reconcile_interrupted_uninstalls`
takes up again: exactly those of the rows with an interrupted status. -/

namespace Freeshard
open Coroutine
set_option autoImplicit false

/-- What a new process finds: locks, queue and throttle lived in memory. -/
def World.reboot (w : World) : World :=
  { w with opLocks := fun _ => none, taskQueue := [], currentTask := none,
           lastStart := fun _ => none }

/-- The boot that follows enqueues an uninstall of the app. -/
def Recovered (name : String) (w : World) : Prop :=
  ∀ boot r s, Prog.Exec (Act .reliable boot) reconcileInterruptedUninstalls ⟨w.reboot, []⟩ r s →
    ⟨name, .uninstall⟩ ∈ s.world.taskQueue

variable {i : Call} {s : State} {name : String}

/-- The tasks reconciling enqueues for these rows. -/
def interruptedTasks (apps : List InstalledApp) : List InstallationTask :=
  (apps.filter fun app => app.status ∈ interruptedStatus).map fun app => ⟨app.name, .uninstall⟩

theorem mem_interruptedTasks {t : InstalledApps} :
    ⟨name, .uninstall⟩ ∈ interruptedTasks t.rows ↔ t.status name ∈ interruptedStatus.map some := by
  simp only [interruptedTasks, List.mem_map, List.mem_filter, decide_eq_true_eq]
  constructor
  · rintro ⟨app, ⟨hmem, hst⟩, happ⟩
    obtain rfl : app.name = name := by simpa using happ
    refine ⟨app.status, hst, ?_⟩
    simp [InstalledApps.status, InstalledApps.mem_rows_iff.mp hmem]
  · rintro ⟨status, hst, hrow⟩
    cases hget : t.getByName name with
    | none => simp [InstalledApps.status, hget] at hrow
    | some app =>
      obtain rfl : status = app.status := by simpa [InstalledApps.status, hget] using hrow
      have hname := InstalledApps.getByName_name hget
      refine ⟨app, ⟨InstalledApps.mem_rows_iff.mpr (by rw [hname, hget]), hst⟩, by rw [hname]⟩

section Reconcile
variable {E : Env} (hE : E ≤ Env.reliable)
include hE

theorem wp_reconcile_rows (apps : List InstalledApp) :
    (apps.forM fun app => onlyIf (app.status ∈ interruptedStatus)
      (enqueue app.name .uninstall)).wp (Act E i) (fun _ s' => s'.world =
        { s.world with taskQueue := s.world.taskQueue ++ interruptedTasks apps }) s := by
  induction apps generalizing s with
  | nil => simp [List.forM, interruptedTasks]
  | cons app apps ih =>
    refine (Prog.wp_bind _ _ _ _).mpr ?_
    dsimp only
    by_cases hst : app.status ∈ interruptedStatus
    · rw [onlyIf_pos hst]
      refine wp_enqueue hE (Prog.wp_mono ih fun _ s' h => ?_)
      rw [h]
      simp [interruptedTasks, hst]
    · rw [onlyIf_neg hst, Prog.pure_eq_ret, Prog.wp_ret]
      refine Prog.wp_mono ih fun _ s' h => ?_
      rw [h]
      simp [interruptedTasks, hst]

theorem wp_reconcile : reconcileInterruptedUninstalls.wp (Act E i) (fun _ s' => s'.world =
    { s.world with
      taskQueue := s.world.taskQueue ++ interruptedTasks s.world.installedApps.rows }) s := by
  refine (Prog.wp_bind _ _ _ _).mpr ((Prog.wp_perform _ _ _).mpr fun r s₁ ha => ?_)
  obtain ⟨rfl, hw⟩ := ha.gotAll hE
  refine Prog.wp_mono (wp_reconcile_rows hE _) fun _ s' h => ?_
  rw [h, hw]

end Reconcile

theorem uses_reconcile : reconcileInterruptedUninstalls.Uses
    fun op => op = .getAll ∨ ∃ task, op = .enqueue task := by
  refine .bind ((Prog.uses_perform _).mpr (.inl rfl)) fun apps => .forM fun app => ?_
  unfold onlyIf
  split
  · exact (Prog.uses_perform _).mpr (.inr ⟨_, rfl⟩)
  · trivial

theorem exists_reconcile (s : State) : ∃ r s',
    Prog.Exec (Act .reliable i) reconcileInterruptedUninstalls s r s' := by
  refine uses_reconcile.exists_exec ?_ s
  rintro op (rfl | ⟨task, rfl⟩) w <;>
    exact ⟨_, _, .proceed, _, ⟨fun _ => rfl, fun _ => rfl⟩, rfl, rfl⟩

/-- The boot finishes the uninstall exactly of the apps with an interrupted status. -/
theorem recovered_iff (w : World) :
    Recovered name w ↔ w.status name ∈ interruptedStatus.map some := by
  have htask : ⟨name, .uninstall⟩ ∈ interruptedTasks w.installedApps.rows ↔
      w.status name ∈ interruptedStatus.map some := mem_interruptedTasks
  rw [← htask]
  constructor
  · intro h
    obtain ⟨r, s', hrun⟩ := exists_reconcile (i := ⟨.worker, 0⟩) ⟨w.reboot, []⟩
    have hworld := hrun.wp (wp_reconcile le_rfl)
    have hmem := h _ _ _ hrun
    rw [hworld] at hmem
    simpa [World.reboot] using hmem
  · intro h boot r s' hrun
    rw [hrun.wp (wp_reconcile le_rfl)]
    simpa [World.reboot] using h

end Freeshard

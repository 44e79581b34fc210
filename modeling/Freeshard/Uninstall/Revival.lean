import Freeshard.Service.Phases

/-! # No app is revived under its uninstall

`_uninstall_app` holds the app's op lock until the row is gone, and `start_app` reads the status and
acts on it under the same lock. So from the moment the uninstall holds the lock until a new install
inserts a row, no `start_app` commands the app's containers, whatever other calls write meanwhile. -/

namespace Freeshard
open Coroutine
set_option autoImplicit false

variable {name : String} {i j : Call} {s s' : State} {op : Op} {r : Answer op} {E : Env}

/-! ## What a run has done to the app -/

namespace PastStep

/-- `_uninstall_app` takes the op lock. -/
def entersUninstall (name : String) (step : PastStep) : Bool :=
  step.event.call.role == .worker && (step.event.op == .acquire name && step.event.ok)

def createsRow (name : String) (step : PastStep) : Bool :=
  (step.before.world.status name).isNone && (step.after.status name).isSome

def deletesRow (name : String) (step : PastStep) : Bool :=
  step.event.op == .remove name && step.event.ok

end PastStep

/-- An uninstall of the app has taken the op lock, and no row has been inserted since. -/
def underUninstall (name : String) : List PastStep → Bool
  | [] => false
  | step :: steps =>
    step.entersUninstall name || (!step.createsRow name && underUninstall name steps)

/-- The row has been deleted since an uninstall of the app last took the op lock. -/
def rowDeleted (name : String) : List PastStep → Bool
  | [] => false
  | step :: steps =>
    !step.entersUninstall name && (step.deletesRow name || rowDeleted name steps)

/-- No uninstall of the app ends before it has deleted the row. -/
def Env.completing (name : String) : Env := fun s i op _ =>
  i.role = .worker → op = .release name → rowDeleted name s.steps = true

instance (s : State) (i : Call) (op : Op) (c : Choice) :
    Decidable (Env.completing name s i op c) :=
  inferInstanceAs (Decidable (_ → _ → _))

theorem entersUninstall_iff {w : World} :
    (PastStep.mk s ⟨i, op, r, s.world⟩ w).entersUninstall name = true ↔
      i.role = .worker ∧ op = .acquire name ∧ r.isOk = true := by
  simp [PastStep.entersUninstall, Event.ok]

/-! ## The invariant -/

/-- The worker holds the op lock for an uninstall of the app. -/
def UninstallLocked (name : String) (i : Call) (s : State) : Prop :=
  i.role = .worker ∧ s.phase i = .working ⟨name, .uninstall⟩ .locked

/-- `start_app` holds the op lock. -/
def StartLocked (j : Call) (s : State) : Prop :=
  j.role = .startApp ∧ (s.phase j = .holding ∨ s.phase j = .engaged)

structure Guarded (name : String) (s : State) : Prop where
  uninstall : ∀ i, UninstallLocked name i s → s.world.opLocks name = some i
  start : ∀ j, StartLocked j s → s.world.opLocks name = some j
  gone : underUninstall name s.steps = true → s.world.status name = none ∨
    ∃ i, UninstallLocked name i s ∧ rowDeleted name s.steps = false
  engaged : ∀ j, j.role = .startApp → s.phase j = .engaged → underUninstall name s.steps = false

/-- A call that holds the lock in the phases `Q` has taken it to get there, and does not give it up. -/
theorem holder_step {Q : Phase → Prop} (ha : Act E i s op r s')
    (hheld : Q (s.phase j) → s.world.opLocks name = some j)
    (hown : j = i → Q (s'.phase i) →
      (op = .acquire name ∧ r.isOk = true) ∨ (Q (s.phase i) ∧ op ≠ .release name)) (hj : Q (s'.phase j)) :
    s'.world.opLocks name = some j := by
  by_cases hji : j = i
  · subst hji
    obtain ⟨rfl, hok⟩ | ⟨hl, hne⟩ := hown rfl hj
    · rw [(ha.acquire_ok hok).2]
      exact World.setLock_opLocks_self _ _ _
    · exact ha.lock_kept (hheld hl) fun he => absurd he hne
  · rw [ha.phase_other hji] at hj
    exact ha.lock_kept (hheld hj) fun _ => Ne.symm hji

namespace Guarded

theorem uninstall_step (h : Guarded name s) (ha : Act E i s op r s')
    (hop : (protocol name i.role).allows (s.phase i) op) (hj : UninstallLocked name j s') :
    s'.world.opLocks name = some j := by
  obtain ⟨hrole, hphase⟩ := hj
  refine holder_step (Q := (· = .working ⟨name, .uninstall⟩ .locked)) ha (fun hl => h.uninstall j ⟨hrole, hl⟩)
    (fun hji hphase => ?_) hphase
  subst hji
  rw [ha.phase_self, hrole] at hphase
  rw [hrole] at hop
  exact WorkerAllows.locked_cases hop hphase

theorem start_step (h : Guarded name s) (ha : Act E i s op r s')
    (hop : (protocol name i.role).allows (s.phase i) op) (hj : StartLocked j s') :
    s'.world.opLocks name = some j := by
  obtain ⟨hrole, hphase⟩ := hj
  refine holder_step (Q := fun l => l = .holding ∨ l = .engaged) ha (fun hl => h.start j ⟨hrole, hl⟩)
    (fun hji hphase => ?_) hphase
  subst hji
  rw [ha.phase_self, hrole] at hphase
  rw [hrole] at hop
  obtain hacquired | ⟨hl, hne⟩ := Phase.afterStart_cases hop hphase
  · exact .inl hacquired
  · exact .inr ⟨hl, hne name⟩

theorem gone_step (h : Guarded name s) (ha : Act (.completing name) i s op r s')
    (hop : (protocol name i.role).allows (s.phase i) op)
    (hunder : underUninstall name s'.steps = true) :
    s'.world.status name = none ∨
      ∃ j, UninstallLocked name j s' ∧ rowDeleted name s'.steps = false := by
  rw [ha.follows.steps, underUninstall] at hunder
  rw [ha.follows.steps, rowDeleted]
  cases henters : (PastStep.mk s ⟨i, op, r, s.world⟩ s'.world).entersUninstall name with
  | true =>
    obtain ⟨hrole, rfl, hok⟩ := entersUninstall_iff.mp henters
    refine .inr ⟨i, ⟨hrole, ?_⟩, rfl⟩
    rw [hrole] at hop
    rw [ha.phase_self, hrole, show s.phase i = .working ⟨name, .uninstall⟩ .fresh from hop]
    cases r with
    | ok u => rfl
    | error e => cases hok
  | false =>
    rw [henters, Bool.false_or, Bool.and_eq_true, Bool.not_eq_true'] at hunder
    obtain ⟨hcreates, hunder⟩ := hunder
    obtain hnone | ⟨j, ⟨hrole, hphase⟩, hkept⟩ := h.gone hunder
    · rw [PastStep.createsRow, hnone, Option.isNone_none, Bool.true_and] at hcreates
      exact .inl (Option.not_isSome_iff_eq_none.mp (by simp [hcreates]))
    · cases hdeletes : (PastStep.mk s ⟨i, op, r, s.world⟩ s'.world).deletesRow name with
      | true =>
        rw [PastStep.deletesRow, Bool.and_eq_true, beq_iff_eq] at hdeletes
        obtain ⟨rfl, hok⟩ := hdeletes
        exact .inl (ha.remove_ok hok)
      | false =>
        refine .inr ⟨j, ⟨hrole, ?_⟩, by rw [hkept]; rfl⟩
        by_cases hji : j = i
        · subst hji
          rw [hrole] at hop
          rw [ha.phase_self, hrole]
          refine WorkerAllows.locked_kept hop hphase fun hrelease => ?_
          obtain ⟨c, hc⟩ := ha.allowed
          rw [hc hrole hrelease] at hkept
          cases hkept
        · rw [ha.phase_other hji, hphase]

theorem engaged_step (h : Guarded name s) (ha : Act E i s op r s')
    (hop : (protocol name i.role).allows (s.phase i) op) (hrole : j.role = .startApp)
    (hphase : s'.phase j = .engaged) : underUninstall name s'.steps = false := by
  have hengaged := ha.engaged_cases hop (by rw [hrole]; rfl) hphase
  have hlocked : StartLocked j s := by
    obtain hl | ⟨-, -, hl, -⟩ := hengaged
    · exact ⟨hrole, .inr hl⟩
    · exact ⟨hrole, .inl (hl hrole)⟩
  have hunder : underUninstall name s.steps = false := by
    by_contra hunder
    obtain hnone | ⟨k, hk, -⟩ := h.gone (Bool.not_eq_false _ ▸ hunder)
    · obtain hl | ⟨-, -, -, status, -, hst⟩ := hengaged
      · exact hunder (h.engaged j hrole hl)
      · rw [hnone] at hst
        cases hst
    · have hkj := (h.uninstall k hk).symm.trans (h.start j hlocked)
      obtain rfl := Option.some.inj hkj
      rw [hk.1] at hrole
      cases hrole
  rw [ha.follows.steps, underUninstall, hunder, Bool.and_false, Bool.or_false]
  by_contra henters
  obtain ⟨-, rfl, hok⟩ := entersUninstall_iff.mp (Bool.not_eq_false _ ▸ henters)
  have hfree := (ha.acquire_ok hok).1
  rw [h.start j hlocked] at hfree
  cases hfree

end Guarded

theorem Guarded.step (h : Guarded name s) (ha : Act (.completing name) i s op r s')
    (hop : (protocol name i.role).allows (s.phase i) op) : Guarded name s' where
  uninstall _ hj := h.uninstall_step ha hop hj
  start _ hj := h.start_step ha hop hj
  gone hunder := h.gone_step ha hop hunder
  engaged _ hrole hphase := h.engaged_step ha hop hrole hphase

theorem Guarded.initial (w : World) : Guarded name ⟨w, []⟩ where
  uninstall _ hj := by cases hj.2
  start _ hj := by obtain ⟨-, hphase | hphase⟩ := hj <;> cases hphase
  gone hunder := by cases hunder
  engaged _ _ hphase := by cases hphase

/-! ## Main result -/

/-- As long as no uninstall of the app ends before it has deleted the row, `start_app` commands
the app's containers only while no uninstall holds the lock, nor has held it since the row was last
inserted. -/
theorem start_app_spares_uninstalled {roles : List Role} {name : String} {w : World}
    {c : Config Op Ans Exn State Call} (h : Runs (.completing name) roles name w c) :
    ∀ step ∈ c.state.steps, step.event.call.role = .startApp →
      ∀ cmd, step.event.op = .compose name cmd → underUninstall name step.before.steps = false := by
  refine (h.always (I := Guarded name) (fun i s op r s' _ hop hs ha => ?_) (.initial w)).2
  refine ⟨hs.step ha hop, ?_⟩
  intro hrole cmd hcmd
  obtain rfl : op = .compose name cmd := hcmd
  have hrole' : i.role = .startApp := hrole
  exact hs.engaged i hrole' (engaged_of_acts hop (by rw [hrole']; rfl) rfl)

/-- An app is started and uninstalled, and then started in vain. -/
theorem start_app_spares_uninstalled_run : ∃ c,
    Runs (.completing "app") [.startApp, .uninstallRequest, .worker] "app"
      (.withApp "app" .stopped (.single .exited)) c ∧
    underUninstall "app" c.state.steps = true ∧
    ∀ step ∈ c.state.steps, step.event.call.role = .startApp →
      ∀ cmd, step.event.op = .compose "app" cmd →
        underUninstall "app" step.before.steps = false := by
  let start (n : ℕ) : Call := ⟨.startApp, n⟩
  let request : Call := ⟨.uninstallRequest, 0⟩
  let worker : Call := ⟨.worker, 0⟩
  obtain ⟨c, hrun, hunder⟩ := exists_run (.completing "app")
    [.startApp, .uninstallRequest, .worker] "app" (.withApp "app" .stopped (.single .exited)) 1
    (Cue.start (start 0) :: Cue.fires (start 0) (Choice.clock 10 :: List.replicate 4 Choice.proceed ++
        [Choice.docker (.ok ()) (.single .running)] ++ List.replicate 3 Choice.proceed) ++
      Cue.start request :: Cue.fires request (List.replicate 5 Choice.proceed) ++
      Cue.start worker :: Cue.fires worker (List.replicate 6 Choice.proceed ++
        [Choice.docker (.ok ()) (.single .exited)] ++ List.replicate 3 Choice.proceed ++
        [Choice.docker (.ok ()) .empty] ++ List.replicate 10 Choice.proceed) ++
      Cue.start (start 1) :: Cue.fires (start 1) (.clock 20 :: List.replicate 3 Choice.proceed))
    (fun s => underUninstall "app" s.steps) (by decide) (by decide +kernel)
  exact ⟨c, hrun, hunder, start_app_spares_uninstalled hrun⟩

end Freeshard

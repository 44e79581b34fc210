import Freeshard.Boot.Reconcile
import Freeshard.Service.Footprints

/-! # Crashes during an uninstall

A crash leaves the database as it stands at some state of the run; the next boot knows only the
status column. `reconcile_interrupted_uninstalls` finds an app whose status is one of
`interruptedStatus`, but `docker_stop_app` replaces UNINSTALLING by STOPPED in the middle of the
teardown: from then on a crash strands the app. -/

namespace Freeshard
open Coroutine
set_option autoImplicit false

variable {i : Call} {s : State} {name : String}

/-! ## What a run has been through -/

/-- UNINSTALLATION_QUEUED has been stored and the row is not deleted yet. -/
def CrashPoint (name : String) (s : State) : Prop :=
  Succeeded (.updateStatus name .uninstallationQueued) s.log ∧ ¬Succeeded (.remove name) s.log

instance (name : String) (s : State) : Decidable (CrashPoint name s) :=
  inferInstanceAs (Decidable (_ ∧ _))

/-- The same for an uninstall that may have been accepted before the run. -/
def Outstanding (before : Prop) (name : String) (s : State) : Prop :=
  (before ∨ Succeeded (.updateStatus name .uninstallationQueued) s.log) ∧
    ¬Succeeded (.remove name) s.log

theorem outstanding_false : Outstanding False name s ↔ CrashPoint name s := by
  simp [Outstanding, CrashPoint]

/-- Every crash so far would have been recovered from. -/
def Safe (before : Prop) (name : String) (s : State) : Prop :=
  ∀ v ∈ s.history, Outstanding before name v → Recovered name v.world

/-- Docker has stopped the app's containers. -/
abbrev Stopped (name : String) (s : State) : Prop := Succeeded (.compose name .stop) s.log

/-- STOPPED has been stored for the app. -/
abbrev StoredStopped (name : String) (s : State) : Prop :=
  Succeeded (.updateStatus name .stopped) s.log

variable {before : Prop} {op : Op} {r : Answer op} {s' : State}

theorem safe_step (ha : s'.Follows i op r s) :
    Safe before name s' ↔ (Outstanding before name s' → Recovered name s'.world) ∧
      Safe before name s := by
  unfold Safe
  rw [ha.history]
  simp only [List.mem_cons, forall_eq_or_imp]

/-- The teardown is under way, safe so far, and the containers are still there. -/
structure Tearing (before : Prop) (name : String) (status : Status) (s : State) : Prop where
  status_eq : s.world.status name = some status
  interrupted : status ∈ interruptedStatus
  outstanding : Outstanding before name s
  safe : Safe before name s
  not_stopped : ¬Stopped name s
  not_stored : ¬StoredStopped name s

/-- The containers are stopped, but the status does not say so yet. -/
structure Halted (before : Prop) (name : String) (s : State) : Prop where
  status_eq : s.world.status name = some .uninstalling
  outstanding : Outstanding before name s
  safe : Safe before name s
  stopped : Stopped name s
  not_stored : ¬StoredStopped name s

/-- Safe, and it will stay so: the row is interrupted or gone. -/
structure Kept (before : Prop) (name : String) (s : State) : Prop where
  row : s.world.status name ∈ interruptedStatus.map some ∨ Succeeded (.remove name) s.log
  safe : Safe before name s
  not_stopped : ¬Stopped name s
  not_stored : ¬StoredStopped name s

/-- The status has given the app away. -/
structure Broken (before : Prop) (name : String) (s : State) : Prop where
  stopped : Stopped name s
  not_safe : ¬Safe before name s

theorem Tearing.kept {status : Status} (h : Tearing before name status s) : Kept before name s :=
  ⟨.inl (h.status_eq ▸ List.mem_map_of_mem h.interrupted), h.safe, h.not_stopped, h.not_stored⟩

theorem Outstanding.step (h : Outstanding before name s) (ha : s'.Follows i op r s)
    (hrem : op ≠ .remove name) : Outstanding before name s' :=
  ⟨h.1.imp_right fun hs => (ha.succeeded _).mpr (.inr hs),
    fun hs => h.2 ((ha.succeeded_of_ne hrem).mp hs)⟩

theorem safe_of_interrupted {status : Status} (h : Safe before name s) (ha : s'.Follows i op r s)
    (hst : s'.world.status name = some status) (hint : status ∈ interruptedStatus) : Safe before name s' := by
  refine (safe_step ha).mpr ⟨fun _ => ?_, h⟩
  rw [recovered_iff, hst]
  exact List.mem_map_of_mem hint

/-- What every operation but a successful stop keeps, if it leaves an interrupted status. -/
theorem Tearing.step {status status' : Status} (h : Tearing before name status s)
    (ha : s'.Follows i op r s) (hst : s'.world.status name = some status')
    (hint : status' ∈ interruptedStatus) (hrem : op ≠ .remove name)
    (hstop : op = .compose name .stop → r.isOk = false)
    (hstored : op ≠ .updateStatus name .stopped) : Tearing before name status' s' where
  status_eq := hst
  interrupted := hint
  outstanding := h.outstanding.step ha hrem
  safe := safe_of_interrupted h.safe ha hst hint
  not_stopped hs := by
    obtain ⟨hop, hok⟩ | hs := (ha.succeeded _).mp hs
    · rw [hstop hop] at hok
      cases hok
    · exact h.not_stopped hs
  not_stored hs := h.not_stored ((ha.succeeded_of_ne hstored).mp hs)

theorem Tearing.halted {r : Answer (.compose name .stop)} (h : Tearing before name .uninstalling s)
    (ha : s'.Follows i (.compose name .stop) r s) (hr : r.isOk = true)
    (hst : s'.world.status name = some .uninstalling) : Halted before name s' where
  status_eq := hst
  outstanding := h.outstanding.step ha nofun
  safe := safe_of_interrupted h.safe ha hst (by decide)
  stopped := (ha.succeeded _).mpr (.inl ⟨rfl, hr⟩)
  not_stored hs := by
    have hne : Op.compose name .stop ≠ .updateStatus name .stopped := nofun
    exact h.not_stored ((ha.succeeded_of_ne hne).mp hs)

theorem Kept.step (h : Kept before name s) (ha : s'.Follows i op r s)
    (hst : op = .remove name → r.isOk = true)
    (hrow : op ≠ .remove name → s'.world.status name = s.world.status name)
    (hstop : op ≠ .compose name .stop) (hstored : op ≠ .updateStatus name .stopped) :
    Kept before name s' := by
  have hrow' : s'.world.status name ∈ interruptedStatus.map some ∨
      Succeeded (.remove name) s'.log := by
    by_cases hrem : op = .remove name
    · exact .inr ((ha.succeeded _).mpr (.inl ⟨hrem, hst hrem⟩))
    · rw [hrow hrem, ha.succeeded_of_ne hrem]
      exact h.row
  refine ⟨hrow', (safe_step ha).mpr ⟨fun hc => ?_, h.safe⟩, fun hs => h.not_stopped ?_,
    fun hs => h.not_stored ?_⟩
  · rw [recovered_iff]
    exact hrow'.resolve_right hc.2
  · exact (ha.succeeded_of_ne hstop).mp hs
  · exact (ha.succeeded_of_ne hstored).mp hs

theorem Broken.step (h : Broken before name s) (ha : s'.Follows i op r s) : Broken before name s' :=
  ⟨(ha.succeeded _).mpr (.inr h.stopped), fun hs => h.not_safe ((safe_step ha).mp hs).2⟩

/-- Storing STOPPED breaks the run. -/
theorem Halted.broken {r : Answer (.updateStatus name .stopped)} (h : Halted before name s) :
    Broken before name (s.next i (.updateStatus name .stopped) r (s.world.setStatus name .stopped)) := by
  have ha : (s.next i (.updateStatus name .stopped) r (s.world.setStatus name .stopped)).Follows i
      (.updateStatus name .stopped) r s := State.follows_next
  refine ⟨(ha.succeeded _).mpr (.inr h.stopped), fun hsafe => ?_⟩
  have hrecovered := (recovered_iff _).mp (((safe_step ha).mp hsafe).1 (h.outstanding.step ha nofun))
  change (s.world.setStatus name .stopped).status name ∈ _ at hrecovered
  rw [World.setStatus_status_self, h.status_eq] at hrecovered
  exact absurd hrecovered (by decide)

/-! ## The task -/

theorem wp_sendOnAppsUpdate_tearing {status : Status} (h : Tearing before name status s) :
    sendOnAppsUpdate.wp (Act .reliable i) (fun _ s' => Tearing before name status s') s :=
  wp_sendOnAppsUpdate fun _ =>
    h.step State.follows_next h.status_eq h.interrupted nofun nofun nofun

theorem wp_updateAppStatus_tearing {status status' : Status} (h : Tearing before name status s)
    (hint : status' ∈ interruptedStatus) :
    (updateAppStatus name status').wp (Act .reliable i) (fun _ s' => Tearing before name status' s') s := by
  have hstored : Op.updateStatus name status' ≠ .updateStatus name .stopped := by
    rintro ⟨⟩
    exact absurd hint (by decide)
  refine wp_updateAppStatus le_rfl (by simp [h.status_eq]) fun row => ?_
  refine wp_sendOnAppsUpdate_tearing (h.step State.follows_next ?_ hint nofun nofun hstored)
  rw [World.setStatus_status_self, h.status_eq, Option.map_some]

theorem Tearing.looked {status : Status} (h : Tearing before name status s) :
    Tearing before name status (s.looked i name) :=
  h.step State.follows_next h.status_eq h.interrupted nofun nofun nofun

theorem wp_markUninstalling_tearing {status : Status} (h : Tearing before name status s) :
    (Worker.markUninstalling name).wp (Act .reliable i)
      (fun _ s' => Tearing before name .uninstalling s') s := by
  refine (Prog.wp_tryCatch _ _ _ _).mpr ((Prog.wp_bind _ _ _ _).mpr (wp_getAppFromDb le_rfl ?_))
  have hst := h.status_eq
  cases hrow : s.world.installedApps.getByName name with
  | none => simp [World.status, InstalledApps.status, hrow] at hst
  | some app =>
    have happ : app.status = status := by
      simpa [World.status, InstalledApps.status, hrow] using hst
    have hpaused : app.status ≠ .paused := by
      rintro he
      exact absurd (he ▸ happ ▸ h.interrupted) (by decide)
    dsimp only
    rw [onlyIf_neg hpaused, pure_bind]
    refine Prog.wp_mono (wp_updateAppStatus_tearing h.looked (by decide)) ?_
    rintro (e | u) s' h'
    · cases e <;> exact h'
    · exact h'

/-! What holds once STOPPED is stored, `B`, has to be kept by what the teardown still does then. -/

/-- What the teardown does after it has stored STOPPED. -/
abbrev afterStop : Footprint :=
  { statuses := [.down], commands := [.unpause, .down], locks := true, removes := true }

section AfterStop
variable {B : State → Prop}
variable (hstored : ∀ s row, Halted before name s → B (s.next i (.updateStatus name .stopped) (.ok row)
    (s.world.setStatus name .stopped)))
variable (hB : ∀ op, afterStop.Covers name op → ∀ s r s', B s → Act .reliable i s op r s' → B s')
include hstored hB

/-- `docker_stop_app` either fails and leaves everything as it is, or stores STOPPED. -/
theorem wp_dockerStopApp_tearing (h : Tearing before name .uninstalling s) :
    (dockerStopApp name true).wp (Act .reliable i) (fun r s' =>
      (r.isOk = false ∧ Tearing before name .uninstalling s') ∨ B s') s := by
  have hst := h.status_eq
  refine wp_dockerStopApp le_rfl (by simp [hst, stoppableStatus]) (by simp [hst]) ?_
  have hl : Tearing before name .uninstalling (s.looked i name) := h.looked
  refine (Prog.wp_bind _ _ _ _).mpr ((Prog.wp_perform _ _ _).mpr fun r s₁ ha => ?_)
  have hst₁ : s₁.world.status name = some .uninstalling :=
    (ha.frame.status name rfl).trans hl.status_eq
  cases r with
  | error e => exact .inl ⟨rfl, hl.step ha.follows hst₁ (by decide) nofun (fun _ => rfl) nofun⟩
  | ok u =>
    refine (Prog.wp_bind _ _ _ _).mpr (wp_writeStatus le_rfl fun row => ?_)
    have hafter := hstored s₁ row (hl.halted ha.follows rfl hst₁)
    refine (Prog.wp_perform _ _ _).mpr fun r s₂ ha₂ => .inr ?_
    exact hB .onAppsUpdate trivial _ _ _ hafter ha₂

/-- Stopping and shutting down either fails before anything is stopped, or stores STOPPED. -/
theorem wp_stopAndShutdown_tearing (h : Tearing before name .uninstalling s) :
    (exceptException
      (do
        dockerStopApp name true
        dockerShutdownApp name true false)
      fun _ => pure ()).wp (Act .reliable i) (fun _ s' => Kept before name s' ∨ B s') s := by
  refine wp_swallow (Prog.wp_bind_of (wp_dockerStopApp_tearing hstored hB h) ?_ ?_)
  · rintro u s₁ (⟨⟨⟩, -⟩ | h₁)
    have hshutdown : Bounded afterStop name (dockerShutdownApp name true false) :=
      (bounds_dockerShutdownApp true false).mono (by decide)
    exact Prog.wp_mono (hshutdown.uses.wp hB h₁) fun _ _ h => .inr h
  · rintro e s₁ (⟨-, h₁⟩ | h₁)
    · exact .inl h₁.kept
    · exact .inr h₁

omit hstored hB in
/-- Operations of a footprint that neither writes a status nor issues a command. -/
theorem Kept.covered {f : Footprint} (hst : f.statuses = []) (hcmd : f.commands = [])
    (hins : f.inserts = false) (h : Kept before name s) (hop : f.Covers name op)
    (ha : Act .reliable i s op r s') : Kept before name s' := by
  refine h.step ha.follows ?_ (fun hrem => ha.frame.status name ?_) ?_ ?_
  · rintro rfl
    rw [(ha.removed le_rfl).1]
    rfl
  · cases op with
    | insert app => simp [Footprint.Covers, hins] at hop
    | updateStatus other status => simp [Footprint.Covers, hst] at hop
    | remove other => exact absurd (congrArg Op.remove hop.1) hrem
    | _ => rfl
  · rintro rfl
    simp [Footprint.Covers, hcmd] at hop
  · rintro rfl
    simp [Footprint.Covers, hst] at hop

theorem wp_worker_uninstallApp_tearing {status : Status} (h : Tearing before name status s) :
    (Worker.uninstallApp name).wp (Act .reliable i)
      (fun _ s' => Kept before name s' ∨ B s') s := by
  refine (Prog.wp_bind _ _ _ _).mpr ((Prog.wp_perform _ _ _).mpr fun r s₁ ha => ?_)
  obtain ⟨-, rfl, hw⟩ := ha.acquired le_rfl
  have h₁ := h.step ha.follows (by rw [hw]; exact h.status_eq) h.interrupted nofun nofun nofun
  have hstep : ∀ op, Footprint.Covers { removes := true, locks := true } name op →
      ∀ (w : State) (r : Answer op) (w' : State), Kept before name w ∨ B w →
        Act .reliable i w op r w' → Kept before name w' ∨ B w' := by
    rintro op hop w r w' (hw | hw) ha
    · exact .inl (hw.covered rfl rfl rfl hop ha)
    · exact .inr (hB op (hop.mono (by decide)) _ _ _ hw ha)
  refine Prog.wp_tryFinally_same ?_ ?_
  · refine Prog.wp_bind_of (wp_markUninstalling_tearing h₁) (fun _ s₂ h₂ => ?_)
      fun _ _ h₂ => .inl h₂.kept
    refine Prog.wp_bind_of (wp_stopAndShutdown_tearing hstored hB h₂) (fun _ s₃ h₃ => ?_) fun _ _ h => h
    have hb : Bounded { removes := true, locks := true } name _ := Worker.bounds_cleanup rfl
    exact Prog.Uses.wp hb.uses hstep h₃
  · intro s₄ h₄
    exact (Prog.wp_perform _ _ _).mpr fun r s₅ ha => hstep (.release name) ⟨rfl, rfl⟩ _ _ _ h₄ ha

end AfterStop

/-! ## The request, then the task -/

theorem wp_uninstallApp_tearing {w : World}
    (hbefore : before → w.status name ∈ interruptedStatus.map some) :
    (uninstallApp name).wp (Act .reliable i)
      (fun r s' => r = .ok () → Tearing before name .uninstallationQueued s') ⟨w, []⟩ := by
  refine (Prog.wp_bind _ _ _ _).mpr (wp_appExistsInDb le_rfl ?_)
  dsimp only
  by_cases hrow : w.installedApps.contains name = true
  · rw [raiseUnless_pos hrow, pure_bind]
    rw [InstalledApps.contains_eq] at hrow
    obtain ⟨status, hst⟩ := Option.isSome_iff_exists.mp hrow
    have htear : ∀ r row, Tearing before name .uninstallationQueued
        ((State.next ⟨w, []⟩ i (.contains name) (.ok r) w).next i
          (.updateStatus name .uninstallationQueued) (.ok row)
          (w.setStatus name .uninstallationQueued)) := by
      intro r row
      have hset : (w.setStatus name .uninstallationQueued).status name =
          some .uninstallationQueued := by
        rw [World.setStatus_status_self, World.status, hst, Option.map_some]
      refine ⟨hset, by decide, ?_, ?_, ?_, ?_⟩
      · simp [Outstanding, Succeeded, Event.ok, Except.isOk, Except.toBool]
      · rw [safe_step State.follows_next, safe_step State.follows_next, recovered_iff, hset]
        refine ⟨fun _ => by decide, fun hc => ?_, fun v hv hc => ?_⟩
        · rw [recovered_iff]
          exact hbefore (by simpa [Outstanding, Succeeded] using hc)
        · obtain rfl : v = ⟨w, []⟩ := by simpa [State.history, past] using hv
          rw [recovered_iff]
          exact hbefore (by simpa [Outstanding, Succeeded] using hc)
      · simp [Stopped, Succeeded]
      · simp [StoredStopped, Succeeded]
    refine Prog.wp_bind_of (wp_updateAppStatus le_rfl (by simp [World.status, hst]) fun row =>
      wp_sendOnAppsUpdate_tearing (htear _ row)) (fun _ s₁ h₁ => ?_) fun _ _ _ h => by cases h
    refine (Prog.wp_bind _ _ _ _).mpr (wp_enqueue le_rfl ?_)
    refine Prog.wp_mono (wp_sendOnAppsUpdate_tearing ?_) fun _ _ h _ => h
    exact h₁.step State.follows_next h₁.status_eq h₁.interrupted (fun h => by cases h)
      (fun h => by cases h) fun h => by cases h
  · rw [raiseUnless_neg hrow]
    exact fun h => by cases h

/-- Every crash between the request's status write and the deletion of the row is recovered from
by the next boot, exactly if the teardown's `stop` never succeeds. -/
theorem uninstall_recoverable_iff {request worker : Call} {w : World} {s₁ s₂ : State}
    {r : Except Exn Unit}
    (hreq : Prog.Exec (Act .reliable request) (uninstallApp name) ⟨w, []⟩ (.ok ()) s₁)
    (htask : Prog.Exec (Act .reliable worker) (Worker.process ⟨name, .uninstall⟩) s₁ r s₂) :
    (∀ v ∈ s₂.history, CrashPoint name v → Recovered name v.world) ↔ ¬Stopped name s₂ := by
  have hsafe : (∀ v ∈ s₂.history, CrashPoint name v → Recovered name v.world) ↔ Safe False name s₂ := by
    simp only [Safe, outstanding_false]
  have hbroken : ∀ op, afterStop.Covers name op → ∀ (s : State) (r : Answer op) (s' : State),
      Broken False name s → Act .reliable worker s op r s' → Broken False name s' :=
    fun _ _ _ _ _ hs ha => hs.step ha.follows
  have h₁ := hreq.wp (wp_uninstallApp_tearing False.elim) rfl
  rw [hsafe]
  obtain h₂ | h₂ := htask.wp (wp_worker_uninstallApp_tearing (fun _ _ h => h.broken) hbroken h₁)
  · exact iff_of_true h₂.safe h₂.not_stopped
  · exact iff_of_false h₂.not_safe (not_not_intro h₂.stopped)

/-- A failing `stop` leaves every crash recoverable. -/
theorem uninstall_recoverable_failing_stop : ∃ r s₁ s₂,
    Prog.Exec (Act .reliable ⟨.uninstallRequest, 0⟩) (uninstallApp "app")
      ⟨.withApp "app" .running (.single .running), []⟩ (.ok ()) s₁ ∧
    Prog.Exec (Act .reliable ⟨.worker, 0⟩) (Worker.process ⟨"app", .uninstall⟩) s₁ r s₂ ∧
    ∀ v ∈ s₂.history, CrashPoint "app" v → Recovered "app" v.world := by
  obtain ⟨r, s₁, s₂, hreq, htask, hP⟩ := State.exists_exec_then .reliable
    ⟨.uninstallRequest, 0⟩ ⟨.worker, 0⟩ (uninstallApp "app") (Worker.process ⟨"app", .uninstall⟩)
    ⟨.withApp "app" .running (.single .running), []⟩
    (List.replicate 5 Choice.proceed)
    (List.replicate 5 Choice.proceed ++ [Choice.docker (.error "timeout") (.single .running)] ++
      List.replicate 7 Choice.proceed)
    (fun s => decide ¬Stopped "app" s) (by decide)
  exact ⟨r, s₁, s₂, hreq, htask, (uninstall_recoverable_iff hreq htask).mpr (of_decide_eq_true hP)⟩

/-- Stopping a running app leaves a crash that no boot recovers from. -/
theorem uninstall_strands_stopped : ¬ ∀ (name : String) (request worker : Call) (w : World)
    (s₁ s₂ : State) (r : Except Exn Unit),
    Prog.Exec (Act .reliable request) (uninstallApp name) ⟨w, []⟩ (.ok ()) s₁ →
    Prog.Exec (Act .reliable worker) (Worker.process ⟨name, .uninstall⟩) s₁ r s₂ →
    ∀ v ∈ s₂.history, CrashPoint name v → Recovered name v.world := by
  intro h
  obtain ⟨r, s₁, s₂, hreq, htask, hP⟩ := State.exists_exec_then .reliable
    ⟨.uninstallRequest, 0⟩ ⟨.worker, 0⟩ (uninstallApp "app") (Worker.process ⟨"app", .uninstall⟩)
    ⟨.withApp "app" .running (.single .running), []⟩
    (List.replicate 5 Choice.proceed)
    (List.replicate 5 Choice.proceed ++ [Choice.docker (.ok ()) (.single .exited)] ++
      List.replicate 3 Choice.proceed ++ [Choice.docker (.ok ()) .empty] ++ List.replicate 9 Choice.proceed)
    (fun s => s.history.any fun v =>
      decide (CrashPoint "app" v) && v.world.status "app" == some .stopped) (by decide)
  obtain ⟨v, hv, hst⟩ := List.any_eq_true.mp hP
  rw [Bool.and_eq_true, beq_iff_eq] at hst
  have hrec := (recovered_iff _).mp (h _ _ _ _ _ _ _ hreq htask v hv (of_decide_eq_true hst.1))
  rw [hst.2] at hrec
  exact absurd hrec (by decide)

end Freeshard

import Freeshard.Service.Footprints
import Freeshard.Service.Specs

/-! # What a reinstall does to the old containers

The request, then the worker's task, Docker carrying out what it allows. `_reinstall_app` has
stored REINSTALLING when it calls `docker_stop_app` and `docker_shutdown_app`, and neither acts on
an app with that status: the old containers are never stopped nor removed, and whatever was running
or paused still is when the status says STOPPED. -/

namespace Freeshard
open Coroutine
set_option autoImplicit false

/-- `stop` and `down` were issued before the app's directory was deleted. -/
def TornDown (name : String) (log : List Event) : Prop :=
  ∃ later e earlier, log = later ++ e :: earlier ∧ e.op = .rmtree name ∧
    Issued (.compose name .stop) earlier ∧ Issued (.compose name .down) earlier

/-- No command but the creation of containers has been issued, and the app is as live as it was. -/
structure Untouched (name : String) (live : Bool) (s : State) : Prop where
  live_eq : (s.world.stack name).live = live
  issued : ∀ cmd, Issued (.compose name cmd) s.log → cmd = .upNoStart

variable {i : Call} {s s' : State} {op : Op} {r : Answer op} {name : String} {live : Bool}

theorem Untouched.not_tornDown (h : Untouched name live s) : ¬TornDown name s.log := by
  rintro ⟨later, e, earlier, hlog, -, ⟨e', he', hop⟩, -⟩
  have hstop : Issued (.compose name .stop) s.log := by
    refine ⟨e', ?_, hop⟩
    rw [hlog]
    exact List.mem_append_right _ (List.mem_cons_of_mem _ he')
  cases h.issued _ hstop

theorem Untouched.step (h : Untouched name live s) (ha : s'.Follows i op r s)
    (hcmd : ∀ cmd, op ≠ .compose name cmd)
    (hstack : s'.world.stack name = s.world.stack name) : Untouched name live s' := by
  refine ⟨by rw [hstack, h.live_eq], fun cmd hiss => ?_⟩
  exact h.issued cmd (((ha.issued _).mp hiss).resolve_left (hcmd cmd))

theorem Untouched.covered {f : Footprint} (hf : f.commands ⊆ [.upNoStart])
    (h : Untouched name live s) (hop : f.Covers name op) (ha : Act .daemon i s op r s') :
    Untouched name live s' := by
  cases op with
  | compose other cmd =>
    obtain ⟨rfl, hmem⟩ := hop
    obtain rfl := List.mem_singleton.mp (hf hmem)
    constructor
    · cases hcc : s.world.appCompose other with
      | error e => rw [ha.not_composed hcc, h.live_eq]
      | ok cc =>
        obtain ⟨-, -, K, hK, hw⟩ | ⟨-, hw, -⟩ := ha.composed le_rfl ⟨cc, hcc⟩
        · rw [hw, World.setStack_stack_self, ComposeCmd.live_of_leaves hK, h.live_eq]
        · rw [hw, h.live_eq]
    · intro cmd hiss
      obtain heq | hiss := (ha.follows.issued _).mp hiss
      · cases heq
        rfl
      · exact h.issued cmd hiss
  | _ => exact h.step ha.follows nofun (ha.frame.stack name rfl)

theorem Untouched.wp {α : Type} {f : Footprint} (hf : f.commands ⊆ [.upNoStart]) {p : Coro α}
    (hp : Bounded f name p) (h : Untouched name live s) :
    p.wp (Act .daemon i) (fun _ s' => Untouched name live s') s :=
  Prog.Uses.wp hp.uses (fun _ hop _ _ _ hw ha => hw.covered hf hop ha) h

theorem wp_stopAndShutdown_reinstalling (h : Untouched name live s)
    (hst : s.world.status name = some .reinstalling) :
    (exceptException
      (do
        dockerStopApp name false
        dockerShutdownApp name false false)
      fun _ => pure ()).wp (Act .daemon i) (fun _ s' => Untouched name live s') s := by
  have h₁ : Untouched name live (s.looked i name) := h.step State.follows_next nofun rfl
  refine wp_swallow ((Prog.wp_bind _ _ _ _).mpr ?_)
  refine wp_dockerStopApp_skip Env.daemon_le_reliable (by simp [hst, stoppableStatus]) ?_
  refine wp_dockerShutdownApp_skip Env.daemon_le_reliable (by simp [hst]) ?_
  exact h₁.step State.follows_next nofun rfl

theorem wp_worker_reinstallApp (h : Untouched name live s) :
    (Worker.reinstallApp name).wp (Act .daemon i) (fun _ s' => Untouched name live s') s := by
  have hE := Env.daemon_le_reliable
  have h₁ : Untouched name live (s.looked i name) := h.step State.follows_next (fun _ h => by cases h) rfl
  refine (Prog.wp_bind _ _ _ _).mpr (wp_getAppFromDb hE ?_)
  cases hrow : s.world.installedApps.getByName name with
  | none => exact h₁
  | some app =>
    dsimp only
    by_cases hst : app.status = .reinstallationQueued
    · rw [assertAppStatus, raiseUnless_pos hst, pure_bind]
      have hrow' : s.world.status name ≠ none := by
        simp [World.status, InstalledApps.status, hrow]
      refine (Prog.wp_bind _ _ _ _).mpr (wp_updateAppStatus hE hrow' fun row =>
        wp_sendOnAppsUpdate fun r => ?_)
      have h₂ : Untouched name live ((s.looked i name).next i (.updateStatus name .reinstalling)
          (.ok row) (s.world.setStatus name .reinstalling)) :=
        h₁.step State.follows_next (fun _ h => by cases h) rfl
      cases r with
      | error e => exact h₂.step State.follows_next (fun _ h => by cases h) rfl
      | ok u =>
        refine Prog.wp_bind_of (wp_stopAndShutdown_reinstalling
          (h₂.step State.follows_next (fun _ h => by cases h) rfl) ?_) (fun _ s₃ h₃ => ?_) fun _ _ h => h
        · obtain ⟨status, hs⟩ := Option.ne_none_iff_exists'.mp hrow'
          change (s.world.setStatus name .reinstalling).status name = _
          rw [World.setStatus_status_self, hs, Option.map_some]
        · have hb : Bounded { statuses := [.stopped, .error], commands := [.upNoStart] }
              name (do
                awaitOp (.rmtree name)
                exceptException
                  (do
                    Worker.downloadAppZip name
                    Worker.installAppFromZip name
                    updateAppStatus name .stopped)
                  (Worker.failInstallation name)) :=
            .bind (.perform rfl) fun _ =>
              Worker.bounds_download (by decide) (by decide)
          exact h₃.wp (by decide) hb
    · rw [assertAppStatus, raiseUnless_neg hst]
      exact h₁

/-- A reinstall never stops or removes the old containers: afterwards the app has a running or
paused container exactly if it had one before. -/
theorem reinstall_never_tears_down {request worker : Call} {w : World} {s₁ s₂ : State}
    {r : Except Exn Unit}
    (hreq : Prog.Exec (Act .daemon request) (reinstallApp name) ⟨w, []⟩ (.ok ()) s₁)
    (htask : Prog.Exec (Act .daemon worker) (Worker.process ⟨name, .reinstall⟩) s₁ r s₂) :
    ¬TornDown name s₂.log ∧ ((s₂.world.containers name).live = false ↔
      (w.containers name).live = false) := by
  have h₀ : Untouched name (w.stack name).live ⟨w, []⟩ := ⟨rfl, fun cmd h => absurd h (not_issued_nil _)⟩
  have h₁ := hreq.wp (h₀.wp (by decide) bounds_reinstallApp)
  have h₂ := htask.wp (wp_worker_reinstallApp h₁)
  refine ⟨h₂.not_tornDown, ?_⟩
  cases hproject : appProject name with
  | none => simp [World.containers, hproject]
  | some project =>
    rw [World.containers_eq hproject, World.containers_eq hproject, h₂.live_eq]

/-- A successful reinstall of a stopped app. -/
theorem reinstall_never_tears_down_stopped : ∃ r s₁ s₂,
    Prog.Exec (Act .daemon ⟨.reinstallRequest, 0⟩) (reinstallApp "app")
      ⟨.withApp "app" .stopped (.single .exited), []⟩ (.ok ()) s₁ ∧
    Prog.Exec (Act .daemon ⟨.worker, 0⟩) (Worker.process ⟨"app", .reinstall⟩) s₁ r s₂ ∧
    s₂.world.status "app" = some .stopped ∧ (s₂.world.containers "app").live = false := by
  obtain ⟨r, s₁, s₂, hreq, htask, hP⟩ := State.exists_exec_then .daemon
    ⟨.reinstallRequest, 0⟩ ⟨.worker, 0⟩ (reinstallApp "app") (Worker.process ⟨"app", .reinstall⟩)
    ⟨.withApp "app" .stopped (.single .exited), []⟩
    (List.replicate 5 Choice.proceed)
    (List.replicate 12 Choice.proceed ++ [Choice.docker (.ok ()) (.single .exited)] ++
      List.replicate 6 Choice.proceed)
    (fun s => s.world.status "app" == some .stopped) (by decide)
  exact ⟨r, s₁, s₂, hreq, htask, by simpa using hP,
    (reinstall_never_tears_down hreq htask).2.mpr (by decide)⟩

/-- A running app is reported STOPPED and runs on. -/
theorem reinstall_leaves_running : ¬ ∀ (name : String) (request worker : Call) (w : World)
    (s₁ s₂ : State) (r : Except Exn Unit),
    Prog.Exec (Act .daemon request) (reinstallApp name) ⟨w, []⟩ (.ok ()) s₁ →
    Prog.Exec (Act .daemon worker) (Worker.process ⟨name, .reinstall⟩) s₁ r s₂ →
    s₂.world.status name = some .stopped →
    TornDown name s₂.log ∧ (s₂.world.containers name).live = false := by
  intro h
  obtain ⟨r, s₁, s₂, hreq, htask, hP⟩ := State.exists_exec_then .daemon
    ⟨.reinstallRequest, 0⟩ ⟨.worker, 0⟩ (reinstallApp "app") (Worker.process ⟨"app", .reinstall⟩)
    ⟨.withApp "app" .running (.single .running), []⟩
    (List.replicate 5 Choice.proceed)
    (List.replicate 12 Choice.proceed ++ [Choice.docker (.ok ()) (.single .running)] ++
      List.replicate 6 Choice.proceed)
    (fun s => s.world.status "app" == some .stopped && (s.world.containers "app").live)
    (by decide)
  rw [Bool.and_eq_true, beq_iff_eq] at hP
  have hleft := (h _ _ _ _ _ _ _ hreq htask hP.1).2
  rw [hP.2] at hleft
  cases hleft

end Freeshard

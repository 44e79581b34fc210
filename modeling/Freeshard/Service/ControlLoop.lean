import Freeshard.Coroutine.Tasks
import Freeshard.Service.AppLifecycle
import Freeshard.System.Environments
import Mathlib.Data.Nat.Pairing

/-! # Ticks and accesses on the event loop

What `control_apps` and `ensure_app_is_running` of `service/app_lifecycle.py` do between two awaits is one operation;
the operations on an app they issue are the coroutines of `app_tools.py`. `asyncio.gather` makes a task of each app of
a tick, `create_task` one of each `start_app`, and all of them are interleaved.

`_control_app_time` may await once before it issues anything: `size_is_compatible` reads the profile, and only a start
of the app can follow. The operation `controlAppTime` has this await inside, which loses no run. Only `pass` writes the
profile, so where the others go on during the await, what it ends with may as well be reported right before the decision
and what was reported before right after it: every task then issues the same operations, in the same order. -/

namespace Freeshard.ControlLoop
open Coroutine
set_option autoImplicit false

inductive Task where
  /-- Time passes, and what the machine reports changes. -/
  | machine (id : ℕ)
  /-- A granted access. -/
  | ensureAppIsRunning (id : ℕ) (app : InstalledApp)
  /-- The `start_app` that an access has scheduled. -/
  | startApp (access : ℕ)
  /-- `control_apps` up to its `gather`. -/
  | controlApps (tick : ℕ)
  /-- The task of the `k`-th app of a tick. -/
  | controlAppTime (tick k : ℕ)
  /-- `control_apps` after its `gather`. -/
  | demoteLru (tick : ℕ)
  deriving DecidableEq

/-- Who a task is for the op locks. -/
def Task.call : Task → Call
  | .startApp access => ⟨.startApp, access⟩
  | .controlAppTime tick k => ⟨.stopApp, Nat.pair tick k⟩
  | .demoteLru tick => ⟨.pauseApp, tick⟩
  | _ => ⟨.shutdownApp, 0⟩

/-! ## What the tasks share -/

/-- What a tick has found when it gathers. -/
structure Gathering where
  apps : List InstalledApp
  pressureHigh : Bool

structure Shard where
  state : State
  /-- `time.time()`. -/
  clock : ℚ
  psi : ℚ := 0
  diskSpaceLow : Bool := false
  profile : Option (Option VMSize) := some none
  lastAccessDict : String → Option ℚ := fun _ => none
  gathering : ℕ → Option Gathering := fun _ => none
  /-- The names for which accesses have scheduled a `start_app`. -/
  scheduled : ℕ → Option String := fun _ => none

namespace Shard

/-- What the code between two awaits finds. -/
def view (w : Shard) : Lifecycle.World where
  installedApps := w.state.world.installedApps
  appMetadata := w.state.world.getAppMetadata
  psi := w.psi
  clock := w.clock
  lastAccessDict := w.lastAccessDict
  diskSpaceLow := w.diskSpaceLow
  profile := w.profile

/-- The clock does not go back. -/
structure Passes (w w' : Shard) : Prop where
  clock_le : w.clock ≤ w'.clock
  rest : w' = { w with clock := w'.clock, psi := w'.psi, diskSpaceLow := w'.diskSpaceLow, profile := w'.profile }

end Shard

/-! ## Operations -/

inductive Op where
  /-- An operation of `app_tools.py`. -/
  | tools (op : Freeshard.Op)
  | pass
  | diskSpaceLow
  | getAppMetadata (name : String)
  | sizeIsCompatible (size : VMSize)
  /-- `last_access_dict[name] = time.time()` and `create_task(start_app(name))`. -/
  | recordAccess (access : ℕ) (name : String)
  | gather (tick : ℕ)
  /-- `_control_app_time` up to the operation that it issues. -/
  | controlAppTime (app : InstalledApp)
  /-- `_demote_lru` up to the operation that it issues. -/
  | demoteLru (apps : List InstalledApp)
  deriving DecidableEq

@[reducible] def Ans : Op → Type
  | .tools op => Freeshard.Ans op
  | .diskSpaceLow => Bool
  | .getAppMetadata _ => AppMeta
  | .sizeIsCompatible _ => Bool
  | .controlAppTime _ => List Lifecycle.Operation
  | .demoteLru _ => List Lifecycle.Operation
  | _ => Unit

abbrev Answer (op : Op) : Type := Except Exn (Ans op)

abbrev Coro (α : Type) : Type := Prog Op Ans Exn α

abbrev awaitOp (op : Op) : Coro (Ans op) := Prog.perform op

/-- What a coroutine decides on: the operations it issues, or an exception before it has issued any. -/
def decision (w : Lifecycle.World) (p : Lifecycle.Coro Unit) : Except Exn (List Lifecycle.Operation) :=
  (p.eval w.effect []).1.map fun _ => w.issues p

theorem issues_of_decision {w : Lifecycle.World} {p : Lifecycle.Coro Unit} {operations : List Lifecycle.Operation}
    (h : decision w p = .ok operations) : operations = w.issues p := by
  unfold decision at h
  cases hp : (p.eval w.effect []).1 with
  | ok u =>
    rw [hp] at h
    exact (Except.ok.inj h).symm
  | error e =>
    rw [hp] at h
    cases h

/-- The run of `control_apps` up to its `gather`. -/
def plan (settings : Lifecycle.Settings) (w : Lifecycle.World) : Gathering where
  apps := w.installedApps.rows.filter Lifecycle.controlled
  pressureHigh := settings.pauseEnabled && decide (settings.psiThreshold < w.psi)

variable (settings : Lifecycle.Settings)

/-- The effect of an operation; `none` if the environment has a say in it. A tick gathers once. -/
def Shard.effect (w : Shard) : (op : Op) → Option (Answer op × Shard)
  | .tools _ => none
  | .pass => none
  | .diskSpaceLow => some (.ok w.diskSpaceLow, w)
  | .getAppMetadata name => some (w.state.world.getAppMetadata name, w)
  | .sizeIsCompatible size => some (.ok (w.view.sizeIsCompatible size), w)
  | .recordAccess access name => some (.ok (), { w with
      lastAccessDict := Function.update w.lastAccessDict name (some w.clock)
      scheduled := Function.update w.scheduled access (some name) })
  | .gather tick =>
    match w.gathering tick with
    | none => some (.ok (), { w with
        gathering := Function.update w.gathering tick (some (plan settings w.view)) })
    | some _ => none
  | .controlAppTime app =>
    some (decision w.view (Lifecycle.controlAppTime settings settings.pauseEnabled app), w)
  | .demoteLru apps => some (decision w.view (Lifecycle.demoteLru apps), w)

/-- What a choice lets `time.time()` read. -/
def clockOf : Freeshard.Choice → Option ℚ
  | .clock now => some now
  | _ => none

/-- The environment, where `time.time()` reads this. -/
def clocked (E : Env) (clock : ℚ) : Env := fun s i op c => E s i op c ∧ ∀ now ∈ clockOf c, now = clock

theorem clocked_le (E : Env) (clock : ℚ) : clocked E clock ≤ E := fun _ _ _ _ h => h.1

/-- What an operation of a task may answer and leave. -/
def act (E : Env) (i : Task) (w : Shard) : (op : Op) → Answer op → Shard → Prop
  | .tools op, r, w' => ∃ s', Freeshard.Act (clocked E w.clock) i.call w.state op r s' ∧ w' = { w with state := s' }
  | .pass, r, w' => r = .ok () ∧ w.Passes w'
  | op, r, w' => w.effect settings op = some (r, w')

/-! ## Tasks -/

/-- A coroutine of `app_tools.py` as part of a task. -/
def tools {α : Type} : Freeshard.Coro α → Coro α
  | .ret a => .ret a
  | .raise e => .raise e
  | .await op next => .await (.tools op) fun (r : Answer (.tools op)) => tools (next r)

theorem tools_bind {α β : Type} (p : Freeshard.Coro α) (f : α → Freeshard.Coro β) :
    tools (p >>= f) = tools p >>= fun a => tools (f a) := by
  induction p with
  | ret a => rfl
  | raise e => rfl
  | await op next ih =>
    change Prog.await (Op.tools op) (fun r => tools (next r >>= f)) = _
    rw [funext ih]
    rfl

theorem tools_perform (op : Freeshard.Op) : tools (Freeshard.awaitOp op) = awaitOp (.tools op) := by
  change Prog.await (Op.tools op) _ = Prog.await (Op.tools op) _
  congr 1
  funext r
  cases r <;> rfl

theorem tools_rg {α W : Type} {step : W → (op : Op) → Answer op → W → Prop} {rely guar : W → W → Prop}
    {p : Freeshard.Coro α} {Φ : Except Exn α → W → Prop} {w : W}
    (h : p.rg (fun w op r w' => step w (.tools op) r w') rely guar Φ w) : (tools p).rg step rely guar Φ w := by
  induction p generalizing w with
  | ret a => exact h
  | raise e => exact h
  | await op next ih =>
    intro w₁ hw₁ r w₂ hs
    obtain ⟨hguar, hnext⟩ := h w₁ hw₁ r w₂ hs
    exact ⟨hguar, ih r hnext⟩

def perform : Lifecycle.Operation → Coro Unit
  | .startApp name => tools (startApp name)
  | .dockerPauseApp name => tools (dockerPauseApp name)
  | .dockerStopApp name => tools (dockerStopApp name true)

/-- `ensure_app_is_running`. -/
def ensureAppIsRunning (id : ℕ) (app : InstalledApp) : Coro Unit := do
  let low : Bool ← awaitOp .diskSpaceLow
  if low then pure ()
  else do
    let appMeta : AppMeta ← awaitOp (.getAppMetadata app.name)
    let compatible : Bool ← awaitOp (.sizeIsCompatible appMeta.minimumPortalSize)
    if compatible then awaitOp (.recordAccess id app.name) else pure ()

/-- `_control_app_time`. -/
def controlAppTime (app : InstalledApp) : Coro Unit := do
  let operations : List Lifecycle.Operation ← awaitOp (.controlAppTime app)
  operations.forM perform

/-- `_demote_lru`. -/
def demoteLru (apps : List InstalledApp) : Coro Unit := do
  let operations : List Lifecycle.Operation ← awaitOp (.demoteLru apps)
  operations.forM perform

abbrev Record : Type := Recorded Op Ans Exn Shard Task

abbrev LogEntry : Type := Entry Op Ans Exn Shard Task

abbrev Loop : Type := Config Op Ans Exn Record Task

/-- A tick's demotion starts when its pressure is high and the gathered tasks have returned. An exception of one of them
is the end of `control_apps`, while the others go on. -/
def create (c : Loop) : Task → Option (Coro Unit)
  | .machine _ => some (awaitOp .pass)
  | .ensureAppIsRunning id app => some (ensureAppIsRunning id app)
  | .startApp access => (c.state.world.scheduled access).map fun name => tools (startApp name)
  | .controlApps tick => some (awaitOp (.gather tick))
  | .controlAppTime tick k => (c.state.world.gathering tick).bind fun g => g.apps[k]?.map controlAppTime
  | .demoteLru tick => (c.state.world.gathering tick).bind fun g =>
    if g.pressureHigh && (List.range g.apps.length).all fun k => c.returned (.controlAppTime tick k) then
      some (demoteLru g.apps)
    else none

/-- From nothing started on, tasks are created and interleaved in any way that the condition allows. -/
abbrev Runs (E : Env) (C : Condition Op Ans Exn Shard Task) (w : Shard) (c : Loop) : Prop :=
  Evolves (Recorded.Act (act settings E) C) create (.idle ⟨w, []⟩) c

/-! ## The tick as one coroutine -/

/-- `control_apps` finds what `plan` says, then gathers, then demotes. -/
theorem controlApps_eval_plan (w : Lifecycle.World) :
    (Lifecycle.controlApps settings).eval w.effect [] =
      (Lifecycle.timeBasedStep settings settings.pauseEnabled (plan settings w).apps >>= fun _ =>
        if (plan settings w).pressureHigh then Lifecycle.demoteLru (plan settings w).apps
        else pure ()).eval w.effect [] := by
  unfold Lifecycle.controlApps plan
  cases hpause : settings.pauseEnabled with
  | true =>
    rw [if_pos rfl, Prog.eval_bind, Lifecycle.readMemoryPressure, Prog.eval_perform]
    dsimp only [Lifecycle.World.effect]
    rw [Prog.eval_bind, Lifecycle.getAll, Prog.eval_perform]
    dsimp only [Lifecycle.World.effect]
    congr 2
    funext _
    by_cases hpsi : settings.psiThreshold < w.psi
    · rw [if_pos ⟨rfl, hpsi⟩, decide_eq_true hpsi]
      rfl
    · rw [if_neg fun h => hpsi h.2, decide_eq_false hpsi]
      rfl
  | false =>
    rw [if_neg Bool.false_ne_true, Prog.pure_eq_ret, Prog.ret_bind, Prog.eval_bind, Lifecycle.getAll,
      Prog.eval_perform]
    dsimp only [Lifecycle.World.effect]
    congr 2

/-! ## Scripts -/

inductive Choice where
  | proceed
  /-- The choice of the environment of `app_tools.py`. -/
  | tools (choice : Freeshard.Choice)
  | pass (clock psi : ℚ) (diskSpaceLow : Bool)

/-- An operation under a choice. -/
def answer (E : Env) [∀ s i op c, Decidable (E s i op c)] (i : Task) (w : Shard) :
    (op : Op) → Choice → Option (Answer op × Shard)
  | .tools op, .tools choice =>
    if ∀ now ∈ clockOf choice, now = w.clock then
      (w.state.exec E i.call op choice).map fun rs => (rs.1, { w with state := rs.2 })
    else none
  | .pass, .pass clock psi diskSpaceLow =>
    if w.clock ≤ clock then some (.ok (), { w with clock, psi, diskSpaceLow }) else none
  | op, .proceed => w.effect settings op
  | _, _ => none

theorem answer_act {E : Env} [∀ s i op c, Decidable (E s i op c)] {i : Task} {w w' : Shard} {op : Op}
    {choice : Choice} {r : Answer op} (h : answer settings E i w op choice = some (r, w')) :
    act settings E i w op r w' := by
  unfold answer at h
  split at h
  · next op choice =>
    split at h
    · next hnow =>
      obtain ⟨⟨r', s'⟩, he, heq⟩ := Option.map_eq_some_iff.mp h
      cases heq
      unfold State.exec at he
      split at he
      · next hE =>
        split at he
        · next w'' hexec =>
          cases he
          exact ⟨_, ⟨choice, w'', ⟨hE, hnow⟩, hexec, rfl⟩, rfl⟩
        · cases he
      · cases he
    · cases h
  · split at h
    · next hle =>
      cases h
      exact ⟨rfl, hle, rfl⟩
    · cases h
  · next op hop hpass =>
    cases op with
    | tools op => cases h
    | pass => cases h
    | _ => exact h
  · cases h

theorem exists_run (E : Env) [∀ s i op c, Decidable (E s i op c)] (C : Condition Op Ans Exn Shard Task)
    [∀ s i op, Decidable (C s i op)] (creation : Creation Op Ans Exn Record Task) (w : Shard)
    (turns : List (Turn Task Choice)) (F : Loop → Bool)
    (h : ((Config.idle ⟨w, []⟩).playTasks (Recorded.exec (answer settings E) C) creation turns).any F = true) :
    ∃ c, Evolves (Recorded.Act (act settings E) C) creation (.idle ⟨w, []⟩) c ∧ F c = true := by
  obtain ⟨c, hplay, hF⟩ := (Option.any_eq_true _ _).mp h
  refine ⟨c, Config.playTasks_evolves (fun i s op choice r s' he => ?_) hplay, hF⟩
  exact Recorded.exec_act (answer settings E) C (fun _ _ _ _ _ _ => answer_act settings) he

end Freeshard.ControlLoop

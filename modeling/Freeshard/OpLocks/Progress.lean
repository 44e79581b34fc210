import Mathlib.Data.Nat.Init
import Freeshard.Service.Protocol
import Freeshard.System.Rules

/-! # The op locks let everyone through

Any number of calls, for any apps, and the worker, interleaved in any way. A call holds at most one op lock and waits
for nothing while it does: it is always able to go on, so that nobody waits in a circle, and it has given the lock back
when it ends, whatever it ends in. -/

namespace Freeshard
open Coroutine
set_option autoImplicit false

/-- A call that is cancelled while it waits for an op lock does not get it, and a release does not fail. -/
def Env.locking : Env := fun _ _ op c =>
  match op with
  | .acquire _ => ∀ e, c ≠ .proceedRaise e
  | .release _ => ∀ e, c ≠ .raise e
  | _ => True

theorem Env.reliable_le_locking : reliable ≤ locking := by
  rintro s i op c ⟨hinternal, -⟩
  cases op with
  | acquire name | release name =>
    obtain rfl := hinternal rfl
    exact fun _ h => by cases h
  | _ => trivial

namespace OpLocks

/-! ## What a call holds -/

/-- The names whose op locks a call holds. -/
abbrev Held : Type := String → Prop

def nothing : Held := fun _ => False

def held (i : Call) (s : State) : Held := fun name => s.world.opLocks name = some i

/-- A lock is taken, and a task is waited for, only by a call that holds nothing. -/
def lockProtocol : Protocol Op Ans Exn Held where
  allows l op := match op with
    | .acquire _ => l = nothing
    | .release name => l name
    | .dequeue => l = nothing
    | _ => True
  after l op r := match op, r with
    | .acquire name, .ok _ => fun other => other = name ∨ l other
    | .release name, _ => fun other => other ≠ name ∧ l other
    | _, _ => l

/-- The call ends with what it began with. -/
abbrev Restores {α : Type} (p : Coro α) (l : Held) : Prop := p.Conforms lockProtocol l fun _ l' => l' = l

/-! ## The calls conform -/

section Conform
variable {name : String} {α β : Type} {l : Held}

theorem Restores.bind {p : Coro α} {f : α → Coro β} (hp : Restores p l) (hf : ∀ a, Restores (f a) l) :
    Restores (p >>= f) l := by
  refine Prog.Conforms.bind hp (fun a l' hl => ?_) fun _ _ hl => hl
  subst hl
  exact hf a

/-- What stays within a footprint without locks takes and releases none. -/
theorem restores_bounded {f : Footprint} {p : Coro α} (hf : f.locks = false) (hp : Bounded f name p) :
    Restores p l := by
  refine Prog.Conforms.of_uses hp.uses (fun op hop l' hl => ?_) rfl
  subst hl
  cases op with
  | acquire other | release other =>
    rw [Footprint.Covers, hf] at hop
    cases hop.2
  | dequeue => exact absurd hop id
  | _ => exact ⟨trivial, fun _ => rfl⟩

theorem restores_withAppOpLock {body : Coro α} (hbody : ∀ l, Restores body l) :
    Restores (withAppOpLock name body) nothing := by
  refine Prog.Conforms.perform_bind rfl (fun _ => ?_) fun _ => rfl
  refine (hbody _).tryFinally fun r l' hl => ?_
  subst hl
  have hrest : (fun other => other ≠ name ∧ (other = name ∨ nothing other)) = nothing := by
    funext other
    simp [nothing]
  refine Prog.Conforms.perform (.inl rfl) fun r' => ?_
  cases r' with
  | ok u => exact hrest
  | error e => exact hrest

theorem restores_startApp : Restores (startApp name) nothing := by
  have hbounded : Bounded {} name (awaitOp (.throttle name)) := Bounded.perform trivial
  have hthrottle : Restores (awaitOp (.throttle name)) nothing := restores_bounded rfl hbounded
  have hbody : ∀ l, Restores (do
      let dbStatus ← readStatus name
      onlyIf (dbStatus ∈ revivableStatus.map some) (revive name dbStatus)) l :=
    fun l => restores_bounded rfl (.bind Bounded.readStatus fun status => Bounded.onlyIf (bounds_revive status))
  refine hthrottle.bind fun passes => ?_
  unfold onlyIf
  split
  · exact restores_withAppOpLock hbody
  · exact rfl

theorem restores_process (task : InstallationTask) : Restores (Worker.process task) nothing := by
  unfold Worker.process
  split
  · exact restores_bounded rfl Worker.bounds_installAppFromStore
  · exact restores_bounded rfl Worker.bounds_installAppFromExistingZip
  · exact restores_withAppOpLock fun l => restores_bounded rfl Worker.bounds_teardown
  · exact restores_bounded rfl Worker.bounds_reinstallApp

theorem restores_run (n : ℕ) : Restores (Worker.run n) nothing := by
  induction n with
  | zero => exact rfl
  | succ n ih =>
    refine Prog.Conforms.perform_bind rfl (fun task => Restores.bind ?_ fun _ => ih) fun _ => rfl
    have htry : Restores (exceptException (Worker.process task) fun _ => pure ()) nothing := by
      refine Prog.Conforms.tryCatch (restores_process task) (fun _ _ hl => hl) fun e l' hl => ?_
      split
      · exact hl
      · exact hl
    refine Prog.Conforms.tryFinally htry fun r l' hl => ?_
    refine Prog.Conforms.perform trivial fun r' => ?_
    cases r' with
    | ok u => exact hl
    | error e => exact hl

theorem restores_starts {i : Call} {p : Coro Unit} (h : Starts name i p) : Restores p nothing := by
  obtain ⟨role, id⟩ := i
  cases role with
  | startApp =>
    obtain rfl : p = startApp name := h
    exact restores_startApp
  | pauseApp =>
    obtain rfl : p = dockerPauseApp name := h
    exact restores_bounded rfl bounds_dockerPauseApp
  | stopApp =>
    obtain rfl : p = dockerStopApp name true := h
    exact restores_bounded rfl (bounds_dockerStopApp true)
  | shutdownApp =>
    obtain rfl : p = dockerShutdownApp name true false := h
    exact restores_bounded rfl (bounds_dockerShutdownApp true false)
  | installRequest =>
    obtain ⟨reason, rfl⟩ | ⟨zip, reason, rfl⟩ := h
    · exact restores_bounded rfl (bounds_installAppFromStore reason)
    · exact restores_bounded rfl (bounds_installAppFromUploadedZip zip reason)
  | uninstallRequest =>
    obtain rfl : p = uninstallApp name := h
    exact restores_bounded rfl bounds_uninstallApp
  | reinstallRequest =>
    obtain rfl : p = reinstallApp name := h
    exact restores_bounded rfl bounds_reinstallApp
  | worker =>
    obtain ⟨-, n, rfl⟩ := h
    exact restores_run n

end Conform

/-! ## The world knows who holds which lock -/

variable {E : Env} {i j : Call} {s s' : State} {op : Op} {r : Answer op} {name : String}

/-- A call that is not given the lock changes nothing. -/
theorem refused {e : Exn} (h : Act E i s (.acquire name) (.error e) s') (hE : E ≤ Env.locking) :
    s'.world = s.world := by
  obtain ⟨c, hc, he⟩ := h.inv
  have hlocking := hE _ _ _ _ hc
  cases c with
  | proceed =>
    simp only [World.exec, World.effect] at he
    split at he
    · cases he
    · cases he
  | raise e' => exact (Prod.mk.inj (Option.some.inj he)).2.symm
  | proceedRaise e' => exact absurd rfl (hlocking e')
  | docker exit stack | clock now => cases he
  | leaves dir e' => cases he

theorem released {r : Answer (.release name)} (h : Act E i s (.release name) r s') (hE : E ≤ Env.locking) :
    s.world.opLocks name = some i ∧ s'.world = s.world.setLock name none := by
  obtain ⟨c, hc, he⟩ := h.inv
  have hlocking := hE _ _ _ _ hc
  have heffect : ∃ r₀, s.world.effect i (.release name) = some (r₀, s'.world) := by
    cases c with
    | proceed => exact ⟨r, he⟩
    | raise e' => exact absurd rfl (hlocking e')
    | proceedRaise e' =>
      simp only [World.exec, Option.map_eq_some_iff, Prod.mk.injEq] at he
      obtain ⟨⟨r₀, w₀⟩, he, -, rfl⟩ := he
      exact ⟨r₀, he⟩
    | docker exit stack | clock now => cases he
    | leaves dir e' => cases he
  obtain ⟨r₀, he⟩ := heffect
  simp only [World.effect] at he
  split at he
  · next hheld => exact ⟨hheld, (Prod.mk.inj (Option.some.inj he)).2.symm⟩
  · cases he

theorem held_self (h : Act E i s op r s') (hE : E ≤ Env.locking) :
    held i s' = lockProtocol.after (held i s) op r := by
  funext other
  cases op with
  | acquire name =>
    cases r with
    | error e =>
      rw [held, refused h hE]
      rfl
    | ok u =>
      obtain ⟨-, hw⟩ := h.acquire_ok rfl
      simp only [held, lockProtocol, hw]
      by_cases hother : other = name
      · subst hother
        simp
      · simp [World.setLock_opLocks_ne, hother]
  | release name =>
    obtain ⟨-, hw⟩ := released h hE
    have hafter : lockProtocol.after (held i s) (.release name) r = fun other => other ≠ name ∧ held i s other := by
      cases r <;> rfl
    simp only [hafter, held, hw]
    by_cases hother : other = name
    · subst hother
      simp
    · simp [World.setLock_opLocks_ne, hother]
  | _ =>
    rw [held, h.frame.opLocks other rfl]
    cases r <;> rfl

theorem held_other (h : Act E j s op r s') (hE : E ≤ Env.locking) (hij : i ≠ j) : held i s' = held i s := by
  funext other
  cases op with
  | acquire name =>
    cases r with
    | error e => rw [held, refused h hE, held]
    | ok u =>
      obtain ⟨hfree, hw⟩ := h.acquire_ok rfl
      simp only [held, hw]
      by_cases hother : other = name
      · subst hother
        simp [hfree, Ne.symm hij]
      · simp [World.setLock_opLocks_ne, hother]
  | release name =>
    obtain ⟨hown, hw⟩ := released h hE
    simp only [held, hw]
    by_cases hother : other = name
    · subst hother
      simp [hown, Ne.symm hij]
    · simp [World.setLock_opLocks_ne, hother]
  | _ => rw [held, h.frame.opLocks other rfl, held]

theorem tracks (hE : E ≤ Env.locking) : Protocol.Tracks (fun _ => lockProtocol) (Act E) held where
  own ha := held_self ha hE
  other ha hij := held_other ha hE hij

/-! ## Who can go on -/

/-- The operation can be performed without an exception of the environment's. -/
def CanPerform (w : World) (i : Call) (op : Op) : Prop := ∃ c, c.raised = none ∧ (w.exec i op c).isSome = true

/-- What the operation waits for. -/
def Waits (w : World) (i : Call) : Op → Prop
  | .acquire name => w.opLocks name ≠ none
  | .release name => w.opLocks name ≠ some i
  | .dequeue => w.taskQueue = []
  | _ => False

theorem canPerform_of_not_waits {w : World} (h : ¬Waits w i op) : CanPerform w i op := by
  cases op with
  | acquire name | release name =>
    have hlock := not_not.mp h
    exact ⟨.proceed, rfl, by simp [World.exec, World.effect, hlock]⟩
  | dequeue =>
    cases hqueue : w.taskQueue with
    | nil => exact absurd hqueue h
    | cons task tasks => exact ⟨.proceed, rfl, by simp [World.exec, World.effect, hqueue]⟩
  | compose name cmd =>
    cases hcompose : w.appCompose name with
    | error e => exact ⟨.proceed, rfl, by simp [World.exec, World.effect, hcompose]⟩
    | ok command => exact ⟨.docker (.ok ()) .empty, rfl, by simp [World.exec, hcompose]⟩
  | throttle name =>
    refine ⟨.clock 0, rfl, ?_⟩
    simp only [World.exec]
    split <;> rfl
  | insert app =>
    refine ⟨.proceed, rfl, ?_⟩
    simp only [World.exec, World.effect]
    split <;> rfl
  | composePs name all =>
    refine ⟨.proceed, rfl, ?_⟩
    simp only [World.exec, World.effect]
    split <;> rfl
  | inspect name ids =>
    refine ⟨.proceed, rfl, ?_⟩
    simp only [World.exec, World.effect]
    split <;> rfl
  | getValue key =>
    refine ⟨.proceed, rfl, ?_⟩
    simp only [World.exec, World.effect]
    split <;> rfl
  | downloadAppZip name =>
    refine ⟨.proceed, rfl, ?_⟩
    simp only [World.exec, World.effect]
    split <;> rfl
  | extractAppZip name =>
    refine ⟨.proceed, rfl, ?_⟩
    simp only [World.exec, World.effect]
    split
    · split <;> rfl
    · rfl
  | unlinkZip name =>
    refine ⟨.proceed, rfl, ?_⟩
    simp only [World.exec, World.effect]
    split <;> rfl
  | renderTemplate name =>
    refine ⟨.proceed, rfl, ?_⟩
    simp only [World.exec, World.effect]
    split <;> rfl
  | _ => exact ⟨.proceed, rfl, rfl⟩

/-! ## Main result -/

section Main
variable {app : Call → String} {w : World} {c : Config Op Ans Exn State Call}

theorem conforming (hE : E ≤ Env.locking) (hw : ∀ name, w.opLocks name = none) (h : RunsFor E app w c) :
    Conforming (fun _ => lockProtocol) held (fun i p => Starts (app i) i p) (fun _ => nothing)
      (fun _ _ l => l = nothing) c := by
  refine Reaches.conforming (tracks hE) (fun i p hp => restores_starts hp) h (Conforming.idle fun i => ?_)
  funext name
  simp [held, nothing, hw]

/-- Who holds a lock is in flight. -/
theorem holder_awaits (hE : E ≤ Env.locking) (hw : ∀ name, w.opLocks name = none) (h : RunsFor E app w c)
    (hheld : c.state.world.opLocks name = some j) : ∃ op next, c.pool j = some (.await op next) := by
  by_contra hended
  have hnothing : held j c.state = nothing := by
    obtain hfirst | ⟨_, hlast⟩ := Reaches.conforming_finished (tracks hE)
      (fun i p hp => restores_starts hp) h (Conforming.idle fun i => by
        funext name
        simp [held, nothing, hw]) (i := j) fun op next hp => hended ⟨op, next, hp⟩
    · exact hfirst
    · exact hlast
  exact cast (congrFun hnothing name) hheld

/-- What a call awaits is allowed to it. -/
theorem awaited (hE : E ≤ Env.locking) (hw : ∀ name, w.opLocks name = none) (h : RunsFor E app w c)
    {next : Answer op → Coro Unit} (hp : c.pool i = some (.await op next)) :
    lockProtocol.allows (held i c.state) op := by
  have hi := conforming hE hw h i
  rw [hp] at hi
  exact hi.2.1

/-- A call that holds a lock can always go on. And a call that cannot waits for a lock that another call holds, or it is
waiting for a task while there is none. -/
theorem op_locks_deadlock_free (hE : E ≤ Env.locking) (hw : ∀ name, w.opLocks name = none) (h : RunsFor E app w c) :
    (∀ name j, c.state.world.opLocks name = some j →
      ∃ op next, c.pool j = some (.await op next) ∧ CanPerform c.state.world j op) ∧
    ∀ i op next, c.pool i = some (.await op next) → ¬CanPerform c.state.world i op →
      (op = .dequeue ∧ c.state.world.taskQueue = []) ∨
        ∃ name j, op = .acquire name ∧ c.state.world.opLocks name = some j ∧ j ≠ i := by
  constructor
  · intro name j hheld
    obtain ⟨op, next, hp⟩ := holder_awaits hE hw h hheld
    refine ⟨op, next, hp, canPerform_of_not_waits fun hwaits => ?_⟩
    have hallowed := awaited hE hw h hp
    cases op with
    | acquire other | dequeue => exact cast (congrFun (show held j c.state = nothing from hallowed) name) hheld
    | release other => exact hwaits hallowed
    | _ => exact hwaits
  · intro i op next hp hblocked
    have hwaits : Waits c.state.world i op := not_not.mp fun hfree => hblocked (canPerform_of_not_waits hfree)
    have hallowed := awaited hE hw h hp
    cases op with
    | acquire name =>
      obtain ⟨j, hj⟩ := Option.ne_none_iff_exists'.mp hwaits
      refine .inr ⟨name, j, rfl, hj, ?_⟩
      rintro rfl
      exact cast (congrFun (show held j c.state = nothing from hallowed) name) hj
    | release name => exact absurd hallowed hwaits
    | dequeue => exact .inl ⟨rfl, hwaits⟩
    | _ => exact absurd hwaits id

end Main

/-! ## A run -/

/-- An access waits for the lock that another one holds. -/
theorem op_locks_deadlock_free_run : ∃ w c next, RunsFor .reliable (fun _ => "app") w c ∧
    c.pool ⟨.startApp, 1⟩ = some (.await (.acquire "app") next) ∧
    c.state.world.opLocks "app" = some ⟨.startApp, 0⟩ ∧
    ∃ op next', c.pool ⟨.startApp, 0⟩ = some (.await op next') ∧ CanPerform c.state.world ⟨.startApp, 0⟩ op := by
  let first : Call := ⟨.startApp, 0⟩
  let second : Call := ⟨.startApp, 1⟩
  let w : World := .withApp "app" .stopped .empty
  let cues : List Cue := [.start first, .start second, .fire first (.clock 0), .fire second (.clock 10),
    .fire first .proceed]
  obtain ⟨c, hrun, hF, -⟩ := exists_run_config .reliable [.startApp] "app" w 1 cues
    (fun c => c.state.world.opLocks "app" == some first && c.awaiting second == some (.acquire "app"))
    (by decide) (by decide +kernel)
  obtain ⟨hheld, hwaits⟩ := Bool.and_eq_true_iff.mp hF
  obtain ⟨next, hsecond⟩ := Config.pool_of_awaiting (eq_of_beq hwaits)
  exact ⟨w, c, next, hrun.runsFor, hsecond, eq_of_beq hheld,
    (op_locks_deadlock_free Env.reliable_le_locking (fun _ => rfl) hrun.runsFor).1 "app" first (eq_of_beq hheld)⟩

end OpLocks
end Freeshard

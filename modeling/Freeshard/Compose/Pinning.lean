import Freeshard.Compose.Projects
import Freeshard.Coroutine.Protocol
import Freeshard.System.Rules

/-! # Compose commands are pinned

Every function of `app_tools.py` and `memory_pressure.py` that talks to compose does so by
`app_compose_command`, which names the app's own compose file and a project of its own. Where that cannot
be built its exception ends the function: the handlers on the way catch only `SubprocessError`. -/

namespace Freeshard
open Coroutine
set_option autoImplicit false

/-! ## Command lines -/

/-- `compose_command()` and `core/installed_apps` of this host. -/
structure Host where
  composeCommand : List String
  installedApps : String

namespace Host

def appDir (host : Host) (name : String) : String := host.installedApps ++ "/" ++ name

def composeFile (host : Host) (name : String) : String := host.appDir name ++ "/docker-compose.yml"

end Host

def ComposeCommand.args (host : Host) (c : ComposeCommand) : List String :=
  host.composeCommand ++ ["-f", host.composeFile c.appDir, "-p", c.project, "--project-directory",
    host.appDir c.appDir]

def ComposeCmd.args : ComposeCmd → List String
  | .up => ["up", "-d"]
  | .upNoStart => ["up", "--no-start"]
  | .pause => ["pause"]
  | .unpause => ["unpause"]
  | .stop => ["stop"]
  | .down => ["down"]

/-- The app whose compose an operation talks to, and what it says. -/
def Op.composeArgs : Op → Option (String × List String)
  | .compose name cmd => some (name, cmd.args)
  | .composePs name all => some (name, if all then ["ps", "-a", "-q"] else ["ps", "-q"])
  | _ => none

/-- `*_app_compose(name), *args`. -/
def World.commandLine (host : Host) (w : World) (name : String) (args : List String) :
    Except Exn (List String) :=
  (w.appCompose name).map fun c => c.args host ++ args

/-- What building a compose command may raise. -/
def Exn.unbuilt : Exn → Bool
  | .composeFileNotFound _ => true
  | .composeProjectNotAllowed _ => true
  | _ => false

/-- Building a command happens before anything is awaited, so nothing comes between. -/
def Env.building : Env := fun s _ op c =>
  ∀ name args, op.composeArgs = some (name, args) → (s.world.appCompose name).isOk = false →
    c = .proceed

instance (s : State) (i : Call) (op : Op) (c : Choice) : Decidable (Env.building s i op c) :=
  decidable_of_iff ((op.composeArgs.all fun line =>
      (s.world.appCompose line.1).isOk || decide (c = .proceed)) = true) <| by
    unfold Env.building
    cases op.composeArgs with
    | none => simp
    | some line =>
      obtain ⟨other, args⟩ := line
      cases hbuild : (s.world.appCompose other).isOk <;> simp_all

/-- A project name that compose leaves as it is, and not the core's. -/
structure ValidProject (project : String) : Prop where
  ne_empty : project ≠ ""
  pattern : matchesProjectPattern project = true
  ne_core : project ≠ coreProjectName
  fixed : normalizeProjectName project = project

/-- The command line names the app's own compose file, which exists, and a valid project. -/
structure Pinned (host : Host) (name : String) (dir : Option AppDir) (argv : List String) : Prop where
  file_exists : dir.any (·.compose) = true
  pinned : ∃ project args, ValidProject project ∧ argv = host.composeCommand ++
    ["-f", host.composeFile name, "-p", project, "--project-directory", host.appDir name] ++ args

theorem pinned_of_commandLine {host : Host} {w : World} {name : String} {args argv : List String}
    (h : w.commandLine host name args = .ok argv) : Pinned host name (w.appDirs name) argv := by
  unfold World.commandLine World.appCompose appComposeCommand at h
  dsimp only at h
  split_ifs at h with hfile hempty hcore
  · cases h
  · cases h
  · obtain rfl := Except.ok.inj h
    refine ⟨hfile, normalizeProjectName name, args, ⟨hempty, ?_, hcore, ?_⟩, rfl⟩
    · exact matchesProjectPattern_normalize hempty
    · exact normalizeProjectName_idempotent name
  · cases h

theorem unbuilt_of_appCompose {w : World} {name : String} {e : Exn}
    (h : w.appCompose name = .error e) : e.unbuilt = true := by
  unfold World.appCompose appComposeCommand at h
  dsimp only at h
  split_ifs at h <;> cases h <;> rfl

/-! ## Which exceptions end a function -/

/-- The operation could not build its command. -/
def unbuiltAnswer (op : Op) (r : Answer op) : Bool :=
  match r with
  | .ok _ => false
  | .error e => op.composeArgs.isSome && e.unbuilt

/-- Compose is talked to for one app only, and not at all once a command could not be built. -/
def pinning (name : String) : Protocol Op Ans Exn Bool where
  allows ended op := ∀ other args, op.composeArgs = some (other, args) → other = name ∧ ended = false
  after ended op r := ended || unbuiltAnswer op r

/-- If some command could not be built, `p` ends with that exception. -/
abbrev Escapes {α : Type} (name : String) (p : Coro α) : Prop :=
  p.Conforms (pinning name) false fun r ended => ended = true → ∃ e, r = .error e ∧ e.unbuilt = true

namespace Escapes
variable {α β : Type} {name : String}

theorem pure (a : α) : Escapes name (Pure.pure a : Coro α) := nofun

theorem throw (e : Exn) : Escapes name (MonadExcept.throw e : Coro α) := nofun

theorem perform {op : Op} (h : ∀ other args, op.composeArgs = some (other, args) → other = name) :
    Escapes name (awaitOp op) := by
  refine Prog.Conforms.perform (fun other args hop => ⟨h other args hop, rfl⟩) fun r hended => ?_
  cases r with
  | ok a => cases hended
  | error e =>
    change (op.composeArgs.isSome && e.unbuilt) = true at hended
    exact ⟨e, rfl, (Bool.and_eq_true _ _ ▸ hended).2⟩

theorem other {op : Op} (h : op.composeArgs = none) : Escapes name (awaitOp op) :=
  perform fun _ _ hop => by
    rw [h] at hop
    cases hop

theorem bind {p : Coro α} {f : α → Coro β} (hp : Escapes name p) (hf : ∀ a, Escapes name (f a)) :
    Escapes name (p >>= f) := by
  refine Prog.Conforms.bind hp (fun a ended h => ?_) fun e ended h hended => ?_
  · cases ended with
    | false => exact hf a
    | true =>
      obtain ⟨e, he, -⟩ := h rfl
      cases he
  · obtain ⟨e', he, hunbuilt⟩ := h hended
    obtain rfl := Except.error.inj he
    exact ⟨e, rfl, hunbuilt⟩

theorem onlyIf {c : Prop} [Decidable c] {body : Coro Unit} (h : Escapes name body) :
    Escapes name (onlyIf c body) := by
  unfold Freeshard.onlyIf
  split
  · exact h
  · exact pure ()

/-- A handler of `SubprocessError` lets the others pass. -/
theorem exceptSubprocessError {body : Coro α} {handle : String → Coro α} (hbody : Escapes name body)
    (hhandle : ∀ text, Escapes name (handle text)) :
    Escapes name (exceptSubprocessError body handle) := by
  refine Prog.Conforms.tryCatch hbody (fun a ended h hended => ?_) fun e ended h => ?_
  · obtain ⟨e, he, -⟩ := h hended
    cases he
  · cases ended with
    | false =>
      cases e with
      | subprocessError text => exact hhandle text
      | _ => exact throw _
    | true =>
      obtain ⟨e', he, hunbuilt⟩ := h rfl
      obtain rfl := Except.error.inj he
      cases e with
      | composeFileNotFound other | composeProjectNotAllowed other =>
        exact fun _ => ⟨_, rfl, rfl⟩
      | _ => cases hunbuilt

theorem forM {f : α → Coro Unit} {l : List α} (h : ∀ a, Escapes name (f a)) :
    Escapes name (l.forM f) := by
  induction l with
  | nil => exact pure ()
  | cons a l ih => exact bind (h a) fun _ => ih

end Escapes

/-! ## The functions that talk to compose -/

section Functions
variable {name : String}

theorem escapes_compose (cmd : ComposeCmd) : Escapes name (compose name cmd) :=
  Escapes.perform fun _ _ hop => by
    cases hop
    rfl

theorem escapes_composePs (all : Bool) : Escapes name (composePs name all) :=
  Escapes.perform fun _ _ hop => by
    cases hop
    rfl

theorem escapes_readStatus : Escapes name (readStatus name) :=
  Escapes.bind (Escapes.other rfl) fun _ => Escapes.pure _

theorem escapes_writeStatus (status : Status) : Escapes name (writeStatus name status) :=
  Escapes.bind (Escapes.other rfl) fun _ => Escapes.pure _

theorem escapes_notify : Escapes name sendOnAppsUpdate := Escapes.other rfl

theorem escapes_markRunning : Escapes name (markRunning name) :=
  (escapes_writeStatus .running).bind fun _ => escapes_notify

theorem escapes_getAppContainerState : Escapes name (getAppContainerState name) := by
  refine Escapes.exceptSubprocessError ((escapes_composePs true).bind fun ids => ?_) fun _ =>
    Escapes.pure _
  split
  · exact Escapes.pure _
  · exact Escapes.bind (Escapes.other rfl) fun _ => Escapes.pure _

theorem escapes_composeUp : Escapes name (composeUp name) := by
  have hagain : Escapes name (do compose name .down; compose name .up) :=
    (escapes_compose .down).bind fun _ => escapes_compose .up
  refine Escapes.exceptSubprocessError (escapes_compose .up) fun text => ?_
  split
  · exact hagain
  · split
    · exact hagain
    · exact Escapes.throw _

theorem escapes_reclaimComposeStack : Escapes name (reclaimComposeStack name) :=
  (escapes_composePs false).bind fun _ => Escapes.forM fun _ => Escapes.other rfl

theorem escapes_revive (status : Option Status) : Escapes name (revive name status) := by
  refine escapes_getAppContainerState.bind fun state => ?_
  cases state with
  | running => exact escapes_markRunning.onlyIf
  | paused =>
    refine Escapes.bind ?_ fun _ => escapes_markRunning
    exact Escapes.exceptSubprocessError (escapes_compose .unpause) fun _ => escapes_composeUp
  | exited | missing => exact escapes_composeUp.bind fun _ => escapes_markRunning

theorem escapes_dockerPauseApp : Escapes name (dockerPauseApp name) :=
  escapes_readStatus.bind fun _ => Escapes.onlyIf <| (escapes_compose .pause).bind fun _ =>
    escapes_reclaimComposeStack.bind fun _ => (escapes_writeStatus .paused).bind fun _ =>
      escapes_notify

theorem escapes_dockerUnpauseApp : Escapes name (dockerUnpauseApp name) :=
  escapes_readStatus.bind fun _ => Escapes.onlyIf <| (escapes_compose .unpause).bind fun _ =>
    escapes_markRunning

theorem escapes_dockerStopApp (setStatus : Bool) : Escapes name (dockerStopApp name setStatus) :=
  escapes_readStatus.bind fun _ => Escapes.onlyIf <|
    (escapes_compose .unpause).onlyIf.bind fun _ => (escapes_compose .stop).bind fun _ =>
      (escapes_writeStatus .stopped).onlyIf.bind fun _ => escapes_notify

theorem escapes_dockerShutdownApp (setStatus force : Bool) :
    Escapes name (dockerShutdownApp name setStatus force) :=
  escapes_readStatus.bind fun _ => Escapes.onlyIf <|
    (escapes_compose .unpause).onlyIf.bind fun _ => (escapes_compose .down).bind fun _ =>
      (escapes_writeStatus .down).onlyIf.bind fun _ => escapes_notify

/-- The functions that issue compose commands for an app. -/
inductive ComposeCall (name : String) : Coro Unit → Prop where
  | startApp : ComposeCall name (startApp name)
  | dockerCreateAppContainers : ComposeCall name (dockerCreateAppContainers name)
  | dockerPauseApp : ComposeCall name (dockerPauseApp name)
  | dockerUnpauseApp : ComposeCall name (dockerUnpauseApp name)
  | dockerStopApp (setStatus : Bool) : ComposeCall name (dockerStopApp name setStatus)
  | dockerShutdownApp (setStatus force : Bool) :
    ComposeCall name (dockerShutdownApp name setStatus force)
  | reclaimComposeStack : ComposeCall name (reclaimComposeStack name)

/-- If some command could not be built, the function ends with an exception. -/
abbrev Raises (r : Except Exn Unit) (ended : Bool) : Prop := ended = true → r.isOk = false

theorem raises_of_escapes {p : Coro Unit} (h : Escapes name p) :
    p.Conforms (pinning name) false Raises :=
  h.mono fun r ended h hended => by
    obtain ⟨e, rfl, -⟩ := h hended
    rfl

theorem raises_withAppOpLock {body : Coro Unit} (h : Escapes name body) :
    (withAppOpLock name body).Conforms (pinning name) false Raises := by
  have hacquire : Escapes name (awaitOp (.acquire name)) := Escapes.other rfl
  refine Prog.Conforms.bind hacquire (fun _ ended ha => ?_) fun e ended _ _ => rfl
  cases ended with
  | true =>
    obtain ⟨e, he, -⟩ := ha rfl
    cases he
  | false =>
    refine Prog.Conforms.tryFinally h fun r ended hr => ?_
    refine Prog.Conforms.perform (fun _ _ hop => by cases hop) fun r' => ?_
    have hafter : (pinning name).after ended (.release name) r' = ended := by
      cases r' <;> exact Bool.or_false ended
    rw [hafter]
    cases r' with
    | error e => exact fun _ => rfl
    | ok u =>
      intro hended
      obtain ⟨e, rfl, -⟩ := hr hended
      rfl

theorem ComposeCall.raises {p : Coro Unit} (h : ComposeCall name p) :
    p.Conforms (pinning name) false Raises := by
  cases h with
  | startApp =>
    have hthrottle : Escapes name (awaitOp (.throttle name)) := Escapes.other rfl
    refine Prog.Conforms.bind hthrottle (fun passes ended ht => ?_) fun e ended _ _ => rfl
    cases ended with
    | true =>
      obtain ⟨e, he, -⟩ := ht rfl
      cases he
    | false =>
      unfold onlyIf
      split
      · exact raises_withAppOpLock (escapes_readStatus.bind fun status =>
          (escapes_revive status).onlyIf)
      · exact fun hended => by cases hended
  | dockerCreateAppContainers => exact raises_of_escapes (escapes_compose .upNoStart)
  | dockerPauseApp => exact raises_of_escapes escapes_dockerPauseApp
  | dockerUnpauseApp => exact raises_of_escapes escapes_dockerUnpauseApp
  | dockerStopApp setStatus => exact raises_of_escapes (escapes_dockerStopApp setStatus)
  | dockerShutdownApp setStatus force =>
    exact raises_of_escapes (escapes_dockerShutdownApp setStatus force)
  | reclaimComposeStack => exact raises_of_escapes escapes_reclaimComposeStack

end Functions

/-! ## Main result -/

/-- The event is no compose command, one pinned to the app, or the failure to build one. -/
def Event.PinnedTo (host : Host) (name : String) (e : Event) : Prop :=
  ∀ other args, e.op.composeArgs = some (other, args) → other = name ∧
    ((∃ argv, e.before.commandLine host name args = .ok argv ∧
      Pinned host name (e.before.appDirs name) argv) ∨
    ∃ exn, e.before.commandLine host name args = .error exn ∧ e.answer = .error exn)

/-- Some command could not be built. -/
def Unbuilt (host : Host) (log : List Event) : Prop :=
  ∃ e ∈ log, ∃ other args, e.op.composeArgs = some (other, args) ∧
    (e.before.commandLine host other args).isOk = false

section Runs
variable {host : Host} {name : String} {i : Call} {s s' : State} {op : Op} {r : Answer op}

/-- An operation whose command cannot be built answers with what building it raises. -/
theorem Act.unbuilt_answer (ha : Act .building i s op r s') {other : String} {args : List String}
    (hop : op.composeArgs = some (other, args)) {e : Exn}
    (hbuild : s.world.appCompose other = .error e) : r = .error e := by
  obtain ⟨c, hc, he⟩ := ha.inv
  obtain rfl := hc other args hop (by rw [hbuild]; rfl)
  cases op with
  | compose n cmd | composePs n all =>
    cases hop
    simp only [World.exec, World.effect, hbuild, Option.some.injEq, Prod.mk.injEq] at he
    exact he.1.symm
  | _ => cases hop

/-- Whether a command could not be built, read off the log. -/
def ended (log : List Event) : Bool := log.any fun e => unbuiltAnswer e.op e.answer

theorem pinned_step (hop : (pinning name).allows (ended s.log) op)
    (h : ∀ e ∈ s.log, e.PinnedTo host name) (ha : Act .building i s op r s') :
    ∀ e ∈ s'.log, e.PinnedTo host name := by
  rw [ha.log]
  refine List.forall_mem_cons.mpr ⟨fun other args hargs => ?_, h⟩
  obtain ⟨rfl, -⟩ := hop other args hargs
  refine ⟨rfl, ?_⟩
  cases hbuild : s.world.appCompose other with
  | ok c =>
    have hline : s.world.commandLine host other args = .ok (c.args host ++ args) := by
      rw [World.commandLine, hbuild]
      rfl
    exact .inl ⟨_, hline, pinned_of_commandLine hline⟩
  | error e =>
    have hline : s.world.commandLine host other args = .error e := by
      rw [World.commandLine, hbuild]
      rfl
    exact .inr ⟨e, hline, ha.unbuilt_answer hargs hbuild⟩

theorem ended_of_unbuilt {log : List Event} (h : ∀ e ∈ log, e.PinnedTo host name)
    (hunbuilt : Unbuilt host log) : ended log = true := by
  obtain ⟨e, he, other, args, hargs, hline⟩ := hunbuilt
  obtain ⟨rfl, ⟨argv, hok, -⟩ | ⟨exn, herr, hanswer⟩⟩ := h e he other args hargs
  · rw [hok] at hline
    cases hline
  · refine List.any_eq_true.mpr ⟨e, he, ?_⟩
    have hexn : exn.unbuilt = true := by
      unfold World.commandLine at herr
      cases hbuild : e.before.appCompose other with
      | ok c =>
        rw [hbuild] at herr
        cases herr
      | error exn' =>
        rw [hbuild] at herr
        obtain rfl := Except.error.inj herr
        exact unbuilt_of_appCompose hbuild
    rw [hanswer]
    change (e.op.composeArgs.isSome && exn.unbuilt) = true
    rw [hargs, hexn]
    rfl

/-- Every compose command a function issues for an app names the app's own existing compose file and a
valid project that is not the core's; if a command cannot be built the function raises, and issues none. -/
theorem compose_commands_pinned (host : Host) {name : String} {p : Coro Unit}
    (hp : ComposeCall name p) {i : Call} {w : World} {res : Except Exn Unit} {s' : State}
    (h : p.Exec (Act .building i) ⟨w, []⟩ res s') :
    (∀ e ∈ s'.log, e.PinnedTo host name) ∧ (Unbuilt host s'.log → ∃ exn, res = .error exn) := by
  have htracks : ∀ s op r s', Act .building i s op r s' →
      ended s'.log = (pinning name).after (ended s.log) op r := by
    intro s op r s' ha
    rw [ha.log]
    exact Bool.or_comm _ _
  obtain ⟨hpinned, hraises⟩ := Prog.Conforms.exec htracks
    (I := fun s => ∀ e ∈ s.log, e.PinnedTo host name)
    (fun _ _ _ _ hop hs ha => pinned_step hop hs ha) hp.raises h fun _ he => absurd he
      List.not_mem_nil
  refine ⟨hpinned, fun hunbuilt => ?_⟩
  have hres := hraises (ended_of_unbuilt hpinned hunbuilt)
  cases res with
  | ok u => cases hres
  | error exn => exact ⟨exn, rfl⟩

/-- A running app is stopped. -/
theorem compose_commands_pinned_stop : ∃ host res s',
    host.composeCommand = ["docker", "compose"] ∧ (dockerStopApp "app" true).Exec (Act .building ⟨.stopApp, 0⟩)
      ⟨.withApp "app" .running (.single .running), []⟩ res s' ∧
    (s'.log.any fun e => e.op == .compose "app" .stop) = true ∧
    (∀ e ∈ s'.log, e.PinnedTo host "app") ∧ (Unbuilt host s'.log → ∃ exn, res = .error exn) := by
  obtain ⟨res, s', hexec, hstop⟩ := State.exists_exec .building ⟨.stopApp, 0⟩
    (dockerStopApp "app" true) ⟨.withApp "app" .running (.single .running), []⟩
    [.proceed, .docker (.ok ()) (.single .exited), .proceed, .proceed]
    (fun _ s' => s'.log.any fun e => e.op == .compose "app" .stop) (by decide)
  exact ⟨⟨["docker", "compose"], "/core/installed_apps"⟩, res, s', rfl, hexec, hstop,
    compose_commands_pinned _ (.dockerStopApp true) hexec⟩

end Runs

end Freeshard

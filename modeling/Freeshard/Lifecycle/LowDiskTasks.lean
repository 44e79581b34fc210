import Freeshard.Containers.Stop
import Freeshard.Lifecycle.Eligibility
import Freeshard.Service.ControlLoop

/-! # The tasks of a tick on a full disk

Each task of the tick stops one app, relying on the others to leave that app's row and containers to it: what they
share are the containers of apps with one compose project. What a task guarantees is what the others rely on. -/

namespace Freeshard.ControlLoop
open Coroutine
set_option autoImplicit false

/-! ## Containers that are being stopped -/

/-- What stopping and unfreezing may make of containers. -/
structure Thaws (K K' : Stack) : Prop where
  unfrozen : K.frozen = false → K'.frozen = false
  paused : K.states.all (· == .paused) = true → K'.states.all (· == .paused) = true ∨ K'.frozen = false
  nonempty : K.states ≠ [] → K'.states ≠ []

theorem Thaws.refl (K : Stack) : Thaws K K := ⟨id, .inl, id⟩

theorem Thaws.trans {K₁ K₂ K₃ : Stack} (h : Thaws K₁ K₂) (h' : Thaws K₂ K₃) : Thaws K₁ K₃ where
  unfrozen hK := h'.unfrozen (h.unfrozen hK)
  paused hK := by
    obtain hpaused | hunfrozen := h.paused hK
    · exact h'.paused hpaused
    · exact .inr (h'.unfrozen hunfrozen)
  nonempty hK := h'.nonempty (h.nonempty hK)

theorem mapState_states_ne {K : Stack} (f : DockerState → DockerState) (h : K.states ≠ []) :
    (K.mapState f).states ≠ [] := by
  rw [Stack.states_mapState]
  exact fun hnil => h (List.map_eq_nil_iff.mp hnil)

theorem frozen_of_paused {K : Stack} (h : K.states.all (· == .paused) = true) (hne : K.states ≠ []) :
    K.frozen = true := by
  obtain ⟨state, hmem⟩ := List.exists_mem_of_ne_nil _ hne
  rw [Stack.frozen, List.any_eq_true]
  exact ⟨state, hmem, List.all_eq_true.mp h state hmem⟩

theorem thaws_unpause {K K' : Stack} (h : ComposeCmd.unpause.leaves K K' = true) : Thaws K K' := by
  rw [ComposeCmd.leaves, beq_iff_eq] at h
  subst h
  exact ⟨fun _ => Stack.frozen_mapState_running K, fun _ => .inr (Stack.frozen_mapState_running K),
    mapState_states_ne _⟩

theorem thaws_stop {K K' : Stack} (haccepted : ComposeCmd.stop.accepted K = true)
    (h : ComposeCmd.stop.leaves K K' = true) : Thaws K K' := by
  have hunfrozen : K.frozen = false := by simpa [ComposeCmd.accepted, ComposeCmd.allowed] using haccepted
  rw [ComposeCmd.leaves, beq_iff_eq] at h
  subst h
  have hstopped : (K.mapState ComposeCmd.stopped).frozen = false := by
    rw [ComposeCmd.frozen_mapState_stopped]
    exact hunfrozen
  exact ⟨fun _ => hstopped, fun _ => .inr hstopped, mapState_states_ne _⟩

/-! ## Steps -/

/-- The disk is low when an operation is performed. -/
def LowDisk : Condition Op Ans Exn Shard Task := fun s _ _ => s.world.diskSpaceLow = true

instance (s : Record) (i : Task) (op : Op) : Decidable (LowDisk s i op) :=
  inferInstanceAs (Decidable (_ = true))

/-- The steps of a task on a full disk, with a Docker that carries out the commands it accepts. -/
abbrev Full (settings : Lifecycle.Settings) (i : Task) :
    Record → (op : Op) → Answer op → Record → Prop := Recorded.Act (act settings .exact) LowDisk i

abbrev worldOf (s : Record) : World := s.world.state.world

/-- The app has been unpaused. -/
def unpauses (name : String) : LogEntry → Bool
  | ⟨_, .tools (.compose other .unpause), .ok _, _⟩ => other == name
  | _ => false

def unpaused (name : String) (s : Record) : Bool := s.log.any (unpauses name)

/-- What the tasks of other apps leave to the task of an app. -/
structure Keeps (name : String) (s s' : Record) : Prop where
  status : (worldOf s').status name = (worldOf s).status name
  appDirs : (worldOf s').appDirs = (worldOf s).appDirs
  thaws : Thaws ((worldOf s).stack name) ((worldOf s').stack name)
  unpaused : unpaused name s' = unpaused name s

/-- What a step of a task that stops an app may do; `st` is the app's status when the tick starts. -/
structure Stops (name : String) (st : Option Status) (s s' : Record) : Prop where
  status : ∀ other ≠ name, (worldOf s').status other = (worldOf s).status other
  own : (worldOf s').status name = (worldOf s).status name ∨ (worldOf s').status name = some .stopped
  appDirs : (worldOf s').appDirs = (worldOf s).appDirs
  thaws : ∀ other, Thaws ((worldOf s).stack other) ((worldOf s').stack other)
  unpaused : ∀ other ≠ name, unpaused other s' = unpaused other s
  scheduled : s'.world.scheduled = s.world.scheduled
  gathering : s'.world.gathering = s.world.gathering
  last : ∃ e, s'.log = e :: s.log ∧ ∀ other cmd, e.op = .tools (.compose other cmd) →
    other = name ∧ (cmd = .stop ∨ cmd = .unpause ∧ st = some .paused)

/-- A step that leaves apps and containers alone. -/
structure Quiet (s s' : Record) : Prop where
  world : worldOf s' = worldOf s
  scheduled : s'.world.scheduled = s.world.scheduled
  gathering : s'.world.gathering = s.world.gathering ∨ ∃ tick g, s.world.gathering tick = none ∧
    g.apps = (worldOf s).installedApps.rows.filter Lifecycle.controlled ∧
    s'.world.gathering = Function.update s.world.gathering tick (some g)
  last : ∃ e, s'.log = e :: s.log ∧ ∀ other cmd, e.op ≠ .tools (.compose other cmd)

section Steps
variable {settings : Lifecycle.Settings} {i : Task} {name : String} {st : Option Status} {s s' s₁ s₂ s₃ : Record}

theorem Keeps.refl (name : String) (s : Record) : Keeps name s s := ⟨rfl, rfl, .refl _, rfl⟩

theorem Keeps.trans (h : Keeps name s₁ s₂) (h' : Keeps name s₂ s₃) : Keeps name s₁ s₃ where
  status := h'.status.trans h.status
  appDirs := h'.appDirs.trans h.appDirs
  thaws := h.thaws.trans h'.thaws
  unpaused := h'.unpaused.trans h.unpaused

theorem unpauses_of_op {e : LogEntry} (h : ∀ other, e.op ≠ .tools (.compose other .unpause)) :
    unpauses name e = false := by
  unfold unpauses
  split
  · next other u before => exact absurd rfl (h other)
  · rfl

theorem Quiet.unpaused (h : Quiet s s') (name : String) : unpaused name s' = unpaused name s := by
  obtain ⟨e, hlog, hop⟩ := h.last
  rw [ControlLoop.unpaused, hlog, List.any_cons, unpauses_of_op fun other => hop other .unpause]
  rfl

theorem Quiet.keeps (h : Quiet s s') (name : String) : Keeps name s s' := by
  have hworld := h.world
  refine ⟨?_, ?_, ?_, h.unpaused name⟩ <;> rw [hworld]
  exact .refl _

theorem Stops.keeps (h : Stops name st s s') {other : String} (hne : other ≠ name) : Keeps other s s' :=
  ⟨h.status other hne, h.appDirs, h.thaws other, h.unpaused other hne⟩

/-- An operation of the task that stops the app. -/
def StopOp (name : String) (st : Option Status) : Freeshard.Op → Prop
  | .getByName _ => True
  | .onAppsUpdate => True
  | .updateStatus other status => other = name ∧ status = .stopped
  | .compose other cmd => other = name ∧ (cmd = .stop ∨ cmd = .unpause ∧ st = some .paused)
  | _ => False

/-- What an operation of `app_tools.py` does. -/
theorem full_tools {op : Freeshard.Op} {r : Answer (.tools op)} (h : Full settings i s (.tools op) r s') :
    ∃ state, Freeshard.Act .exact i.call s.world.state op r state ∧
      s' = s.next i (.tools op) r { s.world with state := state } := by
  obtain ⟨-, w', ⟨state, ha, rfl⟩, rfl⟩ := h
  exact ⟨state, ha.mono (clocked_le .exact s.world.clock), rfl⟩

theorem thaws_compose {cmd : ComposeCmd} {call : Call} {t t' : State} {r : Freeshard.Answer (.compose name cmd)}
    (h : Freeshard.Act .exact call t (.compose name cmd) r t') (hcmd : cmd = .stop ∨ cmd = .unpause) (other : String) :
    Thaws (t.world.stack other) (t'.world.stack other) := by
  obtain ⟨-, hworld, -⟩ | ⟨-, haccepted, K, hleaves, hworld⟩ := h.compose_exact
  · rw [hworld]
    exact .refl _
  · rw [hworld]
    unfold World.stack World.setStack
    dsimp only
    by_cases hproject : normalizeProjectName other = normalizeProjectName name
    · rw [hproject, Function.update_self]
      obtain rfl | rfl := hcmd
      · exact thaws_stop haccepted hleaves
      · exact thaws_unpause hleaves
    · rw [Function.update_of_ne hproject]
      exact .refl _

theorem unpauses_ne {op : Freeshard.Op} {other : String} {r : Answer (.tools op)} {w : Shard}
    (hop : StopOp name st op) (hne : other ≠ name) : unpauses other ⟨i, .tools op, r, w⟩ = false := by
  cases op with
  | compose n cmd =>
    obtain ⟨rfl, -⟩ := hop
    unfold unpauses
    split
    · next heq =>
      cases heq
      exact beq_false_of_ne hne.symm
    · rfl
  | _ => rfl

theorem stops_of_full {op : Freeshard.Op} {r : Answer (.tools op)} (h : Full settings i s (.tools op) r s')
    (hop : StopOp name st op) : Stops name st s s' := by
  obtain ⟨t, ha, rfl⟩ := full_tools h
  have hwrites : ∀ other ≠ name, op.writesRow other = false := by
    intro other hne
    cases op with
    | updateStatus n status => exact beq_false_of_ne fun he => hne (he.symm.trans hop.1)
    | insert _ | remove _ => cases hop
    | _ => rfl
  have hdirs : ∀ other, op.appDir ≠ some other := by
    intro other
    cases op with
    | rmtree _ | moveUploadedZip _ _ | downloadAppZip _ | extractAppZip _ | unlinkZip _ | renderTemplate _ => cases hop
    | _ => exact fun hdir => by cases hdir
  refine ⟨fun other hne => ha.frame.status other (hwrites other hne), ?_,
    funext fun other => ha.frame.appDirs other (hdirs other), fun other => ?_, fun other hne => ?_, rfl, rfl, _, rfl, ?_⟩
  · cases ha.statusStep name with
    | same hsame => exact .inl hsame
    | inserted | removed => cases hop
    | updated hrow hstatus =>
      obtain ⟨-, rfl⟩ := hop
      exact .inr hstatus
  · cases op with
    | compose n cmd =>
      obtain ⟨rfl, hcmd⟩ := hop
      exact thaws_compose ha (hcmd.imp_right And.left) other
    | _ =>
      have hstack : t.world.stack other = (worldOf s).stack other := ha.frame.stack other rfl
      change Thaws _ (t.world.stack other)
      rw [hstack]
      exact .refl _
  · rw [unpaused, Recorded.next_log, List.any_cons, unpauses_ne hop hne]
    rfl
  · intro other cmd he
    obtain rfl := Op.tools.inj he
    exact hop

/-! ## Stopping one app among others -/

/-- One operation of a task that stops an app, after the others have had their turns. -/
theorem rg_tools {op : Freeshard.Op} {Φ : Answer (.tools op) → Record → Prop} (hop : StopOp name st op)
    (h : ∀ s₁, Keeps name s s₁ → ∀ r t, Freeshard.Act .exact i.call s₁.world.state op r t → ∀ s₂,
      worldOf s₂ = t.world →
      unpaused name s₂ = (unpauses name ⟨i, .tools op, r, s₁.world⟩ || unpaused name s₁) → Φ r s₂) :
    (tools (Freeshard.awaitOp op)).rg (Full settings i) (Keeps name) (Stops name st) Φ s := by
  rw [tools_perform]
  refine Prog.rg_perform fun s₁ hkeeps r s₂ hs => ⟨stops_of_full hs hop, ?_⟩
  obtain ⟨t, ha, rfl⟩ := full_tools hs
  exact h s₁ hkeeps r t ha _ rfl rfl

theorem rg_readStatus : (tools (readStatus name)).rg (Full settings i) (Keeps name) (Stops name st)
    (fun r s' => r = .ok ((worldOf s).status name) ∧ Keeps name s s') s := by
  have hget : (tools (getByName name)).rg (Full settings i) (Keeps name) (Stops name st)
      (fun r s' => (∃ row, r = .ok row ∧ row.map (·.status) = (worldOf s).status name) ∧ Keeps name s s') s := by
    refine rg_tools trivial fun s₁ hkeeps r t ha s₂ hworld hunpaused => ?_
    obtain ⟨rfl, hsame⟩ := ha.gotByName Env.exact_le_reliable
    rw [hsame] at hworld
    refine ⟨⟨_, rfl, hkeeps.status⟩, hkeeps.trans ?_⟩
    refine ⟨?_, ?_, ?_, hunpaused⟩ <;> rw [hworld]
    exact .refl _
  unfold readStatus
  rw [tools_bind]
  refine Prog.rg_bind hget ?_ ?_
  · rintro row s' ⟨⟨_, ⟨⟩, hrow⟩, hkeeps⟩
    exact ⟨congrArg _ hrow, hkeeps⟩
  · rintro e s' ⟨⟨_, ⟨⟩, -⟩, -⟩

/-- The app's compose commands can be built and none of its containers is frozen. -/
structure Haltable (w : World) (name : String) : Prop where
  compose : ∃ cc, w.appCompose name = .ok cc
  unfrozen : (w.stack name).frozen = false

theorem Keeps.appCompose (h : Keeps name s s') : (worldOf s').appCompose name = (worldOf s).appCompose name := by
  unfold World.appCompose
  rw [h.appDirs]

theorem Keeps.haltable (h : Keeps name s s') (hs : Haltable (worldOf s) name) : Haltable (worldOf s') name :=
  ⟨h.appCompose.symm ▸ hs.compose, h.thaws.unfrozen hs.unfrozen⟩

theorem rg_writeStatus (hrow : (worldOf s).status name ≠ none) :
    (tools (writeStatus name .stopped)).rg (Full settings i) (Keeps name) (Stops name st)
      (fun r s' => r = .ok () ∧ (worldOf s').status name = some .stopped ∧ unpaused name s' = unpaused name s) s := by
  have hupdate : (tools (updateStatus name .stopped)).rg (Full settings i) (Keeps name) (Stops name st)
      (fun r s' => r.isOk = true ∧ (worldOf s').status name = some .stopped ∧ unpaused name s' = unpaused name s) s := by
    refine rg_tools ⟨rfl, rfl⟩ fun s₁ hkeeps r t ha s₂ hworld hunpaused => ?_
    obtain ⟨rfl, hset⟩ := ha.updatedStatus Env.exact_le_reliable
    obtain ⟨old, hold⟩ := Option.ne_none_iff_exists'.mp hrow
    refine ⟨rfl, ?_, hunpaused.trans hkeeps.unpaused⟩
    rw [hworld, hset, World.setStatus_status_self, hkeeps.status, hold]
    rfl
  unfold writeStatus
  rw [tools_bind]
  refine Prog.rg_bind hupdate ?_ ?_
  · rintro row s' ⟨-, h⟩
    exact ⟨rfl, h⟩
  · rintro e s' ⟨⟨⟩, -⟩

theorem rg_sendOnAppsUpdate :
    (tools sendOnAppsUpdate).rg (Full settings i) (Keeps name) (Stops name st)
      (fun _ s' => (worldOf s').status name = (worldOf s).status name ∧ unpaused name s' = unpaused name s) s := by
  refine rg_tools trivial fun s₁ hkeeps r t ha s₂ hworld hunpaused => ⟨?_, hunpaused.trans hkeeps.unpaused⟩
  rw [hworld, ha.notified]
  exact hkeeps.status

/-- From `compose stop` on: what returns has stopped the app, and it does so where Docker accepts the command. -/
theorem rg_stop (hrow : (worldOf s).status name ≠ none) :
    (tools (do
      compose name .stop
      onlyIf (true = true) (writeStatus name .stopped)
      sendOnAppsUpdate : Freeshard.Coro Unit)).rg (Full settings i) (Keeps name) (Stops name st)
      (fun r s' => (r = .ok () ∨ Haltable (worldOf s) name → (worldOf s').status name = some .stopped) ∧
        unpaused name s' = unpaused name s) s := by
  have hstop : (tools (compose name .stop)).rg (Full settings i) (Keeps name) (Stops name st)
      (fun r s' => (r.isOk = false → ¬Haltable (worldOf s) name) ∧
        (worldOf s').status name = (worldOf s).status name ∧ unpaused name s' = unpaused name s) s := by
    refine rg_tools ⟨rfl, .inl rfl⟩ fun s₁ hkeeps r t ha s₂ hworld hunpaused => ⟨fun hr hhaltable => ?_, ?_, ?_⟩
    · have hhaltable₁ := hkeeps.haltable hhaltable
      obtain ⟨-, -, hrefused⟩ | ⟨rfl, -⟩ := ha.compose_exact
      · have haccepted := hrefused hhaltable₁.compose
        simp [ComposeCmd.accepted, ComposeCmd.allowed, hhaltable₁.unfrozen] at haccepted
      · cases hr
    · rw [hworld]
      exact (ha.frame.status name rfl).trans hkeeps.status
    · exact hunpaused.trans hkeeps.unpaused
  rw [tools_bind]
  refine Prog.rg_bind hstop (fun _ s₁ h₁ => ?_) fun e s₁ h₁ => ?_
  · rw [tools_bind, onlyIf_pos rfl]
    have hrow₁ : (worldOf s₁).status name ≠ none := h₁.2.1 ▸ hrow
    refine Prog.rg_bind (rg_writeStatus hrow₁) (fun _ s₂ h₂ => ?_) fun e s₂ h₂ => by cases h₂.1
    refine Prog.rg_mono rg_sendOnAppsUpdate fun r s₃ h₃ => ⟨fun _ => h₃.1.trans h₂.2.1, ?_⟩
    exact h₃.2.trans (h₂.2.2.trans h₁.2.2)
  · refine ⟨?_, h₁.2.2⟩
    rintro (⟨⟨⟩⟩ | hhaltable)
    exact absurd hhaltable (h₁.1 rfl)

/-- The stored status is one of those that a full disk is to end. -/
def ToStop (w : World) (name : String) : Prop := w.status name = some .running ∨ w.status name = some .paused

/-- Nothing has been done to an app of `w` yet, but containers that it shares may have been unfrozen or stopped. -/
structure Untouched (w : World) (name : String) (s : Record) : Prop where
  status : (worldOf s).status name = w.status name
  appDirs : (worldOf s).appDirs = w.appDirs
  running : w.status name = some .running → ((worldOf s).stack name).frozen = false
  paused : w.status name = some .paused → ((worldOf s).stack name).states.all (· == .paused) = true ∨
    ((worldOf s).stack name).frozen = false
  unpaused : unpaused name s = false

/-- What the task that stops an app of `w` ends in. A paused app is not stopped if it shares its containers with one that
has unfrozen them. -/
structure Outcome (w : World) (name : String) (r : Except Exn Unit) (s : Record) : Prop where
  returned : r = .ok () → (worldOf s).status name ∉ stoppableStatus.map some
  unreadable : (w.getAppMetadata name).isOk = false → (worldOf s).status name = w.status name
  running : (w.getAppMetadata name).isOk = true → w.status name = some .running →
    (worldOf s).status name = some .stopped
  paused : (w.getAppMetadata name).isOk = true → w.status name = some .paused →
    (worldOf s).status name = some .stopped ∧ unpaused name s = true ∨
      (worldOf s).status name = some .paused ∧ ((worldOf s).stack name).frozen = false ∧ unpaused name s = false

variable {w : World}

theorem Untouched.keeps (h : Untouched w name s) (hkeeps : Keeps name s s') : Untouched w name s' where
  status := hkeeps.status.trans h.status
  appDirs := hkeeps.appDirs.trans h.appDirs
  running hst := hkeeps.thaws.unfrozen (h.running hst)
  paused hst := by
    obtain hpaused | hunfrozen := h.paused hst
    · exact hkeeps.thaws.paused hpaused
    · exact .inr (hkeeps.thaws.unfrozen hunfrozen)
  unpaused := hkeeps.unpaused.trans h.unpaused

theorem Outcome.keeps {r : Except Exn Unit} (h : Outcome w name r s) (hkeeps : Keeps name s s') :
    Outcome w name r s' := by
  obtain ⟨hreturned, hunreadable, hrunning, hpaused⟩ := h
  refine ⟨?_, ?_, ?_, ?_⟩ <;> rw [hkeeps.status]
  · exact hreturned
  · exact hunreadable
  · exact hrunning
  · intro hread hst
    rw [hkeeps.unpaused]
    exact (hpaused hread hst).imp_right fun h => ⟨h.1, hkeeps.thaws.unfrozen h.2.1, h.2.2⟩

theorem Untouched.appCompose (h : Untouched w name s) : (worldOf s).appCompose name = w.appCompose name := by
  unfold World.appCompose
  rw [h.appDirs]

/-- Unfreezing succeeds and is recorded, or the containers are not frozen any more. -/
theorem rg_unpause (h : Untouched w name s) (hst : w.status name = some .paused)
    (hcompose : ∃ cc, w.appCompose name = .ok cc) :
    (tools (compose name .unpause)).rg (Full settings i) (Keeps name) (Stops name (w.status name))
      (fun r s' => (worldOf s').status name = some .paused ∧ ((worldOf s').stack name).frozen = false ∧
        (worldOf s').appCompose name = w.appCompose name ∧ unpaused name s' = r.isOk) s := by
  refine rg_tools ⟨rfl, .inr ⟨rfl, hst⟩⟩ fun s₁ hkeeps r t ha s₂ hworld hunpaused => ?_
  have h₁ := h.keeps hkeeps
  have hstatus : t.world.status name = some .paused := (ha.frame.status name rfl).trans (h₁.status.trans hst)
  have hdirs : t.world.appCompose name = w.appCompose name := by
    rw [← h₁.appCompose]
    unfold World.appCompose
    rw [ha.frame.appDirs name nofun]
  have hlog : unpauses name ⟨i, .tools (.compose name .unpause), r, s₁.world⟩ = r.isOk := by
    cases r with
    | ok u => exact beq_self_eq_true name
    | error e => rfl
  rw [hlog, h₁.unpaused, Bool.or_false] at hunpaused
  rw [hworld]
  refine ⟨hstatus, ?_, hdirs, hunpaused⟩
  obtain ⟨-, hsame, hrefused⟩ | ⟨-, -, K, hleaves, hset⟩ := ha.compose_exact
  · obtain hpaused | hunfrozen := h₁.paused hst
    · have haccepted := hrefused (h₁.appCompose.symm ▸ hcompose)
      rw [ComposeCmd.accepted, hpaused] at haccepted
      cases haccepted
    · rw [hsame]
      exact hunfrozen
  · rw [ComposeCmd.leaves, beq_iff_eq] at hleaves
    rw [hset, World.setStack_stack_self, hleaves]
    exact Stack.frozen_mapState_running _

theorem rg_dockerStopApp (h : Untouched w name s) (hread : (w.getAppMetadata name).isOk = true)
    (hcompose : ToStop w name → ∃ cc, w.appCompose name = .ok cc) :
    (tools (dockerStopApp name true)).rg (Full settings i) (Keeps name) (Stops name (w.status name))
      (Outcome w name) s := by
  unfold dockerStopApp
  rw [tools_bind]
  refine Prog.rg_bind rg_readStatus ?_ fun e s' h' => by cases h'.1
  rintro st s₁ ⟨hstatus, hkeeps⟩
  have h₁ := h.keeps hkeeps
  obtain rfl : st = w.status name := (Except.ok.inj hstatus).trans h.status
  have hnot : some Status.stopped ∉ stoppableStatus.map some := by decide
  by_cases hst : w.status name ∈ stoppableStatus.map some
  · rw [onlyIf_pos hst]
    by_cases hpaused : w.status name = some .paused
    · rw [onlyIf_pos hpaused, tools_bind]
      refine Prog.rg_bind (rg_unpause h₁ hpaused (hcompose (.inr hpaused))) (fun _ s₂ h₂ => ?_) fun e s₂ h₂ => ?_
      · have hhaltable : Haltable (worldOf s₂) name := ⟨h₂.2.2.1.symm ▸ hcompose (.inr hpaused), h₂.2.1⟩
        have hrow : (worldOf s₂).status name ≠ none := by rw [h₂.1]; exact Option.some_ne_none _
        refine Prog.rg_mono (rg_stop hrow) fun r s₃ h₃ => ?_
        have hstopped := h₃.1 (.inr hhaltable)
        refine ⟨fun _ => hstopped ▸ hnot, fun hno => ?_, fun _ _ => hstopped, fun _ _ => .inl ⟨hstopped, ?_⟩⟩
        · rw [hread] at hno
          cases hno
        · exact h₃.2.trans h₂.2.2.2
      · refine ⟨fun hr => (by cases hr), fun _ => h₂.1.trans hpaused.symm, fun _ hrunning => ?_, fun _ _ => .inr ?_⟩
        · rw [hpaused] at hrunning
          cases hrunning
        · exact ⟨h₂.1, h₂.2.1, h₂.2.2.2⟩
    · rw [onlyIf_neg hpaused, pure_bind]
      have hrow : (worldOf s₁).status name ≠ none := by
        rw [h₁.status]
        intro hnone
        rw [hnone] at hst
        exact absurd hst (by decide)
      refine Prog.rg_mono (rg_stop hrow) fun r s₃ h₃ => ?_
      refine ⟨fun hr => h₃.1 (.inl hr) ▸ hnot, fun hno => ?_, fun _ hrunning => h₃.1 (.inr ?_), fun _ hst => ?_⟩
      · rw [hread] at hno
        cases hno
      · exact ⟨h₁.appCompose.symm ▸ hcompose (.inl hrunning), h₁.running hrunning⟩
      · exact absurd hst hpaused
  · rw [onlyIf_neg hst]
    refine ⟨fun _ => h₁.status.symm ▸ hst, fun _ => h₁.status, fun _ hrunning => ?_, fun _ hpaused => ?_⟩
    · rw [hrunning] at hst
      exact absurd (by decide) hst
    · rw [hpaused] at hst
      exact absurd (by decide) hst

/-! ## The tasks of a tick -/

theorem quiet_looked {op : Op} {r : Answer op} (hop : ∀ other cmd, op ≠ .tools (.compose other cmd)) :
    Quiet s (s.next i op r s.world) := ⟨rfl, rfl, .inl rfl, _, rfl, hop⟩

theorem Quiet.stops (h : Quiet s s') (hgathering : s'.world.gathering = s.world.gathering) : Stops name st s s' := by
  have hworld := h.world
  obtain ⟨e, hlog, hop⟩ := h.last
  refine ⟨?_, .inl ?_, ?_, fun other => (h.keeps other).thaws, fun other _ => h.unpaused other, h.scheduled,
    hgathering, e, hlog, fun other cmd he => absurd he (hop other cmd)⟩ <;> rw [hworld]
  exact fun _ _ => rfl

/-- `_control_app_time` on a full disk. -/
theorem rg_controlAppTime {app : InstalledApp} (h : Untouched w app.name s)
    (hcompose : ToStop w app.name → ∃ cc, w.appCompose app.name = .ok cc) :
    (controlAppTime app).rg (Full settings i) (Keeps app.name) (Stops app.name (w.status app.name))
      (Outcome w app.name) s := by
  have hdecision : (awaitOp (.controlAppTime app)).rg (Full settings i) (Keeps app.name)
      (Stops app.name (w.status app.name)) (fun r s' => Untouched w app.name s' ∧
        ((w.getAppMetadata app.name).isOk = true → r = .ok [.dockerStopApp app.name]) ∧
        ((w.getAppMetadata app.name).isOk = false → r.isOk = false)) s := by
    refine Prog.rg_perform ?_
    rintro s₁ hkeeps r _ ⟨hlow, w', ha, rfl⟩
    have hdisk : s₁.world.view.diskSpaceLow = true := hlow
    have h₁ := h.keeps hkeeps
    obtain ⟨rfl, rfl⟩ := Prod.mk.inj (Option.some.inj ha)
    have hquiet : Quiet s₁ (s₁.next i (.controlAppTime app) (decision s₁.world.view
        (Lifecycle.controlAppTime settings settings.pauseEnabled app)) s₁.world) := quiet_looked fun _ _ => nofun
    have hmeta : s₁.world.view.Readable app = (w.getAppMetadata app.name).isOk := by
      unfold Lifecycle.World.Readable Shard.view World.getAppMetadata
      dsimp only
      rw [h₁.appDirs]
    refine ⟨hquiet.stops rfl, h₁.keeps (hquiet.keeps app.name), fun hread => ?_, fun hunread => ?_⟩
    · rw [decision, Lifecycle.World.issues,
        Lifecycle.controlAppTime_lowDisk settings.pauseEnabled hdisk (hmeta.trans hread)]
      rfl
    · have herror : ∃ e, ((Lifecycle.controlAppTime settings settings.pauseEnabled app).eval
          s₁.world.view.effect []).1 = .error e := Lifecycle.controlAppTime_error (hmeta.trans hunread) _
      obtain ⟨e, he⟩ := herror
      rw [decision, he]
      rfl
  refine Prog.rg_bind hdecision ?_ ?_
  · rintro operations s₁ ⟨h₁, hread, hunread⟩
    cases hmeta : (w.getAppMetadata app.name).isOk with
    | false => cases hunread hmeta
    | true =>
      obtain rfl := Except.ok.inj (hread hmeta)
      exact Prog.rg_bind (rg_dockerStopApp h₁ hmeta hcompose) (fun _ _ h₂ => h₂) fun _ _ h₂ => h₂
  · rintro e s₁ ⟨h₁, hread, -⟩
    have hunread : (w.getAppMetadata app.name).isOk ≠ true := fun hok => by cases hread hok
    exact ⟨fun hr => (by cases hr), fun _ => h₁.status, fun hok => absurd hok hunread, fun hok => absurd hok hunread⟩

/-- Others do nothing to a status but make it STOPPED. -/
def Settles (s s' : Record) : Prop :=
  ∀ name, (worldOf s').status name = (worldOf s).status name ∨ (worldOf s').status name = some .stopped

theorem Settles.trans (h : Settles s₁ s₂) (h' : Settles s₂ s₃) : Settles s₁ s₃ := by
  intro name
  obtain heq | hstopped := h' name
  · rw [heq]
    exact h name
  · exact .inr hstopped

theorem Quiet.settles (h : Quiet s s') : Settles s s' := by
  have hworld := h.world
  intro name
  rw [hworld]
  exact .inl rfl

theorem Stops.settles (h : Stops name st s s') : Settles s s' := by
  intro other
  by_cases hne : other = name
  · subst hne
    exact h.own
  · exact .inl (h.status other hne)

/-- Nothing is left to stop. -/
def Spent (apps : List InstalledApp) (s : Record) : Prop :=
  ∀ app ∈ apps, (worldOf s).status app.name ∉ stoppableStatus.map some

theorem Spent.settles {apps : List InstalledApp} (h : Spent apps s) (hs : Settles s s') : Spent apps s' := by
  intro app hmem
  obtain heq | hstopped := hs app.name
  · rw [heq]
    exact h app hmem
  · rw [hstopped]
    decide

theorem rg_perform_spent {apps : List InstalledApp} {operation : Lifecycle.Operation} {app : InstalledApp}
    (hmem : app ∈ apps) (hhalts : operation.halts = some app.name) (h : Spent apps s) :
    (perform operation).rg (Full settings i) Settles Quiet (fun _ => Spent apps) s := by
  have hget : (tools (readStatus app.name)).rg (Full settings i) Settles Quiet
      (fun r s' => (∀ st, r = .ok st → st ∉ stoppableStatus.map some) ∧ Spent apps s') s := by
    unfold readStatus getByName
    rw [tools_bind, tools_perform]
    refine Prog.rg_bind (Φ := fun r s' => (∀ row, r = .ok row → row.map (·.status) ∉ stoppableStatus.map some) ∧
      Spent apps s') (Prog.rg_perform fun s₁ hsettles r s₂ hs => ?_) ?_ ?_
    · have h₁ := h.settles hsettles
      obtain ⟨t, ha, rfl⟩ := full_tools hs
      obtain ⟨rfl, hworld⟩ := ha.gotByName Env.exact_le_reliable
      refine ⟨⟨hworld, rfl, .inl rfl, _, rfl, fun _ _ => nofun⟩, fun row hrow => ?_, ?_⟩
      · obtain rfl := Except.ok.inj hrow
        exact h₁ app hmem
      · intro other hother
        change t.world.status other.name ∉ _
        rw [hworld]
        exact h₁ other hother
    · rintro row s₁ ⟨hrow, h₁⟩
      refine ⟨fun st hst => ?_, h₁⟩
      obtain rfl := Except.ok.inj hst
      exact hrow row rfl
    · rintro e s₁ ⟨-, h₁⟩
      exact ⟨nofun, h₁⟩
  cases operation with
  | startApp name => cases hhalts
  | dockerPauseApp name =>
    obtain rfl := Option.some.inj hhalts
    rw [perform, dockerPauseApp, tools_bind]
    refine Prog.rg_bind hget ?_ fun _ _ h₁ => h₁.2
    rintro st s₁ ⟨hst, h₁⟩
    have hrunning : st ≠ some .running := fun he => hst st rfl (by rw [he]; decide)
    rw [onlyIf_neg hrunning]
    exact h₁
  | dockerStopApp name =>
    obtain rfl := Option.some.inj hhalts
    rw [perform, dockerStopApp, tools_bind]
    refine Prog.rg_bind hget ?_ fun _ _ h₁ => h₁.2
    rintro st s₁ ⟨hst, h₁⟩
    rw [onlyIf_neg (hst st rfl)]
    exact h₁

theorem rg_performs_spent {apps : List InstalledApp} {operations : List Lifecycle.Operation}
    (hoperations : ∀ operation ∈ operations, ∃ app ∈ apps, operation.halts = some app.name) (h : Spent apps s) :
    (operations.forM perform).rg (Full settings i) Settles Quiet (fun _ => Spent apps) s := by
  induction operations generalizing s with
  | nil => exact h
  | cons operation operations ih =>
    obtain ⟨app, hmem, hhalts⟩ := hoperations operation List.mem_cons_self
    refine Prog.rg_bind (rg_perform_spent hmem hhalts h) (fun _ s₁ h₁ => ?_) fun _ _ h₁ => h₁
    exact ih (fun other hother => hoperations other (List.mem_cons_of_mem _ hother)) h₁

/-- `_demote_lru` after all apps have been stopped. -/
theorem rg_demoteLru {apps : List InstalledApp} (h : Spent apps s) :
    (demoteLru apps).rg (Full settings i) Settles Quiet (fun _ => Spent apps) s := by
  refine Prog.rg_bind (Φ := fun r s' => (∀ operations, r = .ok operations → ∀ operation ∈ operations,
    ∃ app ∈ apps, operation.halts = some app.name) ∧ Spent apps s') (Prog.rg_perform ?_) ?_ fun _ _ h₁ => h₁.2
  · rintro s₁ hsettles r _ ⟨-, w', ha, rfl⟩
    obtain ⟨rfl, rfl⟩ := Prod.mk.inj (Option.some.inj ha)
    refine ⟨quiet_looked fun _ _ => nofun, fun operations hr operation hmem => ?_, h.settles hsettles⟩
    obtain ⟨victim, hvictim, hhalts, -⟩ := Lifecycle.demoteLru_victim (issues_of_decision hr ▸ hmem)
    exact ⟨victim, hvictim, hhalts⟩
  · rintro operations s₁ ⟨hoperations, h₁⟩
    exact rg_performs_spent (hoperations operations rfl) h₁

end Steps
end Freeshard.ControlLoop

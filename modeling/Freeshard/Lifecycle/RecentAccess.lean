import Freeshard.Lifecycle.Eligibility
import Freeshard.Service.ControlLoop
import Freeshard.Service.Footprints

/-! # Accesses between a decision and its command

A tick decides on the access times it finds, and then reads the database before it freezes or stops an app. An access
in between is not noticed: `start_app` finds the containers running, and the command comes after it. -/

namespace Freeshard.ControlLoop
open Coroutine
set_option autoImplicit false

/-! ## Decisions and commands -/

/-- The app that a command freezes or stops. -/
def Op.halts : Op → Option String
  | .tools (.compose name .pause) => some name
  | .tools (.compose name .stop) => some name
  | _ => none

def Op.accesses (name : String) : Op → Bool
  | .recordAccess _ other => other == name
  | _ => false

def Op.decides : Op → Bool
  | .controlAppTime _ => true
  | .demoteLru _ => true
  | _ => false

/-- What an operation has decided on. -/
def decided : (op : Op) → Answer op → List Lifecycle.Operation
  | .controlAppTime _, .ok operations => operations
  | .demoteLru _, .ok operations => operations
  | _, _ => []

/-- The decision of a task. -/
def decisionOf (i : Task) (e : LogEntry) : Bool := decide (e.caller = i) && e.op.decides

/-- It was the idle policy's or memory pressure's, and not a low disk's. -/
def byPolicy (e : LogEntry) : Bool :=
  match e.op with
  | .controlAppTime _ => !e.before.diskSpaceLow
  | .demoteLru _ => true
  | _ => false

def lastDecision (i : Task) (log : List LogEntry) : Option LogEntry := log.find? (decisionOf i)

/-- The app that a command of the task freezes or stops by policy. -/
def policyTarget (i : Task) (log : List LogEntry) (op : Op) : Option String :=
  if (lastDecision i log).any byPolicy then op.halts else none

/-- The app has not been accessed since the task's decision. -/
def undisturbed (i : Task) (name : String) (log : List LogEntry) : Bool :=
  (log.takeWhile fun e => !decisionOf i e).all fun e => !e.op.accesses name

/-- What policy decides on is issued before the next access to its app. -/
def Undisturbed : Condition Op Ans Exn Shard Task := fun s i op =>
  ∀ name ∈ policyTarget i s.log op, undisturbed i name s.log = true

instance (s : Record) (i : Task) (op : Op) : Decidable (Undisturbed s i op) :=
  inferInstanceAs (Decidable (∀ _ ∈ policyTarget i s.log op, _))

/-- Whenever a command that freezes or stops an app by policy has been issued, the last access to the app was not
recent. -/
def SparesAccessed (s : Record) : Prop :=
  ∀ e log, (e :: log) <:+ s.log → ∀ name ∈ policyTarget e.caller log e.op, e.before.view.Idle name

/-! ## Commands follow decisions -/

/-- A task freezes and stops only apps that it has decided on. -/
def decisive : Protocol Op Ans Exn (List Lifecycle.Operation) where
  allows l op := ∀ name ∈ op.halts, ∃ operation ∈ l, operation.halts = some name
  after l op r := if op.decides then decided op r else l

theorem phaseOf_decisive (i : Task) (log : List LogEntry) :
    Recorded.phaseOf (fun _ => decisive) (fun _ => []) i log =
      ((lastDecision i log).map fun e => decided e.op e.answer).getD [] := by
  induction log with
  | nil => rfl
  | cons e log ih =>
    unfold lastDecision at ih ⊢
    rw [Recorded.phaseOf, List.find?_cons]
    by_cases hcaller : e.caller = i
    · rw [if_pos hcaller, ih]
      cases hdecides : e.op.decides with
      | true =>
        rw [decisionOf, decide_eq_true hcaller, hdecides]
        simp [decisive, hdecides]
      | false =>
        rw [decisionOf, decide_eq_true hcaller, hdecides]
        simp [decisive, hdecides]
    · rw [if_neg hcaller, ih, decisionOf, decide_eq_false hcaller, Bool.false_and]

theorem Uses.tools {α : Type} {φ : Freeshard.Op → Prop} {p : Freeshard.Coro α} (h : p.Uses φ) :
    (tools p).Uses fun op => ∃ op', op = .tools op' ∧ φ op' := by
  induction p with
  | ret a => trivial
  | raise e => trivial
  | await op next ih => exact ⟨⟨op, rfl, h.1⟩, fun r => ih r (h.2 r)⟩

/-- What stays within a footprint freezes and stops only apps that have been decided on. -/
theorem conforms_tools {f : Footprint} {name : String} {p : Freeshard.Coro Unit} (h : Bounded f name p)
    {l : List Lifecycle.Operation}
    (hl : .pause ∈ f.commands ∨ .stop ∈ f.commands → ∃ operation ∈ l, operation.halts = some name) :
    (tools p).Conforms decisive l fun _ l' => l' = l := by
  refine Prog.Conforms.of_uses (Uses.tools h.uses) ?_ rfl
  rintro _ ⟨op, rfl, hop⟩ _ rfl
  refine ⟨fun other hother => ?_, fun _ => rfl⟩
  cases op with
  | compose n cmd =>
    obtain ⟨rfl, hmem⟩ := hop
    cases cmd with
    | pause =>
      obtain rfl := Option.some.inj hother
      exact hl (.inl hmem)
    | stop =>
      obtain rfl := Option.some.inj hother
      exact hl (.inr hmem)
    | _ => cases hother
  | _ => cases hother

theorem conforms_startApp (name : String) (l : List Lifecycle.Operation) :
    (tools (startApp name)).Conforms decisive l fun _ l' => l' = l :=
  conforms_tools bounds_startApp fun h => by simp at h

theorem conforms_perform {operation : Lifecycle.Operation} {l : List Lifecycle.Operation} (hmem : operation ∈ l) :
    (perform operation).Conforms decisive l fun _ l' => l' = l := by
  cases operation with
  | startApp name => exact conforms_startApp name l
  | dockerPauseApp name => exact conforms_tools bounds_dockerPauseApp fun _ => ⟨_, hmem, rfl⟩
  | dockerStopApp name => exact conforms_tools (bounds_dockerStopApp true) fun _ => ⟨_, hmem, rfl⟩

theorem conforms_performs {operations l : List Lifecycle.Operation} (hsub : operations ⊆ l) :
    (operations.forM perform).Conforms decisive l fun _ l' => l' = l := by
  induction operations with
  | nil => rfl
  | cons operation operations ih =>
    refine Prog.Conforms.bind (conforms_perform (hsub List.mem_cons_self)) ?_ fun _ _ h => h
    rintro _ _ rfl
    exact ih fun _ hmem => hsub (List.mem_cons_of_mem _ hmem)

theorem conforms_ensureAppIsRunning (id : ℕ) (app : InstalledApp) :
    (ensureAppIsRunning id app).Conforms decisive [] fun _ _ => True := by
  have huses : (ensureAppIsRunning id app).Uses fun op => op.halts = none ∧ op.decides = false := by
    refine Prog.Uses.bind ((Prog.uses_perform _).mpr ⟨rfl, rfl⟩) fun low => ?_
    split
    · trivial
    · refine Prog.Uses.bind ((Prog.uses_perform _).mpr ⟨rfl, rfl⟩) fun appMeta => ?_
      refine Prog.Uses.bind ((Prog.uses_perform _).mpr ⟨rfl, rfl⟩) fun compatible => ?_
      split
      · exact (Prog.uses_perform _).mpr ⟨rfl, rfl⟩
      · trivial
  refine Prog.Conforms.mono (Prog.Conforms.of_uses (I := fun _ => True) huses ?_ trivial) fun _ _ _ => trivial
  rintro op ⟨hop, -⟩ l -
  refine ⟨fun name hname => ?_, fun _ => trivial⟩
  rw [hop] at hname
  cases hname

theorem conforms_quiet {op : Op} (hop : op.halts = none) (Q : Answer op → List Lifecycle.Operation → Prop)
    (hQ : ∀ r, Q r (decisive.after [] op r)) : (awaitOp op).Conforms decisive [] Q := by
  refine Prog.Conforms.perform (fun name hname => ?_) hQ
  rw [hop] at hname
  cases hname

theorem conforms_create {c : Loop} {i : Task} {p : Coro Unit} (h : create c i = some p) :
    p.Conforms decisive [] fun _ _ => True := by
  cases i with
  | machine id | controlApps tick =>
    cases h
    exact conforms_quiet rfl _ fun _ => trivial
  | ensureAppIsRunning id app =>
    cases h
    exact conforms_ensureAppIsRunning id app
  | startApp access =>
    obtain ⟨name, -, rfl⟩ := Option.map_eq_some_iff.mp h
    exact (conforms_startApp name []).mono fun _ _ _ => trivial
  | controlAppTime tick k =>
    obtain ⟨g, -, hg⟩ := Option.bind_eq_some_iff.mp h
    obtain ⟨app, -, rfl⟩ := Option.map_eq_some_iff.mp hg
    refine Prog.Conforms.bind (conforms_quiet rfl (fun r l => l = decided _ r) fun _ => rfl) ?_ fun _ _ _ => trivial
    rintro operations _ rfl
    exact (conforms_performs (List.Subset.refl _)).mono fun _ _ _ => trivial
  | demoteLru tick =>
    obtain ⟨g, -, hg⟩ := Option.bind_eq_some_iff.mp h
    split at hg
    · cases hg
      refine Prog.Conforms.bind (conforms_quiet rfl (fun r l => l = decided _ r) fun _ => rfl) ?_ fun _ _ _ => trivial
      rintro operations _ rfl
      exact (conforms_performs (List.Subset.refl _)).mono fun _ _ _ => trivial
    · cases hg

/-! ## The access times -/

variable {settings : Lifecycle.Settings} {E : Env} {i j : Task} {w w' : Shard} {op : Op} {r : Answer op}
  {name : String}

theorem act_idle (h : act settings E i w op r w') (hop : op.accesses name = false) (hidle : w.view.Idle name) :
    w'.view.Idle name := by
  cases op with
  | tools op =>
    obtain ⟨s', -, rfl⟩ := h
    exact hidle
  | pass =>
    obtain ⟨-, hle, hrest⟩ := h
    rw [hrest]
    have hclock : w.clock - w.view.lastAccess name ≤ w'.clock - w.view.lastAccess name := by gcongr
    exact hidle.trans hclock
  | recordAccess access other =>
    obtain ⟨-, rfl⟩ := Prod.mk.inj (Option.some.inj h)
    have hne : name ≠ other := fun he => by simp [Op.accesses, he] at hop
    unfold Lifecycle.World.Idle Lifecycle.World.lastAccess Shard.view
    dsimp only
    rw [Function.update_of_ne hne]
    exact hidle
  | gather tick =>
    simp only [act, Shard.effect] at h
    split at h
    · obtain ⟨-, rfl⟩ := Prod.mk.inj (Option.some.inj h)
      exact hidle
    · cases h
  | diskSpaceLow | getAppMetadata _ | sizeIsCompatible _ | controlAppTime _ | demoteLru _ =>
    obtain ⟨-, rfl⟩ := Prod.mk.inj (Option.some.inj h)
    exact hidle

theorem act_decides (hsettings : settings.Lenient) (h : act settings E i w op r w') (hop : op.decides = true)
    (hpolicy : byPolicy ⟨i, op, r, w⟩ = true) :
    ∀ operation ∈ decided op r, ∀ name ∈ operation.halts, w'.view.Idle name := by
  cases op with
  | controlAppTime app =>
    obtain ⟨hr, rfl⟩ := Prod.mk.inj (Option.some.inj h)
    cases r with
    | error e => exact nofun
    | ok operations =>
      obtain rfl := issues_of_decision hr
      have hdisk : w.diskSpaceLow = false := by simpa [byPolicy] using hpolicy
      exact Lifecycle.controlAppTime_idle hsettings settings.pauseEnabled hdisk
  | demoteLru apps =>
    obtain ⟨hr, rfl⟩ := Prod.mk.inj (Option.some.inj h)
    cases r with
    | error e => exact nofun
    | ok operations =>
      obtain rfl := issues_of_decision hr
      intro operation hmem name hname
      obtain ⟨victim, -, hhalts, hidle⟩ := Lifecycle.demoteLru_victim hmem
      rw [hhalts] at hname
      obtain rfl := Option.some.inj hname
      exact hidle
  | _ => cases hop

/-! ## Logs -/

theorem lastDecision_next (s : Record) (hop : decisionOf i ⟨j, op, r, s.world⟩ = false) :
    lastDecision i (s.next j op r w').log = lastDecision i s.log := by
  rw [lastDecision, Recorded.next_log, List.find?_cons, hop]
  rfl

theorem undisturbed_next {s : Record} (hop : decisionOf i ⟨j, op, r, s.world⟩ = false)
    (h : undisturbed i name (s.next j op r w').log = true) :
    op.accesses name = false ∧ undisturbed i name s.log = true := by
  rw [undisturbed, Recorded.next_log, List.takeWhile_cons, hop] at h
  simpa [undisturbed] using h

/-- What policy has decided on has not been accessed recently, unless it has been accessed since. -/
def Aged (s : Record) : Prop :=
  ∀ i d, lastDecision i s.log = some d → byPolicy d = true → ∀ operation ∈ decided d.op d.answer,
    ∀ name ∈ operation.halts, undisturbed i name s.log = true → s.world.view.Idle name

theorem Aged.next {s : Record} (hsettings : settings.Lenient) (hs : Aged s) (ha : act settings E j s.world op r w') :
    Aged (s.next j op r w') := by
  intro i d hd hpolicy operation hmem name hname hundisturbed
  cases hdecision : decisionOf i ⟨j, op, r, s.world⟩ with
  | true =>
    rw [lastDecision, Recorded.next_log, List.find?_cons, hdecision] at hd
    obtain rfl := Option.some.inj hd
    exact act_decides hsettings ha (Bool.and_eq_true_iff.mp hdecision).2 hpolicy operation hmem name hname
  | false =>
    rw [lastDecision_next s hdecision] at hd
    obtain ⟨hop, hbefore⟩ := undisturbed_next hdecision hundisturbed
    exact act_idle ha hop (hs i d hd hpolicy operation hmem name hname hbefore)

/-- A command that policy has decided on, and before which the app has not been accessed, finds it unused. -/
theorem Aged.idle {s : Record} (hs : Aged s)
    (hallowed : decisive.allows (Recorded.phaseOf (fun _ => decisive) (fun _ => []) j s.log) op)
    (hcondition : Undisturbed s j op) : ∀ name ∈ policyTarget j s.log op, s.world.view.Idle name := by
  intro name hname
  have hundisturbed := hcondition name hname
  unfold policyTarget at hname
  split at hname
  · next hpolicy =>
    obtain ⟨d, hd, hby⟩ := (Option.any_eq_true _ _).mp hpolicy
    obtain ⟨operation, hmem, hhalts⟩ := hallowed name hname
    rw [phaseOf_decisive, hd] at hmem
    exact hs j d hd hby operation hmem name hhalts hundisturbed
  · cases hname

theorem SparesAccessed.next {s : Record} (hs : SparesAccessed s)
    (hidle : ∀ name ∈ policyTarget j s.log op, s.world.view.Idle name) : SparesAccessed (s.next j op r w') := by
  intro e log hsuffix
  rw [Recorded.next_log, List.suffix_cons_iff] at hsuffix
  obtain heq | hsuffix := hsuffix
  · rw [(List.cons.inj heq).1, (List.cons.inj heq).2]
    exact hidle
  · exact hs e log hsuffix

theorem aged_start (w : Shard) : Aged ⟨w, []⟩ := by
  intro i d hd
  cases hd

theorem sparesAccessed_start (w : Shard) : SparesAccessed ⟨w, []⟩ := by
  intro e log hsuffix
  cases List.suffix_nil.mp hsuffix

/-! ## Main results -/

/-- Where every command that policy decides on is issued before the next access to its app, none is issued for an app
that has been accessed recently, however accesses and ticks are interleaved. -/
theorem policy_spares_accessed (settings : Lifecycle.Settings) (hsettings : settings.Lenient) (E : Env) (w : Shard)
    (c : Loop) (hrun : Runs settings E Undisturbed w c) : SparesAccessed c.state := by
  have htracks := Recorded.tracks (act settings E) Undisturbed (fun _ => decisive) fun _ => []
  have hconforms : ∀ i p, (∃ c, create c i = some p) → p.Conforms decisive [] fun _ _ => True := by
    rintro i p ⟨c, hc⟩
    exact conforms_create hc
  have hstep : ∀ (i : Task) (s : Record) (op : Op) (r : Answer op) (s' : Record), (∃ p c, create c i = some p) →
      decisive.allows (Recorded.phaseOf (fun _ => decisive) (fun _ => []) i s.log) op →
      Aged s ∧ SparesAccessed s → Recorded.Act (act settings E) Undisturbed i s op r s' →
      Aged s' ∧ SparesAccessed s' := by
    rintro i s op r s' - hallowed ⟨haged, hspares⟩ ⟨hcondition, w', ha, rfl⟩
    exact ⟨haged.next hsettings ha, hspares.next (haged.idle hallowed hcondition)⟩
  exact (Reaches.invariant_allowed htracks hconforms hstep hrun.reaches (Conforming.idle fun _ => rfl)
    ⟨aged_start w, sparesAccessed_start w⟩).2

/-! ## A tick and an access -/

/-- A running app that has not been accessed for a hundred seconds. -/
def Shard.unused : Shard where
  state := ⟨.withApp "app" .running (.single .running), []⟩
  clock := 100

/-- A tick decides on the app and looks at its row. -/
def decisionTurns : List (Turn Task Choice) :=
  [.start (.controlApps 0), .fire (.controlApps 0) .proceed, .start (.controlAppTime 0 0),
    .fire (.controlAppTime 0 0) .proceed, .fire (.controlAppTime 0 0) (.tools .proceed)]

/-- The app is accessed, and `start_app` finds it running. -/
def accessTurns : List (Turn Task Choice) :=
  Turn.call (.ensureAppIsRunning 0 ⟨"app", .store, .running, none⟩) (List.replicate 4 .proceed) ++
    Turn.call (.startApp 0) (.tools (.clock 100) :: List.replicate 5 (.tools .proceed))

def pauseTurn : Turn Task Choice := .fire (.controlAppTime 0 0) (.tools (.docker (.ok ()) (.single .paused)))

/-- How long ago the app of the last command was accessed, if policy has decided on it. -/
def lastCommandAge (c : Loop) : Option ℚ :=
  match c.state.log with
  | [] => none
  | e :: log => (policyTarget e.caller log e.op).map fun name => e.before.clock - e.before.view.lastAccess name

theorem SparesAccessed.age {c : Loop} (h : SparesAccessed c.state) : ∀ age ∈ lastCommandAge c,
    Lifecycle.recentAccessGrace ≤ age := by
  unfold lastCommandAge
  cases hlog : c.state.log with
  | nil => exact nofun
  | cons e log =>
    intro age hage
    obtain ⟨name, hname, rfl⟩ := Option.map_eq_some_iff.mp hage
    exact h e log (hlog ▸ List.suffix_refl _) name hname

theorem usual_lenient : Lifecycle.Settings.usual.Lenient := ⟨by decide +kernel, by decide +kernel⟩

/-- The app is paused and accessed after that. -/
theorem policy_spares_unused : ∃ c, Runs .usual .obedient Undisturbed .unused c ∧ lastCommandAge c = some 100 ∧
    SparesAccessed c.state := by
  obtain ⟨c, hrun, hage⟩ := exists_run .usual .obedient Undisturbed create .unused (decisionTurns ++ [pauseTurn])
    (fun c => lastCommandAge c == some 100) (by decide +kernel)
  exact ⟨c, hrun, eq_of_beq hage, policy_spares_accessed .usual usual_lenient .obedient .unused c hrun⟩

/-- An access after the decision, and the app is frozen at the same moment. -/
theorem policy_freezes_accessed : ¬ ∀ (settings : Lifecycle.Settings), settings.Lenient → ∀ (w : Shard) (c : Loop),
    Runs settings .obedient Recorded.anyway w c → SparesAccessed c.state := by
  intro h
  obtain ⟨c, hrun, hage⟩ := exists_run .usual .obedient Recorded.anyway create .unused
    (decisionTurns ++ accessTurns ++ [pauseTurn]) (fun c => lastCommandAge c == some 0) (by decide +kernel)
  have hgrace := (h .usual usual_lenient .unused c hrun).age 0 (eq_of_beq hage)
  exact absurd hgrace (by decide +kernel)

end Freeshard.ControlLoop

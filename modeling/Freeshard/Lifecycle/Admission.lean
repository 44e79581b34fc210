import Freeshard.Coroutine.TaskRuns
import Freeshard.Lifecycle.RecentAccess

/-! # Only what has been admitted is started

An access and the tick start an app only where there is room on the disk and the machine is large enough for the app,
by the profile that is stored at that time. `start_app` itself checks neither: it runs in a task of its own, for
whatever name it is given. -/

namespace Freeshard.ControlLoop
open Coroutine
set_option autoImplicit false

/-! ## What is started -/

/-- The app that an operation brings up or declares running. -/
def Op.revives : Op → Option String
  | .tools (.compose name .up) => some name
  | .tools (.updateStatus name .running) => some name
  | _ => none

/-- The app whose containers an operation thaws. -/
def Op.thaws : Op → Option String
  | .tools (.compose name .unpause) => some name
  | _ => none

/-- The task has found room on the disk, metadata of the app, and a profile with a machine that is large enough. -/
def Passed (i : Task) (name : String) (Q : AppMeta → Prop) (log : List LogEntry) : Prop :=
  ∃ appMeta, Q appMeta ∧ (∃ e ∈ log, e.caller = i ∧ e.before.diskSpaceLow = false) ∧
    (∃ e ∈ log, e.caller = i ∧ e.before.state.world.getAppMetadata name = .ok appMeta) ∧
    ∃ e ∈ log, e.caller = i ∧ e.before.view.sizeIsCompatible appMeta.minimumPortalSize = true

/-- The access for which a task starts the app has passed, or the tick has, for an app that is always on. -/
def Admitted (i : Task) (name : String) (log : List LogEntry) : Prop :=
  match i with
  | .startApp access =>
    ∃ app : InstalledApp, app.name = name ∧ Passed (.ensureAppIsRunning access app) name (fun _ => True) log
  | .controlAppTime _ _ => Passed i name (fun appMeta => appMeta.lifecycle.alwaysOn = true) log
  | i => Passed i name (fun _ => True) log

/-- The task has decided on the operation. -/
def Decided (i : Task) (operation : Lifecycle.Operation) (log : List LogEntry) : Prop :=
  ∃ e ∈ log, e.caller = i ∧ operation ∈ decided e.op e.answer

/-- What is started has been admitted; what is only thawed may also be on its way to being stopped. -/
def Justified (e : LogEntry) (log : List LogEntry) : Prop :=
  (∀ name ∈ e.op.revives, Admitted e.caller name log) ∧
    ∀ name ∈ e.op.thaws, Admitted e.caller name log ∨ Decided e.caller (.dockerStopApp name) log

variable {settings : Lifecycle.Settings} {E : Env} {i j : Task} {w w' : Shard} {op : Op} {r : Answer op}
  {name : String} {log : List LogEntry} {e : LogEntry} {Q : AppMeta → Prop}

theorem Passed.cons (h : Passed i name Q log) : Passed i name Q (e :: log) := by
  obtain ⟨appMeta, hQ, ⟨d, hd, hroom⟩, ⟨m, hm, hmeta⟩, ⟨z, hz, hsize⟩⟩ := h
  exact ⟨appMeta, hQ, ⟨d, List.mem_cons_of_mem _ hd, hroom⟩, ⟨m, List.mem_cons_of_mem _ hm, hmeta⟩,
    ⟨z, List.mem_cons_of_mem _ hz, hsize⟩⟩

theorem Admitted.cons (h : Admitted i name log) : Admitted i name (e :: log) := by
  cases i with
  | startApp access =>
    obtain ⟨app, happ, hpassed⟩ := h
    exact ⟨app, happ, hpassed.cons⟩
  | _ => exact Passed.cons h

theorem Decided.cons {operation : Lifecycle.Operation} (h : Decided i operation log) :
    Decided i operation (e :: log) := by
  obtain ⟨d, hd, hdecided⟩ := h
  exact ⟨d, List.mem_cons_of_mem _ hd, hdecided⟩

/-! ## What a task has found -/

structure Clearance where
  /-- There is room on the disk. -/
  roomy : Bool := false
  /-- The machine size that the app with this name needs. -/
  needs : Option (String × VMSize) := none
  /-- What the task may do now. -/
  operations : List Lifecycle.Operation := []

/-- The machine is large enough for this size. -/
def Clearance.grant (l : Clearance) (size : VMSize) : Clearance :=
  match l.roomy, l.needs with
  | true, some (name, needed) => if needed = size then { l with operations := [.startApp name] } else l
  | _, _ => l

theorem Clearance.operations_grant (name : String) (size : VMSize) :
    (Clearance.grant { roomy := true, needs := some (name, size) } size).operations = [.startApp name] := by
  simp [Clearance.grant]

def Clearance.after (l : Clearance) (op : Op) (r : Answer op) : Clearance :=
  match op, r with
  | .diskSpaceLow, .ok low => { l with roomy := !low }
  | .getAppMetadata name, .ok appMeta => { l with needs := some (name, appMeta.minimumPortalSize) }
  | .sizeIsCompatible size, .ok true => l.grant size
  | .controlAppTime _, .ok operations => { l with operations }
  | .demoteLru _, .ok operations => { l with operations }
  | _, _ => l

/-- A task starts and stops what it may, and an access schedules a `start_app` for what it may start. -/
structure Allowed (i : Task) (l : Clearance) (op : Op) : Prop where
  revives : ∀ name ∈ op.revives, .startApp name ∈ l.operations
  thaws : ∀ name ∈ op.thaws, .startApp name ∈ l.operations ∨ .dockerStopApp name ∈ l.operations
  records : ∀ access name, op = .recordAccess access name → .startApp name ∈ l.operations ∧
    ∃ app : InstalledApp, app.name = name ∧ i = .ensureAppIsRunning access app
  checks : ∀ size, op = .sizeIsCompatible size → ∃ access app, i = .ensureAppIsRunning access app
  decides : ∀ app, op = .controlAppTime app → ∃ tick k, i = .controlAppTime tick k

def admission (i : Task) : Protocol Op Ans Exn Clearance where
  allows := Allowed i
  after := Clearance.after

abbrev Conforms (i : Task) (p : Coro Unit) (l : Clearance) : Prop := p.Conforms (admission i) l fun _ _ => True

/-- What a task knows by what it has found. -/
structure Cleared (i : Task) (l : Clearance) (s : Record) : Prop where
  roomy : l.roomy = true → ∃ e ∈ s.log, e.caller = i ∧ e.before.diskSpaceLow = false
  needs : ∀ name size, l.needs = some (name, size) → ∃ appMeta, appMeta.minimumPortalSize = size ∧
    ∃ e ∈ s.log, e.caller = i ∧ e.before.state.world.getAppMetadata name = .ok appMeta
  starts : ∀ name, .startApp name ∈ l.operations → Admitted i name s.log
  stops : ∀ name, .dockerStopApp name ∈ l.operations → Decided i (.dockerStopApp name) s.log

theorem cleared_nothing (i : Task) (s : Record) : Cleared i {} s where
  roomy h := by cases h
  needs _ _ h := by cases h
  starts _ h := by cases h
  stops _ h := by cases h

theorem Cleared.next {l : Clearance} {s : Record} (h : Cleared i l s) (j : Task) (op : Op) (r : Answer op)
    (w' : Shard) : Cleared i l (s.next j op r w') where
  roomy hroomy := by
    obtain ⟨e, he, hfound⟩ := h.roomy hroomy
    exact ⟨e, List.mem_cons_of_mem _ he, hfound⟩
  needs name size hneeds := by
    obtain ⟨appMeta, hsize, e, he, hfound⟩ := h.needs name size hneeds
    exact ⟨appMeta, hsize, e, List.mem_cons_of_mem _ he, hfound⟩
  starts name hname := (h.starts name hname).cons
  stops name hname := (h.stops name hname).cons

/-! ## The coroutines -/

/-- Operations that every task may perform. -/
def Op.quiet : Op → Bool
  | .pass => true
  | .diskSpaceLow => true
  | .getAppMetadata _ => true
  | .gather _ => true
  | .demoteLru _ => true
  | _ => false

theorem allowed_quiet {l : Clearance} (h : op.quiet = true) : Allowed i l op := by
  cases op with
  | pass | diskSpaceLow | getAppMetadata name | gather tick | demoteLru apps =>
    exact ⟨fun _ h => (by cases h), fun _ h => (by cases h), fun _ _ h => (by cases h), fun _ h => (by cases h),
      fun _ h => (by cases h)⟩
  | tools op | sizeIsCompatible size | recordAccess access name | controlAppTime app => cases h

theorem allowed_sizeIsCompatible (access : ℕ) (app : InstalledApp) (l : Clearance) (size : VMSize) :
    Allowed (.ensureAppIsRunning access app) l (.sizeIsCompatible size) :=
  ⟨fun _ h => (by cases h), fun _ h => (by cases h), fun _ _ h => (by cases h), fun _ _ => ⟨access, app, rfl⟩,
    fun _ h => (by cases h)⟩

theorem allowed_controlAppTime (tick k : ℕ) (l : Clearance) (app : InstalledApp) :
    Allowed (.controlAppTime tick k) l (.controlAppTime app) :=
  ⟨fun _ h => (by cases h), fun _ h => (by cases h), fun _ _ h => (by cases h), fun _ h => (by cases h),
    fun _ _ => ⟨tick, k, rfl⟩⟩

theorem allowed_recordAccess {access : ℕ} {app : InstalledApp} {l : Clearance}
    (h : .startApp app.name ∈ l.operations) :
    Allowed (.ensureAppIsRunning access app) l (.recordAccess access app.name) where
  revives _ h := by cases h
  thaws _ h := by cases h
  records _ _ heq := by
    cases heq
    exact ⟨h, app, rfl, rfl⟩
  checks _ h := by cases h
  decides _ h := by cases h

/-- What stays within a footprint starts only what may be started. -/
theorem admits_tools {f : Footprint} {p : Freeshard.Coro Unit} (h : Bounded f name p) {l : Clearance}
    (hstart : .up ∈ f.commands ∨ .running ∈ f.statuses → .startApp name ∈ l.operations)
    (hthaw : .unpause ∈ f.commands → .startApp name ∈ l.operations ∨ .dockerStopApp name ∈ l.operations) :
    (tools p).Conforms (admission i) l fun _ l' => l' = l := by
  refine Prog.Conforms.of_uses (Uses.tools h.uses) ?_ rfl
  rintro _ ⟨op, rfl, hop⟩ l rfl
  have hallowed : Allowed i l (.tools op) := by
    refine ⟨fun other hother => ?_, fun other hother => ?_, fun _ _ h => (by cases h), fun _ h => (by cases h),
      fun _ h => (by cases h)⟩
    · cases op with
      | compose n cmd =>
        obtain ⟨rfl, hmem⟩ := hop
        cases cmd with
        | up =>
          obtain rfl := Option.some.inj hother
          exact hstart (.inl hmem)
        | _ => cases hother
      | updateStatus n status =>
        obtain ⟨rfl, hmem⟩ := hop
        cases status with
        | running =>
          obtain rfl := Option.some.inj hother
          exact hstart (.inr hmem)
        | _ => cases hother
      | _ => cases hother
    · cases op with
      | compose n cmd =>
        obtain ⟨rfl, hmem⟩ := hop
        cases cmd with
        | unpause =>
          obtain rfl := Option.some.inj hother
          exact hthaw hmem
        | _ => cases hother
      | _ => cases hother
  exact ⟨hallowed, fun _ => rfl⟩

theorem admits_perform {operation : Lifecycle.Operation} {l : Clearance} (hmem : operation ∈ l.operations) :
    (perform operation).Conforms (admission i) l fun _ l' => l' = l := by
  cases operation with
  | startApp name => exact admits_tools bounds_startApp (fun _ => hmem) fun _ => .inl hmem
  | dockerPauseApp name => exact admits_tools bounds_dockerPauseApp (fun h => by simp at h) fun h => by simp at h
  | dockerStopApp name =>
    exact admits_tools (bounds_dockerStopApp true) (fun h => by simp at h) fun _ => .inr hmem

theorem admits_performs {operations : List Lifecycle.Operation} {l : Clearance} (hsub : operations ⊆ l.operations) :
    (operations.forM perform).Conforms (admission i) l fun _ l' => l' = l := by
  induction operations with
  | nil => rfl
  | cons operation operations ih =>
    refine Prog.Conforms.bind (admits_perform (hsub List.mem_cons_self)) ?_ fun _ _ h => h
    rintro _ _ rfl
    exact ih fun _ hmem => hsub (List.mem_cons_of_mem _ hmem)

theorem admits_ensureAppIsRunning (access : ℕ) (app : InstalledApp) :
    Conforms (.ensureAppIsRunning access app) (ensureAppIsRunning access app) {} := by
  refine Prog.Conforms.perform_bind (allowed_quiet rfl) (fun low => ?_) fun _ => trivial
  cases low with
  | true => trivial
  | false =>
    refine Prog.Conforms.perform_bind (allowed_quiet rfl) (fun appMeta => ?_) fun _ => trivial
    refine Prog.Conforms.perform_bind (allowed_sizeIsCompatible access app _ _) (fun compatible => ?_) fun _ => trivial
    cases compatible with
    | false => trivial
    | true =>
      refine Prog.Conforms.perform (allowed_recordAccess ?_) fun _ => trivial
      change Lifecycle.Operation.startApp app.name ∈ (Clearance.grant
        { roomy := true, needs := some (app.name, appMeta.minimumPortalSize) } appMeta.minimumPortalSize).operations
      rw [Clearance.operations_grant]
      exact List.mem_singleton_self _

theorem admits_create {c : Loop} {p : Coro Unit} (hp : create c i = some p)
    (hscheduled : ∀ access name, c.state.world.scheduled access = some name →
      Admitted (.startApp access) name c.state.log) :
    ∃ l, Conforms i p l ∧ Cleared i l c.state := by
  have hnothing : ∀ {p : Coro Unit}, Conforms i p {} → ∃ l, Conforms i p l ∧ Cleared i l c.state :=
    fun h => ⟨_, h, cleared_nothing i _⟩
  cases i with
  | machine id | controlApps tick =>
    cases hp
    exact hnothing (Prog.Conforms.perform (allowed_quiet rfl) fun _ => trivial)
  | ensureAppIsRunning access app =>
    cases hp
    exact hnothing (admits_ensureAppIsRunning access app)
  | startApp access =>
    obtain ⟨name, hname, rfl⟩ := Option.map_eq_some_iff.mp hp
    have hmay : Lifecycle.Operation.startApp name ∈ ({ operations := [.startApp name] } : Clearance).operations :=
      List.mem_singleton_self _
    refine ⟨{ operations := [.startApp name] }, ?_, ?_⟩
    · exact (admits_tools bounds_startApp (fun _ => hmay) fun _ => .inl hmay).mono fun _ _ _ => trivial
    · refine { cleared_nothing _ _ with starts := fun other hother => ?_, stops := fun other hother => ?_ }
      · obtain rfl := Lifecycle.Operation.startApp.inj (List.mem_singleton.mp hother)
        exact hscheduled access other hname
      · cases List.mem_singleton.mp hother
  | controlAppTime tick k =>
    obtain ⟨g, -, hg⟩ := Option.bind_eq_some_iff.mp hp
    obtain ⟨app, -, rfl⟩ := Option.map_eq_some_iff.mp hg
    refine hnothing (Prog.Conforms.perform_bind (allowed_controlAppTime tick k _ _)
      (fun operations => ?_) fun _ => trivial)
    have hperforms := admits_performs (i := .controlAppTime tick k) (l := { operations }) (List.Subset.refl operations)
    exact hperforms.mono fun _ _ _ => trivial
  | demoteLru tick =>
    obtain ⟨g, -, hg⟩ := Option.bind_eq_some_iff.mp hp
    split at hg
    · cases hg
      refine hnothing (Prog.Conforms.perform_bind (allowed_quiet rfl)
        (fun operations => ?_) fun _ => trivial)
      have hperforms := admits_performs (i := .demoteLru tick) (l := { operations }) (List.Subset.refl operations)
      exact hperforms.mono fun _ _ _ => trivial
    · cases hg

/-! ## What an operation finds -/

theorem act_scheduled (h : act settings E i w op r w') :
    w'.scheduled = w.scheduled ∨ ∃ access name, op = .recordAccess access name ∧
      w'.scheduled = Function.update w.scheduled access (some name) := by
  cases op with
  | tools op =>
    obtain ⟨s', -, rfl⟩ := h
    exact .inl rfl
  | pass =>
    obtain ⟨-, -, hrest⟩ := h
    rw [hrest]
    exact .inl rfl
  | recordAccess access name =>
    obtain ⟨-, rfl⟩ := Prod.mk.inj (Option.some.inj h)
    exact .inr ⟨access, name, rfl, rfl⟩
  | gather tick =>
    simp only [act, Shard.effect] at h
    split at h
    · obtain ⟨-, rfl⟩ := Prod.mk.inj (Option.some.inj h)
      exact .inl rfl
    · cases h
  | diskSpaceLow | getAppMetadata _ | sizeIsCompatible _ | controlAppTime _ | demoteLru _ =>
    obtain ⟨-, rfl⟩ := Prod.mk.inj (Option.some.inj h)
    exact .inl rfl

/-- A tick starts what is always on, where there is room for it and the machine is large enough. -/
theorem startApp_issued {u : Lifecycle.World} {app : InstalledApp} {pauseEnabled : Bool}
    (h : .startApp name ∈ u.issues (Lifecycle.controlAppTime settings pauseEnabled app)) :
    u.diskSpaceLow = false ∧ ∃ appMeta, u.appMetadata name = .ok appMeta ∧ appMeta.lifecycle.alwaysOn = true ∧
      u.sizeIsCompatible appMeta.minimumPortalSize = true := by
  cases hmeta : u.appMetadata app.name with
  | error e =>
    unfold Lifecycle.World.issues Lifecycle.controlAppTime Lifecycle.getAppMetadata at h
    rw [Prog.eval_bind, Prog.eval_perform] at h
    dsimp only [Lifecycle.World.effect] at h
    rw [hmeta] at h
    cases h
  | ok appMeta =>
    rw [Lifecycle.World.issues, Lifecycle.controlAppTime_eval hmeta, List.nil_append, Option.mem_toList] at h
    unfold Lifecycle.World.due at h
    split at h
    · cases h
    · next hroom =>
      split at h
      · next halways =>
        split at h
        · next hmay =>
          obtain rfl : app.name = name := Lifecycle.Operation.startApp.inj (Option.some.inj h)
          exact ⟨Bool.eq_false_of_not_eq_true hroom, appMeta, hmeta, halways, hmay.2⟩
        · cases h
      · split at h
        · split at h <;> cases h
        · split at h
          · cases h
          · split at h <;> cases h

/-! ## Steps -/

/-- The machine has been found large enough. -/
theorem Cleared.grant {access : ℕ} {app : InstalledApp} {l : Clearance} {s : Record} {size : VMSize}
    (h : Cleared (.ensureAppIsRunning access app) l s)
    (hsize : ∃ e ∈ s.log, e.caller = .ensureAppIsRunning access app ∧ e.before.view.sizeIsCompatible size = true) :
    Cleared (.ensureAppIsRunning access app) (l.grant size) s := by
  unfold Clearance.grant
  split
  · next name needed hroomy hneeds =>
    split
    · next heq =>
      refine { h with starts := fun other hother => ?_, stops := fun other hother => ?_ }
      · obtain rfl := Lifecycle.Operation.startApp.inj (List.mem_singleton.mp hother)
        obtain ⟨appMeta, rfl, hmeta⟩ := h.needs other needed hneeds
        obtain rfl := heq
        exact ⟨appMeta, trivial, h.roomy hroomy, hmeta, hsize⟩
      · cases List.mem_singleton.mp hother
    · exact h
  · exact h

/-- What the task that performs an operation knows afterwards. -/
theorem Cleared.own {l : Clearance} {s : Record} (h : Cleared i l s) (hallowed : Allowed i l op)
    (ha : act settings E i s.world op r w') : Cleared i (l.after op r) (s.next i op r w') := by
  have hsame : Cleared i l (s.next i op r w') := h.next i op r w'
  have hnew : (⟨i, op, r, s.world⟩ : LogEntry) ∈ (s.next i op r w').log := List.mem_cons_self
  cases op with
  | diskSpaceLow =>
    obtain ⟨rfl, -⟩ := Prod.mk.inj (Option.some.inj ha)
    exact { hsame with roomy := fun hroomy => ⟨_, hnew, rfl, by simpa [Clearance.after] using hroomy⟩ }
  | getAppMetadata name =>
    obtain ⟨hr, -⟩ := Prod.mk.inj (Option.some.inj ha)
    cases r with
    | error e => exact hsame
    | ok appMeta =>
      refine { hsame with needs := fun other size hneeds => ?_ }
      obtain ⟨rfl, rfl⟩ := Prod.mk.inj (Option.some.inj hneeds)
      exact ⟨appMeta, rfl, _, hnew, rfl, hr⟩
  | sizeIsCompatible size =>
    obtain ⟨hr, -⟩ := Prod.mk.inj (Option.some.inj ha)
    obtain ⟨access, app, rfl⟩ := hallowed.checks size rfl
    cases r with
    | error e => exact hsame
    | ok compatible =>
      cases compatible with
      | false => exact hsame
      | true => exact hsame.grant ⟨_, hnew, rfl, Except.ok.inj hr⟩
  | controlAppTime app =>
    obtain ⟨hr, -⟩ := Prod.mk.inj (Option.some.inj ha)
    obtain ⟨tick, k, rfl⟩ := hallowed.decides app rfl
    cases r with
    | error e => exact hsame
    | ok operations =>
      have hissues := issues_of_decision hr
      refine { hsame with starts := fun name hname => ?_, stops := fun name hname => ⟨_, hnew, rfl, hname⟩ }
      obtain ⟨hroom, appMeta, hmeta, halways, hsize⟩ := startApp_issued (hissues ▸ hname)
      exact ⟨appMeta, halways, ⟨_, hnew, rfl, hroom⟩, ⟨_, hnew, rfl, hmeta⟩, ⟨_, hnew, rfl, hsize⟩⟩
  | demoteLru apps =>
    obtain ⟨hr, -⟩ := Prod.mk.inj (Option.some.inj ha)
    cases r with
    | error e => exact hsame
    | ok operations =>
      have hissues := issues_of_decision hr
      refine { hsame with starts := fun name hname => ?_, stops := fun name hname => ⟨_, hnew, rfl, hname⟩ }
      obtain ⟨victim, -, hhalts, -⟩ := Lifecycle.demoteLru_victim (hissues ▸ hname)
      cases hhalts
  | tools op | pass | recordAccess access name | gather tick => exact hsame

/-- What has been scheduled has been admitted, and what has been started. -/
structure Orderly (s : Record) : Prop where
  scheduled : ∀ access name, s.world.scheduled access = some name → Admitted (.startApp access) name s.log
  log : Recorded.Throughout Justified s.log

/-- The step lemma. -/
theorem Orderly.next {l : Clearance} {s : Record} (hs : Orderly s) (h : Cleared i l s) (hallowed : Allowed i l op)
    (ha : act settings E i s.world op r w') : Orderly (s.next i op r w') := by
  refine ⟨fun access name hname => ?_, ⟨fun name hname => ?_, fun name hname => ?_⟩, hs.log⟩
  · rw [Recorded.next_world] at hname
    obtain hsame | ⟨access', name', rfl, hnew⟩ := act_scheduled ha
    · rw [hsame] at hname
      exact (hs.scheduled access name hname).cons
    · rw [hnew] at hname
      by_cases haccess : access = access'
      · subst haccess
        rw [Function.update_self] at hname
        obtain rfl := Option.some.inj hname
        obtain ⟨hmay, app, happ, rfl⟩ := hallowed.records access name' rfl
        exact Admitted.cons ⟨app, happ, h.starts name' hmay⟩
      · rw [Function.update_of_ne haccess] at hname
        exact (hs.scheduled access name hname).cons
  · exact h.starts name (hallowed.revives name hname)
  · exact (hallowed.thaws name hname).imp (h.starts name) (h.stops name)

/-! ## Main result -/

/-- However accesses and ticks are interleaved, and whatever the disk and the profile change to: whatever brings an app up
or declares it running is done for an access that has passed, or for an app that is always on. What thaws an app is,
or it is the first step of stopping it. -/
theorem starts_admitted {C : Condition Op Ans Exn Shard Task} {c : Loop} (hw : w.scheduled = fun _ => none)
    (hrun : Runs settings E C w c) {later earlier : List LogEntry} (hlog : c.state.log = later ++ e :: earlier) :
    Justified e earlier := by
  have horderly : Orderly c.state := by
    refine Recorded.TaskRuns.invariant_knowing (P := admission) (K := Cleared) ?_ ?_ ?_ ?_ hrun
    · refine ⟨fun access name hname => ?_, trivial⟩
      rw [hw] at hname
      cases hname
    · exact fun c i p hp hc => admits_create hp hc.scheduled
    · exact fun i s op r w' l hallowed hknows hs _ ha => ⟨hknows.own hallowed ha, hs.next hknows hallowed ha⟩
    · exact fun i j s op r w' l _ hknows _ => hknows.next j op r w'
  have hthroughout := horderly.log
  rw [hlog] at hthroughout
  exact hthroughout.of_append

/-- An app that is stopped, on a machine of medium size. -/
def Shard.asleep : Shard where
  state := ⟨.withApp "app" .stopped (.single .exited), []⟩
  clock := 100
  profile := some (some .m)

/-- It is accessed, and brought up. -/
def wakeTurns : List (Turn Task Choice) :=
  Turn.call (Task.ensureAppIsRunning 0 ⟨"app", .store, .stopped, none⟩) (List.replicate 4 Choice.proceed) ++
    Turn.call (Task.startApp 0) (.tools (.clock 100) :: List.replicate 4 (.tools .proceed) ++
      [.tools (.docker (.ok ()) (.single .running))])

theorem starts_admitted_access : ∃ c e earlier, Runs .usual .obedient Recorded.anyway .asleep c ∧
    c.state.log = e :: earlier ∧ e.op.revives = some "app" ∧ Justified e earlier := by
  obtain ⟨c, hrun, hF⟩ := exists_run .usual .obedient Recorded.anyway create .asleep wakeTurns
    (fun c => (c.state.log.head?.bind fun e => e.op.revives) == some "app") (by decide +kernel)
  cases hlog : c.state.log with
  | nil =>
    rw [hlog] at hF
    cases hF
  | cons e earlier =>
    rw [hlog] at hF
    have hsplit : c.state.log = [] ++ e :: earlier := hlog
    exact ⟨c, e, earlier, hrun, hlog, eq_of_beq hF, starts_admitted rfl hrun hsplit⟩

end Freeshard.ControlLoop

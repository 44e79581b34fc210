import Freeshard.Access.Decision
import Freeshard.Coroutine.Recorded

/-! # The caches of the request path

`_find_app` and `_get_identity` fill their caches by looking, reading the database and storing, and a change of
the database is followed by a signal that empties the cache. A store may come after the signal of a change that
came after the read; the stale entry then stays. As long as every store is of what the database still holds, or
of what a signal to come will drop, the caches agree with the database whenever nothing is in flight. -/

namespace Freeshard.Auth
open Coroutine Coroutine.Recorded
set_option autoImplicit false

/-! ## Calls -/

/-- Requests to apps, and the operations that change a row and then send its signal. -/
inductive Call where
  | request (id : ℕ) (host uri : String)
  | install (id : ℕ) (app : InstalledApp)
  | uninstall (id : ℕ) (name : String)
  | setIdentity (id : ℕ) (identity : Identity)
  deriving DecidableEq

def Call.program (settings : Settings) : Call → Coro Unit
  | .request _ host uri => authenticateAndAuthorize settings host uri
  | .install _ app => do
    awaitOp (.insertApp app)
    awaitOp .onAppsUpdate
  | .uninstall _ name => do
    awaitOp (.removeApp name)
    awaitOp .onAppsUpdate
  | .setIdentity _ identity => do
    awaitOp (.changeIdentity identity)
    awaitOp .onIdentityUpdate

/-! ## Steps -/

/-- The operations that may fail without effect. -/
def Op.fails : Op → Bool
  | .getByName _ | .getDefault | .updateLastAccess _ _ | .onTerminalAuth _ | .onPeerAuth _
  | .setHeader _ _ | .insertApp _ | .removeApp _ | .changeIdentity _ => true
  | _ => false

/-- The operations that look at what the model leaves open: the client, the metadata, the machine. -/
def Op.External : Op → Prop
  | .getAppMetadata _ | .verifyTerminalJwt | .verifyPeerAuth | .now | .diskSpaceLow
  | .sizeIsCompatible _ => True
  | _ => False

/-- What an operation may answer and leave. -/
inductive Act (w : World) : (op : Op) → Answer op → World → Prop where
  | proceeds (op : Op) : Act w op (w.effect op).1 (w.effect op).2
  | fails {op : Op} (e : Exn) (h : op.fails = true) : Act w op (.error e) w
  | answers {op : Op} (r : Answer op) (h : op.External) : Act w op r w

inductive Choice where
  | proceed
  | raise (e : Exn)

def World.exec (w : World) (op : Op) : Choice → Option (Answer op × World)
  | .proceed => some (w.effect op)
  | .raise e => if op.fails then some (.error e, w) else none

theorem Act.of_exec {w w' : World} {op : Op} {choice : Choice} {r : Answer op}
    (h : w.exec op choice = some (r, w')) : Act w op r w' := by
  cases choice with
  | proceed =>
    have heq : w.effect op = (r, w') := Option.some.inj h
    have hact := Act.proceeds (w := w) op
    rwa [heq] at hact
  | raise e =>
    simp only [World.exec] at h
    split at h
    · next hfails =>
      cases h
      exact .fails e hfails
    · cases h

abbrev State : Type := Recorded Op Ans Exn World Call

/-! ## Signals to come -/

/-- The changes a call has committed without their signal yet. -/
structure Unsent where
  apps : Bool := false
  identity : Bool := false
  deriving DecidableEq

def signalProtocol : Protocol Op Ans Exn Unsent where
  allows _ _ := True
  after l op r :=
    match op, r with
    | .insertApp _, .ok _ => { l with apps := true }
    | .removeApp _, .ok _ => { l with apps := true }
    | .changeIdentity _, .ok _ => { l with identity := true }
    | .onAppsUpdate, _ => { l with apps := false }
    | .onIdentityUpdate, _ => { l with identity := false }
    | _, _ => l

abbrev unsent (i : Call) (s : State) : Unsent :=
  Recorded.phaseOf (fun _ => signalProtocol) (fun _ => {}) i s.log

/-- The operations of a request. -/
def Op.OfRequest : Op → Prop
  | .insertApp _ | .removeApp _ | .changeIdentity _ | .onAppsUpdate | .onIdentityUpdate => False
  | _ => True

theorem Op.Checks.ofRequest {op : Op} (h : op.Checks) : op.OfRequest := by
  cases op with
  | insertApp | removeApp | changeIdentity | onAppsUpdate | onIdentityUpdate => exact h
  | _ => trivial

theorem uses_onRequestToApp (settings : Settings) (app : InstalledApp) :
    (onRequestToApp settings app).Uses fun op => op.OfRequest ∧ op.filesApp = false := by
  refine Prog.Uses.bind (Prog.Uses.bind ((Prog.uses_perform _).mpr ⟨trivial, rfl⟩) fun time => ?_) fun _ =>
    Prog.Uses.bind ((Prog.uses_perform _).mpr ⟨trivial, rfl⟩) fun _ =>
    Prog.Uses.bind ((Prog.uses_perform _).mpr ⟨trivial, rfl⟩) fun low => ?_
  · split
    · trivial
    · exact Prog.Uses.bind ((Prog.uses_perform _).mpr ⟨trivial, rfl⟩) fun _ =>
        (Prog.uses_perform _).mpr ⟨trivial, rfl⟩
  · split
    · trivial
    · refine Prog.Uses.bind ((Prog.uses_perform _).mpr ⟨trivial, rfl⟩) fun appMeta =>
        Prog.Uses.bind ((Prog.uses_perform _).mpr ⟨trivial, rfl⟩) fun compatible => ?_
      split
      · exact Prog.Uses.bind ((Prog.uses_perform _).mpr ⟨trivial, rfl⟩) fun _ =>
          Prog.Uses.bind ((Prog.uses_perform _).mpr ⟨trivial, rfl⟩) fun _ =>
          (Prog.uses_perform _).mpr ⟨trivial, rfl⟩
      · trivial

theorem uses_checkAccess {φ : Op → Prop} (path : Option Path) (authState : AuthState) :
    (checkAccess path authState).Uses φ := by
  cases path with
  | none => trivial
  | some path =>
    unfold checkAccess
    dsimp only
    split
    · trivial
    · split <;> trivial

theorem uses_authenticateAndAuthorize (settings : Settings) (host uri : String) :
    (authenticateAndAuthorize settings host uri).Uses Op.OfRequest := by
  have hlooks : ∀ {α : Type} {p : Coro α}, p.Uses Op.Looks → p.Uses Op.OfRequest :=
    fun hp => hp.mono fun _ hop => hop.1.ofRequest
  refine Prog.Uses.bind ((checks_matchApp host).mono fun _ => Op.Checks.ofRequest) fun app => ?_
  refine Prog.Uses.bind (hlooks (looks_matchPath uri app)) fun pathObject => ?_
  refine Prog.Uses.bind (hlooks looks_getAuthState) fun authState => ?_
  refine Prog.Uses.bind (hlooks (looks_getIdentity settings)) fun headerValues => ?_
  refine Prog.Uses.bind (uses_checkAccess pathObject authState) fun path => ?_
  refine Prog.Uses.bind (hlooks (looks_setHeaders _ _)) fun _ => ?_
  exact (uses_onRequestToApp settings app).mono fun _ hop => hop.1

theorem signalProtocol_after {op : Op} (h : op.OfRequest) (l : Unsent) (r : Answer op) :
    signalProtocol.after l op r = l := by
  cases op with
  | insertApp | removeApp | changeIdentity | onAppsUpdate | onIdentityUpdate => exact h.elim
  | _ => rfl

theorem conforms_program (settings : Settings) (i : Call) :
    (i.program settings).Conforms signalProtocol {} fun _ l => l = {} := by
  cases i with
  | request id host uri =>
    refine Prog.Conforms.of_uses (uses_authenticateAndAuthorize settings host uri)
      (fun op hop l hl => ⟨trivial, fun r => ?_⟩) rfl
    rw [signalProtocol_after hop, hl]
  | install id app =>
    refine ⟨trivial, fun r => ?_⟩
    cases r with
    | ok u => exact ⟨trivial, fun r' => by cases r' <;> rfl⟩
    | error e => rfl
  | uninstall id name =>
    refine ⟨trivial, fun r => ?_⟩
    cases r with
    | ok u => exact ⟨trivial, fun r' => by cases r' <;> rfl⟩
    | error e => rfl
  | setIdentity id identity =>
    refine ⟨trivial, fun r => ?_⟩
    cases r with
    | ok u => exact ⟨trivial, fun r' => by cases r' <;> rfl⟩
    | error e => rfl

/-- Some call is about to send `on_apps_update` for a change. -/
def AppsSignalDue (s : State) : Prop := ∃ e ∈ s.log, (unsent e.caller s).apps = true

def IdentitySignalDue (s : State) : Prop := ∃ e ∈ s.log, (unsent e.caller s).identity = true

instance (s : State) : Decidable (AppsSignalDue s) := inferInstanceAs (Decidable (∃ e ∈ _, _))

instance (s : State) : Decidable (IdentitySignalDue s) := inferInstanceAs (Decidable (∃ e ∈ _, _))

/-! ## The condition -/

variable (settings : Settings)

/-- The identity as `_get_identity` presents it. -/
def World.currentIdentity (w : World) : SafeIdentity :=
  SafeIdentity.fromIdentity settings.presentation w.defaultIdentity

/-- A request stores what the database still holds, or what a signal to come will drop. -/
def storesCurrent : Condition Op Ans Exn World Call := fun s _ op =>
  match op with
  | .cacheApp name entry => s.world.Agrees name entry ∨ AppsSignalDue s
  | .cacheIdentity identity => identity = s.world.currentIdentity settings ∨ IdentitySignalDue s
  | _ => True

instance (s : State) (i : Call) (op : Op) : Decidable (storesCurrent settings s i op) := by
  unfold storesCurrent
  split <;> infer_instance

/-! ## The invariant -/

/-- Both caches agree with the database. -/
def Coherent (w : World) : Prop :=
  w.CacheAgrees ∧
    ∀ identity, w.identityCache = some identity → identity = w.currentIdentity settings

/-- A cached value that does not agree with the database will be dropped by a signal to come. -/
structure CoherentUpToSignals (s : State) : Prop where
  apps : ∀ name entry, s.world.appCache name = some entry →
    s.world.Agrees name entry ∨ ∃ j, (unsent j s).apps = true
  identity : ∀ identity, s.world.identityCache = some identity →
    identity = s.world.currentIdentity settings ∨ ∃ j, (unsent j s).identity = true

section Step
variable {settings} {s : State} {i : Call} {op : Op} {r : Answer op} {w' : World}

theorem appsSignalDue_next (hop : op ≠ .onAppsUpdate) {j : Call} (h : (unsent j s).apps = true) :
    (unsent j (s.next i op r w')).apps = true := by
  by_cases hj : j = i
  · subst hj
    rw [unsent, phaseOf_next_self]
    cases op with
    | onAppsUpdate => exact absurd rfl hop
    | insertApp app => cases r <;> first | exact h | rfl
    | removeApp name => cases r <;> first | exact h | rfl
    | changeIdentity identity => cases r <;> exact h
    | _ => exact h
  · rw [unsent, phaseOf_next_ne _ _ _ _ hj]
    exact h

theorem identitySignalDue_next (hop : op ≠ .onIdentityUpdate) {j : Call}
    (h : (unsent j s).identity = true) : (unsent j (s.next i op r w')).identity = true := by
  by_cases hj : j = i
  · subst hj
    rw [unsent, phaseOf_next_self]
    cases op with
    | onIdentityUpdate => exact absurd rfl hop
    | changeIdentity identity => cases r <;> first | exact h | rfl
    | insertApp app => cases r <;> exact h
    | removeApp name => cases r <;> exact h
    | _ => exact h
  · rw [unsent, phaseOf_next_ne _ _ _ _ hj]
    exact h

/-- What a step does to a cached app: the entry is stored by it, or was there before and is still an app of the
name or not; else the step commits a change. -/
theorem Act.appCache (ha : Act s.world op r w') {name : String} {entry : Option InstalledApp}
    (hentry : w'.appCache name = some entry) :
    (∃ before, s.world.appCache name = some before ∧ before.map (·.name) = entry.map (·.name) ∧
      w'.installedApps.contains name = s.world.installedApps.contains name ∧ op ≠ .onAppsUpdate) ∨
    (op = .cacheApp name entry ∧ w'.installedApps = s.world.installedApps) ∨
    (unsent i (s.next i op r w')).apps = true := by
  cases ha with
  | fails e h =>
    refine .inl ⟨entry, hentry, rfl, rfl, ?_⟩
    rintro rfl
    cases h
  | answers r h =>
    refine .inl ⟨entry, hentry, rfl, rfl, ?_⟩
    rintro rfl
    exact h
  | proceeds =>
    cases op with
    | cacheApp other app =>
      change Function.update s.world.appCache other (some app) name = some entry at hentry
      by_cases hname : name = other
      · subst hname
        rw [Function.update_self] at hentry
        obtain rfl := Option.some.inj hentry
        exact .inr (.inl ⟨rfl, rfl⟩)
      · rw [Function.update_of_ne hname] at hentry
        exact .inl ⟨entry, hentry, rfl, rfl, nofun⟩
    | updateLastAccess other time =>
      exact .inl ⟨entry, hentry, rfl, InstalledApps.contains_updateLastAccess .., nofun⟩
    | setLastAccess other time =>
      change Function.update s.world.appCache other _ name = some entry at hentry
      by_cases hname : name = other
      · subst hname
        rw [Function.update_self] at hentry
        obtain ⟨before, hbefore, hset⟩ := Option.map_eq_some_iff.mp hentry
        refine .inl ⟨before, hbefore, ?_, rfl, nofun⟩
        rw [← hset, Option.map_map]
        rfl
      · rw [Function.update_of_ne hname] at hentry
        exact .inl ⟨entry, hentry, rfl, rfl, nofun⟩
    | insertApp app =>
      cases hinsert : s.world.installedApps.insert app with
      | none =>
        have heffect : s.world.effect (.insertApp app) =
            (.error (.other "unique violation"), s.world) := by
          rw [World.effect, hinsert]
        rw [heffect] at hentry
        exact .inl ⟨entry, hentry, rfl, by rw [heffect], nofun⟩
      | some t =>
        have heffect : s.world.effect (.insertApp app) =
            (.ok (), { s.world with installedApps := t }) := by
          rw [World.effect, hinsert]
        refine .inr (.inr ?_)
        rw [unsent, phaseOf_next_self, heffect]
        rfl
    | removeApp other =>
      refine .inr (.inr ?_)
      rw [unsent, phaseOf_next_self]
      rfl
    | onAppsUpdate => cases hentry
    | _ => exact .inl ⟨entry, hentry, rfl, rfl, nofun⟩

theorem Act.identityCache (ha : Act s.world op r w') {identity : SafeIdentity}
    (hidentity : w'.identityCache = some identity) :
    (s.world.identityCache = some identity ∧ w'.defaultIdentity = s.world.defaultIdentity ∧
      op ≠ .onIdentityUpdate) ∨
    (op = .cacheIdentity identity ∧ w'.defaultIdentity = s.world.defaultIdentity) ∨
    (unsent i (s.next i op r w')).identity = true := by
  cases ha with
  | fails e h =>
    refine .inl ⟨hidentity, rfl, ?_⟩
    rintro rfl
    cases h
  | answers r h =>
    refine .inl ⟨hidentity, rfl, ?_⟩
    rintro rfl
    exact h
  | proceeds =>
    cases op with
    | cacheIdentity stored =>
      obtain rfl := Option.some.inj hidentity
      exact .inr (.inl ⟨rfl, rfl⟩)
    | changeIdentity changed =>
      refine .inr (.inr ?_)
      rw [unsent, phaseOf_next_self]
      rfl
    | insertApp app =>
      cases hinsert : s.world.installedApps.insert app with
      | none =>
        rw [World.effect, hinsert] at hidentity
        exact .inl ⟨hidentity, by rw [World.effect, hinsert], nofun⟩
      | some t =>
        rw [World.effect, hinsert] at hidentity
        exact .inl ⟨hidentity, by rw [World.effect, hinsert], nofun⟩
    | onIdentityUpdate => cases hidentity
    | _ => exact .inl ⟨hidentity, rfl, nofun⟩

theorem CoherentUpToSignals.step (h : CoherentUpToSignals settings s)
    (hC : storesCurrent settings s i op) (ha : Act s.world op r w') :
    CoherentUpToSignals settings (s.next i op r w') where
  apps name entry hentry := by
    obtain ⟨before, hbefore, hname, hcontains, hop⟩ | ⟨rfl, htable⟩ | hdue :=
      ha.appCache (i := i) hentry
    · obtain hagrees | ⟨j, hj⟩ := h.apps name before hbefore
      · left
        unfold World.Agrees at hagrees ⊢
        rw [next_world, hcontains, ← hname]
        exact hagrees
      · exact .inr ⟨j, appsSignalDue_next hop hj⟩
    · obtain hagrees | ⟨e, -, he⟩ := hC
      · left
        unfold World.Agrees at hagrees ⊢
        rw [next_world, htable]
        exact hagrees
      · exact .inr ⟨e.caller, appsSignalDue_next (by nofun) he⟩
    · exact .inr ⟨i, hdue⟩
  identity identity hidentity := by
    obtain ⟨hbefore, hrow, hop⟩ | ⟨rfl, hrow⟩ | hdue := ha.identityCache (i := i) hidentity
    · obtain hcurrent | ⟨j, hj⟩ := h.identity identity hbefore
      · left
        rw [hcurrent, World.currentIdentity, World.currentIdentity, next_world, hrow]
      · exact .inr ⟨j, identitySignalDue_next hop hj⟩
    · obtain hcurrent | ⟨e, -, he⟩ := hC
      · left
        rw [hcurrent, World.currentIdentity, World.currentIdentity, next_world, hrow]
      · exact .inr ⟨e.caller, identitySignalDue_next (by nofun) he⟩
    · exact .inr ⟨i, hdue⟩

end Step

/-! ## Main results -/

/-- If every store is of what the database still holds, or of what a signal to come will drop, then both caches
agree with the database whenever nothing is in flight. -/
theorem caches_coherent {w : World} (hw : Coherent settings w)
    {c : Config Op Ans Exn State Call}
    (h : Recorded.Runs (fun _ => Act) (storesCurrent settings) (Call.program settings) w c)
    (hq : c.Quiescent) : Coherent settings c.state.world := by
  have h₀ : CoherentUpToSignals settings (⟨w, []⟩ : State) := {
    apps := fun name entry hentry => .inl (hw.1 name entry hentry)
    identity := fun identity hidentity => .inl (hw.2 identity hidentity) }
  have hinv : CoherentUpToSignals settings c.state :=
    h.invariant (conforms_program settings) h₀ fun i s op r w' _ hs hC ha => hs.step hC ha
  have hsent : ∀ j, unsent j c.state = {} := by
    intro j
    obtain hidle | ⟨r, hended⟩ := h.ended (conforms_program settings) hq j
    · exact hidle
    · exact hended
  refine ⟨fun name entry hentry => ?_, fun identity hidentity => ?_⟩
  · obtain hagrees | ⟨j, hj⟩ := hinv.apps name entry hentry
    · exact hagrees
    · rw [hsent j] at hj
      cases hj
  · obtain hcurrent | ⟨j, hj⟩ := hinv.identity identity hidentity
    · exact hcurrent
    · rw [hsent j] at hj
      cases hj

section Scripts

/-- A shard with one app, all of whose paths are private. -/
def World.notes : World where
  installedApps := ⟨[{ name := "notes" }], by decide⟩
  defaultIdentity := ⟨"old", "Shard Owner", none, none, "key", true⟩
  appMetadata := fun name => .ok { AppMeta.named name with
    paths := [("", { access := .PRIVATE })], paths_nodup := by decide }

def Settings.plain : Settings where
  presentation := ⟨6, "example.org", id⟩
  render := fun template _ _ => template
  maxUpdateFrequency := 60

theorem World.notes_coherent : Coherent Settings.plain World.notes :=
  ⟨nofun, nofun⟩

theorem exists_run (C : Condition Op Ans Exn World Call) [∀ s i op, Decidable (C s i op)] (w : World)
    (turns : List (Turn Call Choice)) (F : Config Op Ans Exn State Call → Bool)
    (h : ((Config.idle ⟨w, []⟩).play (Recorded.exec (fun _ => World.exec) C)
      (turns.map (Turn.move (Call.program .plain)))).any F = true) :
    ∃ c, Recorded.Runs (fun _ => Act) C (Call.program .plain) w c ∧ F c = true ∧
      ((∀ turn ∈ turns, c.ended turn.name = true) → c.Quiescent) :=
  Recorded.Runs.exists (fun _ => World.exec) C (Call.program .plain)
    (fun _ _ _ _ _ _ he => Act.of_exec he) w turns F h

/-- The request of a client without a token, denied once everything is cached. -/
def askNotes : Call := .request 0 "notes.example.org" "/"

/-- A request without interference. -/
theorem caches_coherent_run : ∃ c, Recorded.Runs (fun _ => Act) (storesCurrent .plain)
    (Call.program .plain) World.notes c ∧ c.state.world.appCache "notes" ≠ none ∧
    c.state.world.identityCache ≠ none ∧ Coherent Settings.plain c.state.world := by
  obtain ⟨c, hrun, hc, hq⟩ := exists_run (storesCurrent .plain) World.notes
    (Turn.call askNotes (List.replicate 9 .proceed))
    (fun c => c.ended askNotes && (c.state.world.appCache "notes").isSome &&
      c.state.world.identityCache.isSome) (by decide)
  simp only [Bool.and_eq_true] at hc
  obtain ⟨⟨hended, happ⟩, hidentity⟩ := hc
  have hquiet : c.Quiescent := by
    refine hq fun turn hturn => ?_
    have hname : turn.name = askNotes := by
      simp only [Turn.call, List.map_replicate, List.mem_cons, List.mem_replicate] at hturn
      obtain rfl | ⟨-, rfl⟩ := hturn <;> rfl
    rw [hname]
    exact hended
  refine ⟨c, hrun, Option.isSome_iff_ne_none.mp happ, Option.isSome_iff_ne_none.mp hidentity, ?_⟩
  exact caches_coherent .plain World.notes_coherent hrun hquiet

/-- The app is uninstalled and the default identity changed while a request reads them; both signals are sent
before it stores what it has read. -/
theorem caches_stale : ∃ c, Recorded.Runs (fun _ => Act) anyway (Call.program .plain)
    World.notes c ∧ c.Quiescent ∧ ¬ c.state.world.CacheAgrees ∧
    ∃ identity, c.state.world.identityCache = some identity ∧
      identity ≠ c.state.world.currentIdentity .plain := by
  let removal : Call := .uninstall 1 "notes"
  let change : Call := .setIdentity 2 ⟨"new", "Shard Owner", none, none, "key", true⟩
  obtain ⟨c, hrun, hc, hq⟩ := exists_run anyway World.notes
    ([Turn.start askNotes, .fire askNotes .proceed, .fire askNotes .proceed] ++
      Turn.call removal [Choice.proceed, .proceed] ++
      List.replicate 6 (.fire askNotes .proceed) ++ Turn.call change [Choice.proceed, .proceed] ++
      [Turn.fire askNotes .proceed])
    (fun c => c.ended askNotes && c.ended removal && c.ended change &&
      decide (∃ entry ∈ c.state.world.appCache "notes", ¬ c.state.world.Agrees "notes" entry) &&
      decide (∃ identity ∈ c.state.world.identityCache,
        identity ≠ c.state.world.currentIdentity .plain)) (by decide)
  simp only [Bool.and_eq_true, decide_eq_true_eq] at hc
  obtain ⟨⟨⟨⟨hask, hremoval⟩, hchange⟩, entry, hentry, hstale⟩, identity, hidentity, hold⟩ := hc
  refine ⟨c, hrun, hq ?_, fun hagrees => hstale (hagrees _ _ hentry), identity, hidentity, hold⟩
  simp [Turn.call, Turn.name, hask, hremoval, hchange]

end Scripts

end Freeshard.Auth

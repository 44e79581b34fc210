import Freeshard.Coroutine.Execution
import Freeshard.Web.Auth

/-! # The decision on a request

Which requests `authenticate_and_authorize` lets pass: those for an app that `_find_app` finds, on a path whose access
level, that of the longest configured prefix of the URI, admits the client. A request that is denied starts no app and
leaves no trace of an access. -/

namespace Freeshard.Auth
open Coroutine Coroutine.Prog
set_option autoImplicit false

/-! ## The longest prefix -/

theorem mem_sortedPaths {paths : List (String × Path)} {path : String × Path} :
    path ∈ sortedPaths paths ↔ path ∈ paths := List.mem_insertionSort _

theorem sortedPaths_pairwise (paths : List (String × Path)) :
    (sortedPaths paths).Pairwise fun a b => b.1.length ≤ a.1.length := by
  let longer : String × Path → String × Path → Prop := fun a b => b.1.length ≤ a.1.length
  have : Std.Total longer := ⟨fun a b => Nat.le_total b.1.length a.1.length⟩
  have : IsTrans (String × Path) longer := ⟨fun _ _ _ hab hbc => Nat.le_trans hbc hab⟩
  exact List.pairwise_insertionSort longer paths

/-- The path configured for the longest prefix of the URI. -/
def LongestMatch (uri : String) (paths : List (String × Path)) (path : Path) : Prop :=
  ∃ start, (start, path) ∈ paths ∧ startsWith uri start = true ∧
    ∀ other ∈ paths, startsWith uri other.1 = true → other.1.length ≤ start.length

theorem longestMatch_of_selectPath {uri : String} {paths : List (String × Path)} {path : Path}
    (h : selectPath uri paths = some path) : LongestMatch uri paths path := by
  unfold selectPath at h
  obtain ⟨⟨start, path'⟩, hfind, rfl⟩ := Option.map_eq_some_iff.mp h
  obtain ⟨hstart, before, after, hsplit, hbefore⟩ := List.find?_eq_some_iff_append.mp hfind
  have hsorted := sortedPaths_pairwise paths
  rw [hsplit, List.pairwise_append, List.pairwise_cons] at hsorted
  refine ⟨start, ?_, hstart, fun other hother hmatch => ?_⟩
  · rw [← mem_sortedPaths, hsplit]
    exact List.mem_append_right _ List.mem_cons_self
  · rw [← mem_sortedPaths, hsplit, List.mem_append, List.mem_cons] at hother
    obtain hmem | rfl | hmem := hother
    · have hnot := hbefore other hmem
      rw [hmatch] at hnot
      cases hnot
    · exact le_rfl
    · exact hsorted.2.1.1 other hmem

theorem LongestMatch.unique {uri : String} {paths : List (String × Path)} {path path' : Path}
    (hnodup : (paths.map (·.1)).Nodup) (h : LongestMatch uri paths path)
    (h' : LongestMatch uri paths path') : path = path' := by
  obtain ⟨start, hmem, hstart, hlongest⟩ := h
  obtain ⟨start', hmem', hstart', hlongest'⟩ := h'
  have hlen : start.length = start'.length :=
    Nat.le_antisymm (hlongest' _ hmem hstart) (hlongest _ hmem' hstart')
  have heq : start = start' := startsWith_unique hstart hstart' hlen
  exact congrArg Prod.snd (List.inj_on_of_nodup_map hnodup hmem hmem' heq)

theorem selectPath_eq_some {uri : String} {paths : List (String × Path)}
    (hnodup : (paths.map (·.1)).Nodup) {path : Path} :
    selectPath uri paths = some path ↔ LongestMatch uri paths path := by
  constructor
  · exact longestMatch_of_selectPath
  · intro h
    have hsome : (selectPath uri paths).isSome = true := by
      obtain ⟨start, hmem, hstart, -⟩ := h
      unfold selectPath
      rw [Option.isSome_map]
      exact List.find?_isSome.mpr ⟨_, mem_sortedPaths.mpr hmem, hstart⟩
    obtain ⟨path', hselect⟩ := Option.isSome_iff_exists.mp hsome
    rw [hselect, h.unique hnodup (longestMatch_of_selectPath hselect)]

/-! ## What the decision rests on -/

namespace World

/-- What `_find_app` answers: the cached entry, or else the row in the database. -/
def finds (w : World) (name : String) : Option InstalledApp :=
  (w.appCache name).getD (w.installedApps.getByName name)

/-- What `_get_auth_state` answers. -/
def authState (w : World) : AuthState :=
  match w.terminal, w.peer with
  | some terminal, _ => ⟨.TERMINAL, some terminal.id, some terminal.name⟩
  | none, .ok peer => ⟨.PEER, some peer.id, peer.name⟩
  | none, .error _ => ⟨.ANONYMOUS, none, none⟩

/-- The clients an access level admits: `PUBLIC` any, `PRIVATE` one whose token verified, `PEER` one whose
signature verified and whose token did not. -/
def Admits (w : World) : Access → Prop
  | .PUBLIC => True
  | .PRIVATE => ∃ terminal, w.terminal = some terminal
  | .PEER => w.terminal = none ∧ ∃ peer, w.peer = .ok peer

/-- The entry is an app of this name if the database has one, and no app if it has not. -/
def Agrees (w : World) (name : String) (entry : Option InstalledApp) : Prop :=
  entry.map (·.name) = if w.installedApps.contains name then some name else none

instance (w : World) (name : String) (entry : Option InstalledApp) :
    Decidable (w.Agrees name entry) := inferInstanceAs (Decidable (_ = _))

/-- Every cached entry agrees with the database. -/
def CacheAgrees (w : World) : Prop :=
  ∀ name entry, w.appCache name = some entry → w.Agrees name entry

/-- Every cached app is filed under its own name. -/
def CachedByName (w : World) : Prop :=
  ∀ name app, w.appCache name = some (some app) → app.name = name

/-- The metadata of this name has a prefix of the URI, and the path of the longest admits the client. -/
def Opens (w : World) (name uri : String) : Prop :=
  ∃ appMeta path, w.appMetadata name = .ok appMeta ∧ LongestMatch uri appMeta.paths path ∧ w.Admits path.access

end World

/-- Two worlds that differ at most in the caches, the headers of the response and the request counter. -/
structure SameAccess (w w' : World) : Prop where
  installedApps : w'.installedApps = w.installedApps
  appMetadata : w'.appMetadata = w.appMetadata
  terminal : w'.terminal = w.terminal
  peer : w'.peer = w.peer
  lastAccessDict : w'.lastAccessDict = w.lastAccessDict
  backgroundTasks : w'.backgroundTasks = w.backgroundTasks

theorem SameAccess.refl (w : World) : SameAccess w w := ⟨rfl, rfl, rfl, rfl, rfl, rfl⟩

theorem SameAccess.trans {w₁ w₂ w₃ : World} (h : SameAccess w₁ w₂) (h' : SameAccess w₂ w₃) :
    SameAccess w₁ w₃ :=
  ⟨h'.installedApps.trans h.installedApps, h'.appMetadata.trans h.appMetadata,
    h'.terminal.trans h.terminal, h'.peer.trans h.peer, h'.lastAccessDict.trans h.lastAccessDict,
    h'.backgroundTasks.trans h.backgroundTasks⟩

theorem SameAccess.authState {w w' : World} (h : SameAccess w w') : w'.authState = w.authState := by
  unfold World.authState
  rw [h.terminal, h.peer]

/-- The operations before the request is granted. -/
def Op.Checks : Op → Prop
  | .appCached _ | .cacheApp _ _ | .identityCached | .cacheIdentity _ | .getByName _ | .getDefault
  | .getAppMetadata _ | .verifyTerminalJwt | .verifyPeerAuth | .onTerminalAuth _ | .onPeerAuth _
  | .setHeader _ _ => True
  | _ => False

/-- The operation by which `_find_app` files an app. -/
def Op.filesApp : Op → Bool
  | .cacheApp _ _ => true
  | _ => false

/-- The operations between the match and the grant. -/
def Op.Looks (op : Op) : Prop := op.Checks ∧ op.filesApp = false

theorem SameAccess.effect {w w' : World} (h : SameAccess w w') {op : Op} (hop : op.Checks) :
    SameAccess w (w'.effect op).2 := by
  cases op with
  | appCached | cacheApp | identityCached | cacheIdentity | getByName | getDefault | getAppMetadata
  | verifyTerminalJwt | verifyPeerAuth | onTerminalAuth | onPeerAuth | setHeader =>
    exact ⟨h.installedApps, h.appMetadata, h.terminal, h.peer, h.lastAccessDict, h.backgroundTasks⟩
  | _ => exact hop.elim

theorem sameAccess_eval {α : Type} {p : Coro α} (hp : p.Uses Op.Checks) (w : World) :
    SameAccess w (p.eval World.effect w).2 :=
  Uses.eval World.effect hp (fun _ hop _ h => h.effect hop) (SameAccess.refl w)

theorem sameAccess_of_looks {α : Type} {p : Coro α} (hp : p.Uses Op.Looks) (w : World) :
    SameAccess w (p.eval World.effect w).2 :=
  sameAccess_eval (hp.mono fun _ hop => hop.1) w

/-! ## The parts of the decision -/

section Parts
variable (settings : Settings)

theorem checks_findApp (name : String) : (findApp name).Uses Op.Checks := by
  refine Uses.bind ((uses_perform _).mpr trivial) fun cached => ?_
  cases cached with
  | some app => trivial
  | none =>
    refine Uses.bind ((uses_perform _).mpr trivial) fun result => ?_
    exact Uses.bind ((uses_perform _).mpr trivial) fun _ => trivial

theorem checks_matchApp (host : String) : (matchApp host).Uses Op.Checks := by
  refine Uses.bind (checks_findApp _) fun app => ?_
  cases app <;> trivial

theorem looks_matchPath (uri : String) (app : InstalledApp) :
    (matchPath uri app).Uses Op.Looks :=
  Uses.bind ((uses_perform _).mpr ⟨trivial, rfl⟩) fun _ => trivial

theorem looks_getAuthState : getAuthState.Uses Op.Looks := by
  refine Uses.bind (Uses.tryCatch (Uses.bind ((uses_perform _).mpr ⟨trivial, rfl⟩) fun _ => trivial)
    fun e => ?_) fun terminal => ?_
  · cases e <;> trivial
  cases terminal with
  | some terminal => exact Uses.bind ((uses_perform _).mpr ⟨trivial, rfl⟩) fun _ => trivial
  | none =>
    refine Uses.bind (Uses.tryCatch (Uses.bind ((uses_perform _).mpr ⟨trivial, rfl⟩) fun _ => trivial)
      fun e => ?_) fun peer => ?_
    · cases e <;> trivial
    cases peer with
    | some peer => exact Uses.bind ((uses_perform _).mpr ⟨trivial, rfl⟩) fun _ => trivial
    | none => trivial

theorem looks_getIdentity : (getIdentity settings).Uses Op.Looks := by
  refine Uses.bind ((uses_perform _).mpr ⟨trivial, rfl⟩) fun cached => ?_
  cases cached with
  | some identity => trivial
  | none =>
    refine Uses.bind ((uses_perform _).mpr ⟨trivial, rfl⟩) fun identity => ?_
    exact Uses.bind ((uses_perform _).mpr ⟨trivial, rfl⟩) fun _ => trivial

theorem findApp_eval (name : String) (w : World) :
    ((findApp name).eval World.effect w).1 = .ok (w.finds name) := by
  unfold findApp World.finds
  rw [eval_bind_ok (a := w.appCache name) rfl]
  cases h : w.appCache name with
  | some app => rfl
  | none => rfl

theorem matchApp_eval (host : String) (w : World) :
    ((matchApp host).eval World.effect w).1 =
      (w.finds (firstPart '.' host)).elim (.error (.httpException 404)) .ok := by
  unfold matchApp
  rw [eval_bind_ok (findApp_eval _ w)]
  cases w.finds (firstPart '.' host) <;> rfl

theorem matchPath_eval (uri : String) (app : InstalledApp) (w : World) :
    ((matchPath uri app).eval World.effect w).1 =
      (w.appMetadata app.name).map fun appMeta => selectPath uri appMeta.paths := by
  unfold matchPath
  rw [eval_bind, getAppMetadata, eval_perform]
  dsimp only [World.effect]
  cases w.appMetadata app.name <;> rfl

theorem getAuthState_eval (w : World) : (getAuthState.eval World.effect w).1 = .ok w.authState := by
  unfold getAuthState World.authState
  rw [eval_bind, eval_tryCatch, eval_map, verifyTerminalJwt, eval_perform]
  dsimp only [World.effect]
  cases w.terminal with
  | some terminal => rfl
  | none =>
    dsimp only [Option.elim_none, Except.map]
    rw [pure_eq_ret, eval_ret]
    dsimp only
    rw [eval_bind, eval_tryCatch, eval_map, verifyPeerAuth, eval_perform]
    dsimp only [World.effect]
    cases w.peer with
    | ok peer => rfl
    | error reason => cases reason <;> rfl

theorem getIdentity_eval (w : World) :
    ∃ identity, ((getIdentity settings).eval World.effect w).1 = .ok identity := by
  unfold getIdentity
  rw [eval_bind_ok (a := w.identityCache) rfl]
  cases w.identityCache with
  | some identity => exact ⟨identity, rfl⟩
  | none => exact ⟨_, rfl⟩

/-- Granting the request runs the receivers of `on_request_to_app`, which do not raise. -/
theorem onRequestToApp_eval {app : InstalledApp} {w : World} {appMeta : AppMeta}
    (h : w.appMetadata app.name = .ok appMeta) :
    ((onRequestToApp settings app).eval World.effect w).1 = .ok () := by
  have hupdate : ((updateLastAccess settings app).eval World.effect w).1 = .ok () ∧
      ((updateLastAccess settings app).eval World.effect w).2.appMetadata = w.appMetadata := by
    unfold updateLastAccess now
    rw [eval_bind, eval_perform]
    dsimp only [World.effect]
    split
    · exact ⟨rfl, rfl⟩
    · exact ⟨rfl, rfl⟩
  unfold onRequestToApp
  rw [eval_bind_ok hupdate.1]
  generalize ((updateLastAccess settings app).eval World.effect w).2 = w₁ at hupdate
  unfold recordRequest ensureAppIsRunning diskSpaceLow
  rw [eval_bind, eval_perform]
  dsimp only [World.effect]
  rw [eval_bind, eval_perform]
  dsimp only [World.effect]
  split
  · rfl
  · rw [eval_bind, getAppMetadata, eval_perform]
    dsimp only [World.effect]
    rw [hupdate.2, h]
    dsimp only
    rw [eval_bind, sizeIsCompatible, eval_perform]
    dsimp only [World.effect]
    split <;> rfl

theorem setHeaders_eval (header : String × String → String) (headers : List (String × String))
    (w : World) : ((headers.forM fun h => setHeader h.1 (header h)).eval World.effect w).1 = .ok () := by
  induction headers generalizing w with
  | nil => rfl
  | cons h headers ih => exact ih _

theorem looks_setHeaders (header : String × String → String) (headers : List (String × String)) :
    (headers.forM fun h => setHeader h.1 (header h)).Uses Op.Looks :=
  Uses.forM fun _ => (uses_perform _).mpr ⟨trivial, rfl⟩

theorem grant_eval {app : InstalledApp} {w w' : World} (h : SameAccess w w') {appMeta : AppMeta}
    (hmeta : w.appMetadata app.name = .ok appMeta) (header : String × String → String)
    (headers : List (String × String)) :
    ((do
      headers.forM fun h => setHeader h.1 (header h)
      onRequestToApp settings app : Coro Unit).eval World.effect w').1 = .ok () := by
  rw [eval_bind_ok (setHeaders_eval header headers w')]
  have hsame := h.trans (sameAccess_of_looks (looks_setHeaders header headers) w')
  rw [← hsame.appMetadata] at hmeta
  exact onRequestToApp_eval settings hmeta

end Parts

/-! ## The decision -/

section Decision
variable (settings : Settings) (w : World) (host uri : String)

/-- The request is granted: it ends with the response that lets it pass. -/
def Granted : Prop :=
  ((authenticateAndAuthorize settings host uri).eval World.effect w).1 = .ok ()

/-- What a request is let pass for. -/
def Passes : Prop :=
  ∃ app, w.finds (firstPart '.' host) = some app ∧ w.Opens app.name uri

theorem checkAccess_ok {path : Path} (h : w.Admits path.access) :
    checkAccess (some path) w.authState = .ret path := by
  obtain ⟨access, headers⟩ := path
  cases access with
  | PUBLIC => rfl
  | PRIVATE =>
    obtain ⟨terminal, hterminal⟩ := h
    unfold checkAccess World.authState
    rw [hterminal]
    rfl
  | PEER =>
    obtain ⟨hterminal, peer, hpeer⟩ := h
    unfold checkAccess World.authState
    rw [hterminal, hpeer]
    rfl

theorem checkAccess_denied {path : Path} (h : ¬ w.Admits path.access) :
    checkAccess (some path) w.authState = .raise (.httpException 401) := by
  obtain ⟨access, headers⟩ := path
  cases access with
  | PUBLIC => exact absurd trivial h
  | PRIVATE =>
    unfold checkAccess World.authState
    cases hterminal : w.terminal with
    | some terminal => exact absurd ⟨terminal, hterminal⟩ h
    | none => cases w.peer <;> rfl
  | PEER =>
    unfold checkAccess World.authState
    cases hterminal : w.terminal with
    | some terminal => rfl
    | none =>
      cases hpeer : w.peer with
      | ok peer => exact absurd ⟨hterminal, peer, hpeer⟩ h
      | error reason => rfl

/-- A request either is let pass and granted, or ends in an exception with nothing changed. -/
theorem decided :
    (Passes w host uri ∧ Granted settings w host uri) ∨
    (¬ Passes w host uri ∧ ¬ Granted settings w host uri ∧
      SameAccess w ((authenticateAndAuthorize settings host uri).eval World.effect w).2) := by
  unfold Granted authenticateAndAuthorize Passes World.Opens
  have happ := matchApp_eval host w
  have hsame₁ := sameAccess_eval (checks_matchApp host) w
  cases hfinds : w.finds (firstPart '.' host) with
  | none =>
    rw [hfinds] at happ
    rw [eval_bind_error happ]
    exact .inr ⟨by simp, nofun, hsame₁⟩
  | some app =>
    rw [hfinds] at happ
    rw [eval_bind_ok happ]
    generalize ((matchApp host).eval World.effect w).2 = w₁ at hsame₁
    have hpath := matchPath_eval uri app w₁
    have hsame₂ := hsame₁.trans (sameAccess_of_looks (looks_matchPath uri app) w₁)
    rw [hsame₁.appMetadata] at hpath
    cases hmeta : w.appMetadata app.name with
    | error e =>
      rw [hmeta] at hpath
      rw [eval_bind_error hpath]
      refine .inr ⟨?_, nofun, hsame₂⟩
      rintro ⟨app', happ', appMeta, path, hmeta', -⟩
      obtain rfl := Option.some.inj happ'
      rw [hmeta] at hmeta'
      cases hmeta'
    | ok appMeta =>
      rw [hmeta] at hpath
      rw [eval_bind_ok hpath]
      generalize ((matchPath uri app).eval World.effect w₁).2 = w₂ at hsame₂
      rw [eval_bind_ok (getAuthState_eval w₂)]
      have hsame₃ := hsame₂.trans (sameAccess_of_looks looks_getAuthState w₂)
      rw [hsame₂.authState]
      generalize (getAuthState.eval World.effect w₂).2 = w₃ at hsame₃
      obtain ⟨identity, hidentity⟩ := getIdentity_eval settings w₃
      rw [eval_bind_ok hidentity]
      have hsame₄ := hsame₃.trans (sameAccess_of_looks (looks_getIdentity settings) w₃)
      generalize ((getIdentity settings).eval World.effect w₃).2 = w₄ at hsame₄
      dsimp only
      cases hselect : selectPath uri appMeta.paths with
      | none =>
        refine .inr ⟨?_, nofun, hsame₄⟩
        rintro ⟨app', happ', appMeta', path, hmeta', hlongest, -⟩
        obtain rfl := Option.some.inj happ'
        obtain rfl := Except.ok.inj (hmeta.symm.trans hmeta')
        rw [(selectPath_eq_some appMeta.paths_nodup).mpr hlongest] at hselect
        cases hselect
      | some path =>
        have hlongest := (selectPath_eq_some appMeta.paths_nodup).mp hselect
        by_cases hadmits : w.Admits path.access
        · rw [checkAccess_ok w hadmits]
          refine .inl ⟨⟨app, rfl, appMeta, path, hmeta, hlongest, hadmits⟩, ?_⟩
          exact grant_eval settings hsame₄ hmeta _ _
        · rw [checkAccess_denied w hadmits]
          refine .inr ⟨?_, nofun, hsame₄⟩
          rintro ⟨app', happ', appMeta', path', hmeta', hlongest', hadmits'⟩
          obtain rfl := Option.some.inj happ'
          obtain rfl := Except.ok.inj (hmeta.symm.trans hmeta')
          obtain rfl := hlongest.unique appMeta.paths_nodup hlongest'
          exact hadmits hadmits'

end Decision

end Freeshard.Auth

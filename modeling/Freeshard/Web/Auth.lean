import Freeshard.Coroutine.Recorded
import Freeshard.DataModel.Identity
import Freeshard.Database.InstalledApps
import Freeshard.Database.Peers
import Freeshard.Service.Pairing
import Freeshard.Util.Text
import Mathlib.Data.List.Sort
import Mathlib.Algebra.Order.Ring.Rat

/-! # Authentication and authorization of requests to apps

`web/internal/auth.py` with its two caches, and the receivers of the signal that a granted request sends:
`ensure_app_is_running` of `service/app_lifecycle.py`, `update_last_access` of `data_model/app_meta.py`, and
the request counter of the telemetry. -/

namespace Freeshard.Auth
open Coroutine
set_option autoImplicit false

/-! ## Data -/

/-- `AuthState.ClientType`. -/
inductive ClientType where
  | TERMINAL
  | PEER
  | ANONYMOUS
  deriving DecidableEq, Repr

structure AuthState where
  type : ClientType
  id : Option String := none
  name : Option String := none
  deriving DecidableEq, Repr

inductive Exn where
  | httpException (status : ℕ)
  | attributeError (text : String)
  | invalidJwt
  | invalidSignature
  | keyError (key : String)
  | metadataNotFound (name : String)
  | other (text : String)
  deriving DecidableEq, Repr

/-! ## Operations -/

inductive Op where
  -- `_app_cache` and `_identity_cache`
  | appCached (name : String)
  | cacheApp (name : String) (app : Option InstalledApp)
  | identityCached
  | cacheIdentity (identity : SafeIdentity)
  -- the database
  | getByName (name : String)
  | getDefault
  | updateLastAccess (name : String) (now : ℚ)
  -- the services a request is checked with
  | getAppMetadata (name : String)
  | verifyTerminalJwt
  | verifyPeerAuth
  -- signals about the client, headers of the response
  | onTerminalAuth (terminal : Pairing.Terminal)
  | onPeerAuth (peer : Peers.Row)
  | setHeader (key value : String)
  -- the receivers of `on_request_to_app`
  | now
  | setLastAccess (name : String) (now : ℚ)
  | recordRequest
  | diskSpaceLow
  | sizeIsCompatible (size : VMSize)
  | noteAccess (name : String) (now : ℚ)
  | createStartTask (name : String)
  -- what other requests and the worker do: changes, each followed by its signal
  | insertApp (app : InstalledApp)
  | removeApp (name : String)
  | changeIdentity (identity : Identity)
  | onAppsUpdate
  | onIdentityUpdate
  deriving DecidableEq

@[reducible] def Ans : Op → Type
  | .appCached _ => Option (Option InstalledApp)
  | .identityCached => Option SafeIdentity
  | .getByName _ => Option InstalledApp
  | .getDefault => Identity
  | .getAppMetadata _ => AppMeta
  | .verifyTerminalJwt => Pairing.Terminal
  | .verifyPeerAuth => Peers.Row
  | .now => ℚ
  | .diskSpaceLow => Bool
  | .sizeIsCompatible _ => Bool
  | _ => Unit

abbrev Answer (op : Op) : Type := Except Exn (Ans op)

abbrev Coro (α : Type) : Type := Prog Op Ans Exn α

abbrev awaitOp (op : Op) : Coro (Ans op) := Prog.perform op

def appCached (name : String) : Coro (Option (Option InstalledApp)) := awaitOp (.appCached name)

def cacheApp (name : String) (app : Option InstalledApp) : Coro Unit :=
  awaitOp (.cacheApp name app)

def identityCached : Coro (Option SafeIdentity) := awaitOp .identityCached

def cacheIdentity (identity : SafeIdentity) : Coro Unit := awaitOp (.cacheIdentity identity)

def getByName (name : String) : Coro (Option InstalledApp) := awaitOp (.getByName name)

def getDefault : Coro Identity := awaitOp .getDefault

def getAppMetadata (name : String) : Coro AppMeta := awaitOp (.getAppMetadata name)

def verifyTerminalJwt : Coro Pairing.Terminal := awaitOp .verifyTerminalJwt

def verifyPeerAuth : Coro Peers.Row := awaitOp .verifyPeerAuth

def onTerminalAuth (terminal : Pairing.Terminal) : Coro Unit := awaitOp (.onTerminalAuth terminal)

def onPeerAuth (peer : Peers.Row) : Coro Unit := awaitOp (.onPeerAuth peer)

def setHeader (key value : String) : Coro Unit := awaitOp (.setHeader key value)

def now : Coro ℚ := awaitOp .now

def recordRequest : Coro Unit := awaitOp .recordRequest

def diskSpaceLow : Coro Bool := awaitOp .diskSpaceLow

def sizeIsCompatible (size : VMSize) : Coro Bool := awaitOp (.sizeIsCompatible size)

/-! ## The caches -/

/-- `_find_app`. -/
def findApp (appName : String) : Coro (Option InstalledApp) := do
  match ← appCached appName with
  | some app => return app
  | none =>
    let result ← getByName appName
    cacheApp appName result
    return result

/-- What does not depend on the request: how identities are presented, how header templates render, and
`settings().apps.last_access.max_update_frequency`. -/
structure Settings where
  presentation : Presentation
  render : String → AuthState → SafeIdentity → String
  maxUpdateFrequency : ℚ

variable (settings : Settings)

/-- `_get_identity`. -/
def getIdentity : Coro SafeIdentity := do
  match ← identityCached with
  | some identity => return identity
  | none =>
    let defaultIdentity ← getDefault
    let identity := SafeIdentity.fromIdentity settings.presentation defaultIdentity
    cacheIdentity identity
    return identity

/-! ## The decision -/

/-- `_match_app`. -/
def matchApp (host : String) : Coro InstalledApp := do
  match ← findApp (firstPart '.' host) with
  | some app => return app
  | none => throw (.httpException 404)

/-- Paths by the length of their prefix, longest first. -/
def sortedPaths (paths : List (String × Path)) : List (String × Path) :=
  paths.insertionSort fun a b => b.1.length ≤ a.1.length

/-- The first of the sorted paths whose prefix the URI starts with. -/
def selectPath (uri : String) (paths : List (String × Path)) : Option Path :=
  ((sortedPaths paths).find? fun path => startsWith uri path.1).map (·.2)

/-- `_match_path`. -/
def matchPath (uri : String) (app : InstalledApp) : Coro (Option Path) := do
  let appMeta ← getAppMetadata app.name
  return selectPath uri appMeta.paths

/-- `_get_auth_state`. -/
def getAuthState : Coro AuthState := do
  let terminal ← tryCatch (some <$> verifyTerminalJwt) fun
    | .invalidJwt => return none
    | e => throw e
  match terminal with
  | some terminal => do
    onTerminalAuth terminal
    return ⟨.TERMINAL, some terminal.id, some terminal.name⟩
  | none => do
    let peer ← tryCatch (some <$> verifyPeerAuth) fun
      | .invalidSignature => return none
      | .keyError _ => return none
      | e => throw e
    match peer with
    | some peer => do
      onPeerAuth peer
      return ⟨.PEER, some peer.id, peer.name⟩
    | none => return ⟨.ANONYMOUS, none, none⟩

/-- `update_last_access`. -/
def updateLastAccess (app : InstalledApp) : Coro Unit := do
  let time ← now
  if app.lastAccess.any fun last => decide (time - last < settings.maxUpdateFrequency) then
    return ()
  else do
    awaitOp (.updateLastAccess app.name time)
    awaitOp (.setLastAccess app.name time)

/-- `ensure_app_is_running`. -/
def ensureAppIsRunning (app : InstalledApp) : Coro Unit := do
  if ← diskSpaceLow then return ()
  else do
    let appMeta ← getAppMetadata app.name
    if ← sizeIsCompatible appMeta.minimumPortalSize then
      let time ← now
      awaitOp (.noteAccess app.name time)
      awaitOp (.createStartTask app.name)

/-- `on_request_to_app.send_async(app)`. -/
def onRequestToApp (app : InstalledApp) : Coro Unit := do
  updateLastAccess settings app
  recordRequest
  ensureAppIsRunning app

/-- The two checks against the access level of the path. -/
def checkAccess (path : Option Path) (authState : AuthState) : Coro Path :=
  match path with
  | none => throw (.attributeError "'NoneType' object has no attribute 'access'")
  | some path =>
    if path.access = .PRIVATE ∧ authState.type ≠ .TERMINAL then throw (.httpException 401)
    else if path.access = .PEER ∧ authState.type ≠ .PEER then throw (.httpException 401)
    else return path

/-- `authenticate_and_authorize`. -/
def authenticateAndAuthorize (host uri : String) : Coro Unit := do
  let app ← matchApp host
  let pathObject ← matchPath uri app
  let authState ← getAuthState
  let headerValues ← getIdentity settings
  let path ← checkAccess pathObject authState
  (path.headers.getD []).forM fun header =>
    setHeader header.1 (settings.render header.2 authState headerValues)
  onRequestToApp settings app

/-! ## What the operations do -/

/-- How a verification ends that ends neither in a peer nor in another exception. -/
inductive PeerRejection where
  | invalidSignature
  | unknownPeer (id : String)
  deriving DecidableEq, Repr

def PeerRejection.toExn : PeerRejection → Exn
  | .invalidSignature => .invalidSignature
  | .unknownPeer id => .keyError id

structure World where
  installedApps : InstalledApps
  /-- The default identity. -/
  defaultIdentity : Identity
  appCache : String → Option (Option InstalledApp) := fun _ => none
  identityCache : Option SafeIdentity := none
  /-- What `get_app_metadata` answers. -/
  appMetadata : String → Except Exn AppMeta := fun name => .error (.metadataNotFound name)
  /-- What `verify_terminal_jwt` makes of the request: a terminal, or `InvalidJwt`. -/
  terminal : Option Pairing.Terminal := none
  /-- What `verify_peer_auth` makes of the request. -/
  peer : Except PeerRejection Peers.Row := .error .invalidSignature
  clock : ℚ := 0
  diskSpaceLow : Bool := false
  vmSize : VMSize := .xl
  /-- `last_access_dict`. -/
  lastAccessDict : String → Option ℚ := fun _ => none
  /-- The apps for which a `start_app` task has been created. -/
  backgroundTasks : List String := []
  headers : List (String × String) := []
  noOfRequests : ℕ := 0

namespace World

/-- `_app_cache[name] = app`. -/
def setAppCache (w : World) (name : String) (app : Option InstalledApp) : World :=
  { w with appCache := Function.update w.appCache name (some app) }

/-- `app.last_access = now`, where `app` is the cached record. -/
def setLastAccess (w : World) (name : String) (time : ℚ) : World :=
  { w with appCache := Function.update w.appCache name <| (w.appCache name).map fun entry =>
      entry.map fun app => { app with lastAccess := some time } }

/-- `update_last_access` in the database. -/
def storeLastAccess (w : World) (name : String) (time : ℚ) : World :=
  { w with installedApps := w.installedApps.updateLastAccess name time }

/-- What an operation answers and leaves when nothing fails. -/
def effect (w : World) : (op : Op) → Answer op × World
  | .appCached name => (.ok (w.appCache name), w)
  | .cacheApp name app => (.ok (), w.setAppCache name app)
  | .identityCached => (.ok w.identityCache, w)
  | .cacheIdentity identity => (.ok (), { w with identityCache := some identity })
  | .getByName name => (.ok (w.installedApps.getByName name), w)
  | .getDefault => (.ok w.defaultIdentity, w)
  | .updateLastAccess name time => (.ok (), w.storeLastAccess name time)
  | .getAppMetadata name => (w.appMetadata name, w)
  | .verifyTerminalJwt => (w.terminal.elim (.error .invalidJwt) .ok, w)
  | .verifyPeerAuth => (w.peer.mapError PeerRejection.toExn, w)
  | .onTerminalAuth _ => (.ok (), { w with noOfRequests := w.noOfRequests + 1 })
  | .onPeerAuth _ => (.ok (), w)
  | .setHeader key value => (.ok (), { w with headers := (key, value) :: w.headers })
  | .now => (.ok w.clock, w)
  | .setLastAccess name time => (.ok (), w.setLastAccess name time)
  | .recordRequest => (.ok (), { w with noOfRequests := w.noOfRequests + 1 })
  | .diskSpaceLow => (.ok w.diskSpaceLow, w)
  | .sizeIsCompatible size => (.ok (decide (size.index ≤ w.vmSize.index)), w)
  | .noteAccess name time => (.ok (),
      { w with lastAccessDict := Function.update w.lastAccessDict name (some time) })
  | .createStartTask name => (.ok (), { w with backgroundTasks := name :: w.backgroundTasks })
  | .insertApp app =>
    match w.installedApps.insert app with
    | some t => (.ok (), { w with installedApps := t })
    | none => (.error (.other "unique violation"), w)
  | .removeApp name => (.ok (), { w with installedApps := w.installedApps.remove name })
  | .changeIdentity identity => (.ok (), { w with defaultIdentity := identity })
  | .onAppsUpdate => (.ok (), { w with appCache := fun _ => none })
  | .onIdentityUpdate => (.ok (), { w with identityCache := none })

end World
end Freeshard.Auth

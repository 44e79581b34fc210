import Freeshard.DataModel.AppMeta
import Freeshard.DataModel.Identity
import Freeshard.Util.Dict

/-! # The dynamic configuration of traefik

`compile_config` of `service/traefik_dynamic_config.py`, with what it uses of
`data_model/traefik_dyn_config.py`: routers, services and middlewares under their names. Fields that are never
set are left out. -/

namespace Freeshard.Traefik
set_option autoImplicit false

/-! ## Data -/

structure Domain where
  main : String
  sans : List String
  deriving DecidableEq, Repr

/-- `Tls1` of HTTP routers, `Tls3` of TCP routers. -/
structure Tls where
  certResolver : String
  domains : List Domain
  deriving DecidableEq, Repr

structure HttpRouter where
  rule : String
  priority : ℕ := 0
  entryPoints : List String
  service : String
  middlewares : Option (List String) := none
  tls : Option Tls
  deriving DecidableEq, Repr

structure TcpRouter where
  rule : String
  entryPoints : List String
  service : String
  tls : Option Tls
  deriving DecidableEq, Repr

inductive HttpMiddleware where
  | stripPrefix (prefixes : List String)
  | forwardAuth (address : String) (authResponseHeaders : Option (List String))
    (authResponseHeadersRegex : Option String)
  | headers (customRequestHeaders : List (String × String))
  | errors (status : List String) (service query : String)
  deriving DecidableEq, Repr

/-- A load balancer for servers with these URLs. -/
structure HttpService where
  servers : List String
  deriving DecidableEq, Repr

/-- A load balancer for servers at these addresses. -/
structure TcpService where
  servers : List String
  deriving DecidableEq, Repr

structure Http where
  routers : Dict String HttpRouter
  services : Dict String HttpService
  middlewares : Dict String HttpMiddleware

/-- The map of a field is `none` once the field is deleted. -/
structure Tcp where
  routers : Option (Dict String TcpRouter)
  services : Option (Dict String TcpService)

structure Model where
  http : Option Http := none
  tcp : Option Tcp := none

structure AppInfo where
  appMeta : AppMeta
  installedApp : InstalledApp

/-! ## The core -/

section Build
variable (disableSsl : Bool) (portal : SafeIdentity)

def httpEntrypoint : String := if disableSsl then "http" else "https"

/-- `make_http_cert_resolver` and `make_tcp_cert_resolver`. -/
def makeCertResolver : Option Tls :=
  if disableSsl then none else some ⟨"letsencrypt", [⟨portal.domain, ["*." ++ portal.domain]⟩]⟩

def coreRouters : List (String × HttpRouter) :=
  [("shard_core_public",
    { rule := "PathPrefix(`/core/public`)"
      entryPoints := [httpEntrypoint disableSsl]
      service := "shard_core"
      middlewares := some ["strip", "auth-public"]
      tls := makeCertResolver disableSsl portal }),
   ("shard_core_private",
    { rule := "PathPrefix(`/core/protected`)"
      entryPoints := [httpEntrypoint disableSsl]
      service := "shard_core"
      middlewares := some ["strip", "auth-private"]
      tls := makeCertResolver disableSsl portal }),
   ("shard_core_management",
    { rule := "PathPrefix(`/core/management`)"
      entryPoints := [httpEntrypoint disableSsl]
      service := "shard_core"
      middlewares := some ["strip", "auth-management"]
      tls := makeCertResolver disableSsl portal }),
   ("web-terminal",
    { rule := "PathPrefix(`/`)"
      priority := 1
      entryPoints := [httpEntrypoint disableSsl]
      service := "web-terminal"
      tls := makeCertResolver disableSsl portal }),
   ("traefik",
    { rule := "HostRegexp(`traefik." ++ portal.domain ++ "`)"
      entryPoints := [httpEntrypoint disableSsl]
      service := "api@internal"
      middlewares := some ["auth-private"]
      tls := makeCertResolver disableSsl portal })]

def coreMiddlewares : List (String × HttpMiddleware) :=
  [("strip", .stripPrefix ["/core/"]),
   ("auth-private", .forwardAuth "http://shard_core/internal/authenticate_terminal"
      (some ["X-Ptl-Client-Type", "X-Ptl-Client-Id", "X-Ptl-Client-Name"]) none),
   ("auth-management", .forwardAuth "http://shard_core/internal/authenticate_management" none none),
   ("auth-public", .headers
      [("X-Ptl-Client-Type", "public"), ("X-Ptl-Client-Id", ""), ("X-Ptl-Client-Name", "")]),
   ("auth", .forwardAuth "http://shard_core/internal/auth" none (some "^X-Ptl-.*")),
   ("app-error", .errors ["500-599", "400-499"] "shard_core" "/internal/app_error/\x7bstatus\x7d")]

def coreServices : List (String × HttpService) :=
  [("shard_core", ⟨["http://shard_core:80/"]⟩),
   ("web-terminal", ⟨["http://web-terminal:80/"]⟩)]

/-- `_add_http_section`. -/
def addHttpSection (model : Model) : Model :=
  { model with
    http := some
      { routers := Dict.setAll ∅ (coreRouters disableSsl portal)
        services := Dict.setAll ∅ coreServices
        middlewares := Dict.setAll ∅ coreMiddlewares } }

/-- `_add_tcp_section`. -/
def addTcpSection (model : Model) : Model :=
  { model with tcp := some ⟨some ∅, some ∅⟩ }

/-! ## Apps -/

/-- The name under which an app's router and service for a port are stored. -/
def routerKey (app : InstalledApp) (port : EntrypointPort) : String := app.name ++ "_" ++ port.value

def httpRouter (app : InstalledApp) : HttpRouter where
  rule := "Host(`" ++ app.name ++ "." ++ portal.domain ++ "`)"
  entryPoints := [httpEntrypoint disableSsl]
  service := routerKey app .HTTPS_443
  middlewares := some ["app-error", "auth"]
  tls := makeCertResolver disableSsl portal

def tcpRouter (app : InstalledApp) : TcpRouter where
  rule := "HostSNI(`" ++ app.name ++ "." ++ portal.domain ++ "`)"
  entryPoints := ["mqtt"]
  service := routerKey app .MQTTS_1883
  tls := makeCertResolver disableSsl portal

def httpService (entrypoint : Entrypoint) : HttpService where
  servers := ["http://" ++ entrypoint.containerName ++ ":" ++ toString entrypoint.containerPort]

def tcpService (entrypoint : Entrypoint) : TcpService where
  servers := [entrypoint.containerName ++ ":" ++ toString entrypoint.containerPort]

/-- `_add_router`. -/
def addRouter (model : Model) (entrypoint : Entrypoint) (app : InstalledApp) : Model :=
  let key := routerKey app entrypoint.entrypointPort
  match entrypoint.entrypointPort with
  | .HTTPS_443 =>
    { model with http := model.http.map fun http =>
        { http with routers := http.routers.insert key (httpRouter disableSsl portal app) } }
  | .MQTTS_1883 =>
    { model with tcp := model.tcp.map fun tcp =>
        { tcp with routers := tcp.routers.map (·.insert key (tcpRouter disableSsl portal app)) } }

/-- `_add_service`. -/
def addService (model : Model) (entrypoint : Entrypoint) (app : InstalledApp) : Model :=
  let key := routerKey app entrypoint.entrypointPort
  match entrypoint.entrypointPort with
  | .HTTPS_443 =>
    { model with http := model.http.map fun http =>
        { http with services := http.services.insert key (httpService entrypoint) } }
  | .MQTTS_1883 =>
    { model with tcp := model.tcp.map fun tcp =>
        { tcp with services := tcp.services.map (·.insert key (tcpService entrypoint)) } }

/-- The body of the loop for one app. -/
def addApp (model : Model) (appInfo : AppInfo) : Model :=
  appInfo.appMeta.entrypoints.foldl (fun model entrypoint =>
    addService (addRouter disableSsl portal model entrypoint appInfo.installedApp) entrypoint
      appInfo.installedApp) model

/-- An empty map is deleted, as traefik cannot handle empty YAML objects; so is a section without maps. -/
def deleteEmpty (model : Model) : Model :=
  let tcp := model.tcp.map fun tcp =>
    { routers := tcp.routers.filter (!·.keys.isEmpty)
      services := tcp.services.filter (!·.keys.isEmpty) : Tcp }
  { model with tcp := tcp.filter fun tcp => tcp.routers.isSome || tcp.services.isSome }

/-- `compile_config`. -/
def compileConfig (apps : List AppInfo) : Model :=
  let model := addTcpSection (addHttpSection disableSsl portal {})
  deleteEmpty (apps.foldl (addApp disableSsl portal) model)

/-! ## What the loops leave -/

/-- The entrypoints in the order in which the loops reach them. -/
def entrypoints (apps : List AppInfo) : List (InstalledApp × Entrypoint) :=
  apps.flatMap fun info => info.appMeta.entrypoints.map fun ep => (info.installedApp, ep)

theorem mem_entrypoints {apps : List AppInfo} {app : InstalledApp} {ep : Entrypoint} :
    (app, ep) ∈ entrypoints apps ↔
      ∃ info ∈ apps, info.installedApp = app ∧ ep ∈ info.appMeta.entrypoints := by
  simp only [entrypoints, List.mem_flatMap, List.mem_map, Prod.mk.injEq]
  constructor
  · rintro ⟨info, hinfo, ep', hep, rfl, rfl⟩
    exact ⟨info, hinfo, rfl, hep⟩
  · rintro ⟨info, hinfo, rfl, hep⟩
    exact ⟨info, hinfo, ep, hep, rfl, rfl⟩

/-- What is stored for the entrypoints of one port. -/
def assigned {α : Type} (port : EntrypointPort) (value : InstalledApp → Entrypoint → α)
    (eps : List (InstalledApp × Entrypoint)) : List (String × α) :=
  (eps.filter (·.2.entrypointPort = port)).map fun e => (routerKey e.1 port, value e.1 e.2)

section Assigned
variable {α : Type} {port : EntrypointPort} {value : InstalledApp → Entrypoint → α}

theorem mem_assigned {eps : List (InstalledApp × Entrypoint)} {key : String} {v : α} :
    (key, v) ∈ assigned port value eps ↔ ∃ app ep, (app, ep) ∈ eps ∧ ep.entrypointPort = port ∧
      key = routerKey app port ∧ v = value app ep := by
  simp only [assigned, List.mem_map, List.mem_filter, decide_eq_true_eq, Prod.mk.injEq, Prod.exists]
  constructor
  · rintro ⟨app, ep, ⟨hmem, hport⟩, hkey, hv⟩
    exact ⟨app, ep, hmem, hport, hkey.symm, hv.symm⟩
  · rintro ⟨app, ep, hmem, hport, hkey, hv⟩
    exact ⟨app, ep, ⟨hmem, hport⟩, hkey.symm, hv.symm⟩

theorem assigned_append (eps eps' : List (InstalledApp × Entrypoint)) :
    assigned port value (eps ++ eps') = assigned port value eps ++ assigned port value eps' := by
  rw [assigned, List.filter_append, List.map_append]
  rfl

theorem assigned_single_eq {app : InstalledApp} {ep : Entrypoint} (h : ep.entrypointPort = port) :
    assigned port value [(app, ep)] = [(routerKey app port, value app ep)] := by
  simp [assigned, h]

theorem assigned_single_ne {app : InstalledApp} {ep : Entrypoint} (h : ep.entrypointPort ≠ port) :
    assigned port value [(app, ep)] = [] := by
  simp [assigned, h]

end Assigned

/-- The sections once the loops have been at these entrypoints. -/
def builtHttp (eps : List (InstalledApp × Entrypoint)) : Http where
  routers := Dict.setAll (Dict.setAll ∅ (coreRouters disableSsl portal))
    (assigned .HTTPS_443 (fun app _ => httpRouter disableSsl portal app) eps)
  services := Dict.setAll (Dict.setAll ∅ coreServices)
    (assigned .HTTPS_443 (fun _ ep => httpService ep) eps)
  middlewares := Dict.setAll ∅ coreMiddlewares

def builtTcpRouters (eps : List (InstalledApp × Entrypoint)) : Dict String TcpRouter :=
  Dict.setAll ∅ (assigned .MQTTS_1883 (fun app _ => tcpRouter disableSsl portal app) eps)

def builtTcpServices (eps : List (InstalledApp × Entrypoint)) : Dict String TcpService :=
  Dict.setAll ∅ (assigned .MQTTS_1883 (fun _ ep => tcpService ep) eps)

def built (eps : List (InstalledApp × Entrypoint)) : Model where
  http := some (builtHttp disableSsl portal eps)
  tcp := some ⟨some (builtTcpRouters disableSsl portal eps), some (builtTcpServices eps)⟩

theorem built_step (eps : List (InstalledApp × Entrypoint)) (app : InstalledApp) (ep : Entrypoint) :
    addService (addRouter disableSsl portal (built disableSsl portal eps) ep app) ep app =
      built disableSsl portal (eps ++ [(app, ep)]) := by
  simp only [built, builtHttp, builtTcpRouters, builtTcpServices, assigned_append, Dict.setAll_append]
  cases hport : ep.entrypointPort with
  | HTTPS_443 =>
    have hother : ep.entrypointPort ≠ .MQTTS_1883 := by simp [hport]
    simp only [assigned_single_eq hport, assigned_single_ne hother, addRouter, addService, hport]
    rfl
  | MQTTS_1883 =>
    have hother : ep.entrypointPort ≠ .HTTPS_443 := by simp [hport]
    simp only [assigned_single_eq hport, assigned_single_ne hother, addRouter, addService, hport]
    rfl

theorem built_addApp (eps : List (InstalledApp × Entrypoint)) (info : AppInfo) :
    addApp disableSsl portal (built disableSsl portal eps) info =
      built disableSsl portal (eps ++ entrypoints [info]) := by
  have hloop : ∀ (list : List Entrypoint) (eps : List (InstalledApp × Entrypoint)),
      list.foldl (fun model ep => addService (addRouter disableSsl portal model ep info.installedApp)
        ep info.installedApp) (built disableSsl portal eps) =
        built disableSsl portal (eps ++ list.map fun ep => (info.installedApp, ep)) := by
    intro list
    induction list with
    | nil =>
      intro eps
      rw [List.map_nil, List.append_nil]
      rfl
    | cons ep list ih =>
      intro eps
      rw [List.foldl_cons, built_step, ih, List.map_cons, List.append_assoc]
      rfl
  rw [addApp, hloop, entrypoints, List.flatMap_singleton]

theorem built_foldl (apps : List AppInfo) (eps : List (InstalledApp × Entrypoint)) :
    apps.foldl (addApp disableSsl portal) (built disableSsl portal eps) =
      built disableSsl portal (eps ++ entrypoints apps) := by
  induction apps generalizing eps with
  | nil =>
    rw [entrypoints, List.flatMap_nil, List.append_nil]
    rfl
  | cons info apps ih =>
    have hsplit : entrypoints (info :: apps) = entrypoints [info] ++ entrypoints apps := by
      rw [entrypoints, List.flatMap_cons, entrypoints, List.flatMap_singleton]
      rfl
    rw [List.foldl_cons, built_addApp, ih, hsplit, List.append_assoc]

theorem compileConfig_eq (apps : List AppInfo) :
    compileConfig disableSsl portal apps =
      deleteEmpty (built disableSsl portal (entrypoints apps)) := by
  have hstart : addTcpSection (addHttpSection disableSsl portal {}) = built disableSsl portal [] := rfl
  rw [compileConfig, hstart, built_foldl, List.nil_append]

theorem compileConfig_http (apps : List AppInfo) :
    (compileConfig disableSsl portal apps).http =
      some (builtHttp disableSsl portal (entrypoints apps)) := by
  rw [compileConfig_eq]
  rfl

end Build
end Freeshard.Traefik

import Freeshard.Service.TraefikDynamicConfig

/-! # Routers and their services

What the compiled configuration guarantees for any apps: the core cannot be overridden, nothing is referred to
that is not defined, no app is reachable without authentication, and the routers of an app lead to its own
containers. -/

namespace Freeshard.Traefik
set_option autoImplicit false

/-! ## Keys -/

theorem routerKey_toList (app : InstalledApp) (port : EntrypointPort) :
    (routerKey app port).toList = app.name.toList ++ '_' :: port.value.toList := by
  rw [routerKey, String.toList_append, String.toList_append, List.append_assoc]
  rfl

theorem routerKey_inj {app app' : InstalledApp} {port port' : EntrypointPort}
    (h : routerKey app port = routerKey app' port') : app.name = app'.name ∧ port = port' := by
  have hlist := congrArg String.toList h
  rw [routerKey_toList, routerKey_toList] at hlist
  have hlen : ∀ p : EntrypointPort, ('_' :: p.value.toList).length = 5 := by
    intro p
    cases p <;> rfl
  obtain ⟨hname, hsuffix⟩ := List.append_inj' hlist (by rw [hlen, hlen])
  refine ⟨String.ext hname, ?_⟩
  cases port <;> cases port' <;> first | rfl | exact absurd hsuffix (by decide)

/-- The names the core uses for routers and services. -/
def coreNames : List String :=
  ["shard_core_public", "shard_core_private", "shard_core_management", "web-terminal", "traefik",
    "shard_core"]

/-- No app can take a name of the core: their keys end in `_http` or `_mqtt`. -/
theorem routerKey_not_core (app : InstalledApp) (port : EntrypointPort) :
    routerKey app port ∉ coreNames := by
  have hends : ∀ key ∈ coreNames,
      ¬ (['_', 'h', 't', 't', 'p'] <:+ key.toList ∨ ['_', 'm', 'q', 't', 't'] <:+ key.toList) := by
    decide
  intro hkey
  refine hends _ hkey ?_
  rw [routerKey_toList]
  cases port with
  | HTTPS_443 => exact .inl (List.suffix_append _ _)
  | MQTTS_1883 => exact .inr (List.suffix_append _ _)

section Dicts
variable {α : Type} {core : List (String × α)} {eps : List (InstalledApp × Entrypoint)}
  {port : EntrypointPort} {value : InstalledApp → Entrypoint → α} {key : String} {v : α}

theorem mem_core (h : key ∈ Dict.setAll ∅ core) : key ∈ core.map (·.1) := by
  obtain ⟨v, hv⟩ := Dict.mem_iff_lookup.mp h
  obtain hmem | hmem := Dict.mem_of_lookup_setAll hv
  · exact List.mem_map_of_mem hmem
  · rw [AList.lookup_empty] at hmem
    cases hmem

theorem core_mem (h : key ∈ core.map (·.1)) : key ∈ Dict.setAll ∅ core := by
  obtain ⟨⟨_, v⟩, hmem, rfl⟩ := List.mem_map.mp h
  exact Dict.mem_setAll_of_mem hmem

theorem lookup_core (hcore : ∀ name ∈ core.map (·.1), name ∈ coreNames)
    (h : key ∈ Dict.setAll ∅ core) :
    (Dict.setAll (Dict.setAll ∅ core) (assigned port value eps)).lookup key =
      (Dict.setAll ∅ core).lookup key := by
  refine Dict.lookup_setAll_of_not_mem fun v hmem => ?_
  obtain ⟨app, ep, -, -, rfl, -⟩ := mem_assigned.mp hmem
  exact routerKey_not_core app port (hcore _ (mem_core h))

theorem lookup_cases
    (h : (Dict.setAll (Dict.setAll ∅ core) (assigned port value eps)).lookup key = some v) :
    (∃ app ep, (app, ep) ∈ eps ∧ ep.entrypointPort = port ∧ key = routerKey app port ∧
      v = value app ep) ∨ (key, v) ∈ core := by
  obtain hmem | hmem := Dict.mem_of_lookup_setAll h
  · exact .inl (mem_assigned.mp hmem)
  obtain hmem | hmem := Dict.mem_of_lookup_setAll hmem
  · exact .inr hmem
  · rw [AList.lookup_empty] at hmem
    cases hmem

/-- Every entrypoint has an entry under its key, of an entrypoint of an app with this name. -/
theorem lookup_assigned {d : Dict String α} {app : InstalledApp} {ep : Entrypoint}
    (hmem : (app, ep) ∈ eps) (hport : ep.entrypointPort = port) :
    ∃ app' ep', (app', ep') ∈ eps ∧ ep'.entrypointPort = port ∧ app'.name = app.name ∧
      (Dict.setAll d (assigned port value eps)).lookup (routerKey app port) =
        some (value app' ep') := by
  have hset : (routerKey app port, value app ep) ∈ assigned port value eps :=
    mem_assigned.mpr ⟨app, ep, hmem, hport, rfl, rfl⟩
  obtain ⟨v, hv, hlookup⟩ := Dict.lookup_setAll_of_mem (d := d) hset
  obtain ⟨app', ep', hmem', hport', hkey, rfl⟩ := mem_assigned.mp hv
  exact ⟨app', ep', hmem', hport', (routerKey_inj hkey).1.symm, hlookup⟩

theorem assigned_eq_nil :
    assigned port value eps = [] ↔ ∀ app ep, (app, ep) ∈ eps → ep.entrypointPort ≠ port := by
  simp only [assigned, List.map_eq_nil_iff, List.filter_eq_nil_iff, decide_eq_true_eq, Prod.forall]

end Dicts

/-! ## The core -/

section Config
variable {disableSsl : Bool} {portal : SafeIdentity} {apps : List AppInfo}

theorem coreRouters_names : ∀ name ∈ (coreRouters disableSsl portal).map (·.1), name ∈ coreNames := by
  simp [coreRouters, coreNames]

theorem coreServices_names : ∀ name ∈ coreServices.map (·.1), name ∈ coreNames := by
  simp [coreServices, coreNames]

theorem coreRouters_closed {key : String} {router : HttpRouter}
    (h : (key, router) ∈ coreRouters disableSsl portal) :
    (router.service ∈ coreServices.map (·.1) ∨ router.service = "api@internal") ∧
    ∀ name ∈ router.middlewares.getD [], name ∈ coreMiddlewares.map (·.1) := by
  simp only [coreRouters, List.mem_cons, Prod.mk.injEq, List.not_mem_nil, or_false] at h
  obtain ⟨-, rfl⟩ | ⟨-, rfl⟩ | ⟨-, rfl⟩ | ⟨-, rfl⟩ | ⟨-, rfl⟩ := h <;>
    simp [coreServices, coreMiddlewares]

/-! ## The section for TCP -/

theorem compileConfig_tcp : (compileConfig disableSsl portal apps).tcp =
    if ∃ info ∈ apps, ∃ ep ∈ info.appMeta.entrypoints, ep.entrypointPort = .MQTTS_1883 then
      some ⟨some (builtTcpRouters disableSsl portal (entrypoints apps)),
        some (builtTcpServices (entrypoints apps))⟩
    else none := by
  have hkeys : ∀ {α : Type} (value : InstalledApp → Entrypoint → α),
      (Dict.setAll ∅ (assigned .MQTTS_1883 value (entrypoints apps))).keys = [] ↔
        ¬ ∃ info ∈ apps, ∃ ep ∈ info.appMeta.entrypoints, ep.entrypointPort = .MQTTS_1883 := by
    intro α value
    rw [Dict.setAll_empty_keys, assigned_eq_nil]
    constructor
    · rintro hnone ⟨info, hinfo, ep, hep, hport⟩
      exact hnone info.installedApp ep (mem_entrypoints.mpr ⟨info, hinfo, rfl, hep⟩) hport
    · intro hnone app ep hmem hport
      obtain ⟨info, hinfo, -, hep⟩ := mem_entrypoints.mp hmem
      exact hnone ⟨info, hinfo, ep, hep, hport⟩
  rw [compileConfig_eq, deleteEmpty, built]
  split_ifs with hmqtt
  · have hrouters : (builtTcpRouters disableSsl portal (entrypoints apps)).keys ≠ [] :=
      fun hnil => (hkeys _).mp hnil hmqtt
    have hservices : (builtTcpServices (entrypoints apps)).keys ≠ [] :=
      fun hnil => (hkeys _).mp hnil hmqtt
    simp [hrouters, hservices]
  · have hrouters : (builtTcpRouters disableSsl portal (entrypoints apps)).keys = [] :=
      (hkeys _).mpr hmqtt
    have hservices : (builtTcpServices (entrypoints apps)).keys = [] := (hkeys _).mpr hmqtt
    simp [hrouters, hservices]

/-! ## Routers and services in step -/

section Built
variable {eps : List (InstalledApp × Entrypoint)} {key : String}

theorem httpRouter_cases {router : HttpRouter}
    (h : (builtHttp disableSsl portal eps).routers.lookup key = some router) :
    (∃ app ep, (app, ep) ∈ eps ∧ ep.entrypointPort = .HTTPS_443 ∧ key = routerKey app .HTTPS_443 ∧
      router = httpRouter disableSsl portal app) ∨ (key, router) ∈ coreRouters disableSsl portal :=
  lookup_cases h

/-- Under the key of an entrypoint stands a service for an entrypoint of an app with the same name. -/
theorem httpRouter_lookup {app : InstalledApp} {ep : Entrypoint} (hmem : (app, ep) ∈ eps)
    (hport : ep.entrypointPort = .HTTPS_443) :
    ∃ app' ep', (app', ep') ∈ eps ∧ ep'.entrypointPort = .HTTPS_443 ∧ app'.name = app.name ∧
      (builtHttp disableSsl portal eps).routers.lookup (routerKey app .HTTPS_443) =
        some (httpRouter disableSsl portal app') :=
  lookup_assigned hmem hport

theorem httpService_lookup {app : InstalledApp} {ep : Entrypoint} (hmem : (app, ep) ∈ eps)
    (hport : ep.entrypointPort = .HTTPS_443) :
    ∃ app' ep', (app', ep') ∈ eps ∧ ep'.entrypointPort = .HTTPS_443 ∧ app'.name = app.name ∧
      (builtHttp disableSsl portal eps).services.lookup (routerKey app .HTTPS_443) =
        some (httpService ep') :=
  lookup_assigned hmem hport

theorem tcpRouter_cases {router : TcpRouter}
    (h : (builtTcpRouters disableSsl portal eps).lookup key = some router) :
    ∃ app ep, (app, ep) ∈ eps ∧ ep.entrypointPort = .MQTTS_1883 ∧ key = routerKey app .MQTTS_1883 ∧
      router = tcpRouter disableSsl portal app := by
  obtain hmem | hmem := Dict.mem_of_lookup_setAll h
  · exact mem_assigned.mp hmem
  · rw [AList.lookup_empty] at hmem
    cases hmem

theorem tcpService_lookup {app : InstalledApp} {ep : Entrypoint} (hmem : (app, ep) ∈ eps)
    (hport : ep.entrypointPort = .MQTTS_1883) :
    ∃ app' ep', (app', ep') ∈ eps ∧ ep'.entrypointPort = .MQTTS_1883 ∧ app'.name = app.name ∧
      (builtTcpServices eps).lookup (routerKey app .MQTTS_1883) = some (tcpService ep') :=
  lookup_assigned hmem hport

theorem http_service_defined {router : HttpRouter}
    (h : (builtHttp disableSsl portal eps).routers.lookup key = some router) :
    router.service ∈ (builtHttp disableSsl portal eps).services ∨ router.service = "api@internal" := by
  obtain ⟨app, ep, hmem, hport, -, rfl⟩ | hcore := httpRouter_cases h
  · have hservice : ∃ app' ep', (app', ep') ∈ eps ∧ ep'.entrypointPort = .HTTPS_443 ∧ app'.name = app.name ∧
        (builtHttp disableSsl portal eps).services.lookup (routerKey app .HTTPS_443) =
          some (httpService ep') := httpService_lookup hmem hport
    obtain ⟨_, ep', -, -, -, hlookup⟩ := hservice
    exact .inl (Dict.mem_iff_lookup.mpr ⟨_, hlookup⟩)
  · obtain hservice | hinternal := (coreRouters_closed hcore).1
    · obtain ⟨service, hservice⟩ := Dict.mem_iff_lookup.mp (core_mem hservice)
      refine .inl (Dict.mem_iff_lookup.mpr ⟨service, ?_⟩)
      rw [← hservice]
      exact lookup_core coreServices_names (Dict.mem_iff_lookup.mpr ⟨service, hservice⟩)
    · exact .inr hinternal

theorem http_middleware_defined {router : HttpRouter}
    (h : (builtHttp disableSsl portal eps).routers.lookup key = some router) :
    ∀ name ∈ router.middlewares.getD [], name ∈ (builtHttp disableSsl portal eps).middlewares := by
  have hnames : ∀ name ∈ router.middlewares.getD [], name ∈ coreMiddlewares.map (·.1) := by
    obtain ⟨app, ep, -, -, -, rfl⟩ | hcore := httpRouter_cases h
    · simp [httpRouter, coreMiddlewares]
    · exact (coreRouters_closed hcore).2
  exact fun name hname => core_mem (hnames name hname)

end Built

theorem entrypoint_of_name (hnames : (apps.map (·.installedApp.name)).Nodup) {info : AppInfo}
    (hinfo : info ∈ apps) {app : InstalledApp} {ep : Entrypoint} (hmem : (app, ep) ∈ entrypoints apps)
    (hname : app.name = info.installedApp.name) : ep ∈ info.appMeta.entrypoints := by
  obtain ⟨info', hinfo', rfl, hep⟩ := mem_entrypoints.mp hmem
  have heq : info' = info := List.inj_on_of_nodup_map hnames hinfo' hinfo hname
  rwa [heq] at hep

/-! ## Main result -/

/-- What is promised of the sections `http` and `tcp` for the apps, where `core` is the section for no app. -/
structure Sound (apps : List AppInfo) (core http : Http) (tcp : Option Tcp) : Prop where
  core_routers : ∀ key ∈ core.routers, http.routers.lookup key = core.routers.lookup key
  core_services : ∀ key ∈ core.services, http.services.lookup key = core.services.lookup key
  core_middlewares : http.middlewares = core.middlewares
  http_service : ∀ key router, http.routers.lookup key = some router →
    router.service ∈ http.services ∨ router.service = "api@internal"
  http_middleware : ∀ key router, http.routers.lookup key = some router →
    ∀ name ∈ router.middlewares.getD [], name ∈ http.middlewares
  tcp_service : ∀ t ∈ tcp, ∀ routers ∈ t.routers, ∀ key router, routers.lookup key = some router →
    ∃ services ∈ t.services, router.service ∈ services
  -- every other router is one of an app
  http_router : ∀ key ∈ http.routers, key ∉ core.routers →
    ∃ info ∈ apps, key = routerKey info.installedApp .HTTPS_443
  tcp_router : ∀ t ∈ tcp, ∀ routers ∈ t.routers, ∀ key ∈ routers,
    ∃ info ∈ apps, key = routerKey info.installedApp .MQTTS_1883
  auth : ∀ key router, http.routers.lookup key = some router → key ∉ core.routers →
    "auth" ∈ router.middlewares.getD []
  http_own : ∀ info ∈ apps, ∀ router,
    http.routers.lookup (routerKey info.installedApp .HTTPS_443) = some router →
    ∃ ep ∈ info.appMeta.entrypoints, ep.entrypointPort = .HTTPS_443 ∧
      http.services.lookup router.service = some (httpService ep)
  tcp_own : ∀ info ∈ apps, ∀ t ∈ tcp, ∀ routers ∈ t.routers, ∀ router,
    routers.lookup (routerKey info.installedApp .MQTTS_1883) = some router →
    ∃ services ∈ t.services, ∃ ep ∈ info.appMeta.entrypoints, ep.entrypointPort = .MQTTS_1883 ∧
      services.lookup router.service = some (tcpService ep)
  tcp_present : tcp.isSome ↔
    ∃ info ∈ apps, ∃ ep ∈ info.appMeta.entrypoints, ep.entrypointPort = .MQTTS_1883
  tcp_nonempty : ∀ t ∈ tcp, (∃ routers ∈ t.routers, routers.keys ≠ []) ∧
    ∃ services ∈ t.services, services.keys ≠ []

/-- The compiled configuration of apps with distinct names is sound. -/
theorem compileConfig_sound (disableSsl : Bool) (portal : SafeIdentity) (apps : List AppInfo)
    (hnames : (apps.map (·.installedApp.name)).Nodup) :
    ∃ core http, (compileConfig disableSsl portal []).http = some core ∧
      (compileConfig disableSsl portal apps).http = some http ∧
      Sound apps core http (compileConfig disableSsl portal apps).tcp := by
  refine ⟨_, _, compileConfig_http disableSsl portal [], compileConfig_http disableSsl portal apps, ?_⟩
  have htcp : ∀ t ∈ (compileConfig disableSsl portal apps).tcp,
      t.routers = some (builtTcpRouters disableSsl portal (entrypoints apps)) ∧
      t.services = some (builtTcpServices (entrypoints apps)) := by
    intro t ht
    rw [compileConfig_tcp] at ht
    split_ifs at ht
    · obtain rfl := Option.some.inj ht
      exact ⟨rfl, rfl⟩
    · cases ht
  exact {
    core_routers := fun key hkey => lookup_core coreRouters_names hkey
    core_services := fun key hkey => lookup_core coreServices_names hkey
    core_middlewares := rfl
    http_service := fun key router h => http_service_defined h
    http_middleware := fun key router h => http_middleware_defined h
    tcp_service := by
      intro t ht routers hrouters key router h
      obtain ⟨hr, hs⟩ := htcp t ht
      rw [hr] at hrouters
      obtain rfl := Option.some.inj hrouters
      obtain ⟨app, ep, hmem, hport, -, rfl⟩ := tcpRouter_cases h
      obtain ⟨_, _, -, -, -, hlookup⟩ := tcpService_lookup hmem hport
      exact ⟨_, hs, Dict.mem_iff_lookup.mpr ⟨_, hlookup⟩⟩
    http_router := by
      intro key hkey hcore
      obtain ⟨router, h⟩ := Dict.mem_iff_lookup.mp hkey
      obtain ⟨app, ep, hmem, -, rfl, -⟩ | hmem := httpRouter_cases h
      · obtain ⟨info, hinfo, rfl, -⟩ := mem_entrypoints.mp hmem
        exact ⟨info, hinfo, rfl⟩
      · exact absurd (core_mem (List.mem_map_of_mem hmem)) hcore
    tcp_router := by
      intro t ht routers hrouters key hkey
      rw [(htcp t ht).1] at hrouters
      obtain rfl := Option.some.inj hrouters
      obtain ⟨router, h⟩ := Dict.mem_iff_lookup.mp hkey
      obtain ⟨app, ep, hmem, -, rfl, -⟩ := tcpRouter_cases h
      obtain ⟨info, hinfo, rfl, -⟩ := mem_entrypoints.mp hmem
      exact ⟨info, hinfo, rfl⟩
    auth := by
      intro key router h hcore
      obtain ⟨app, ep, -, -, -, rfl⟩ | hmem := httpRouter_cases h
      · simp [httpRouter]
      · exact absurd (core_mem (List.mem_map_of_mem hmem)) hcore
    http_own := by
      intro info hinfo router h
      obtain ⟨app, ep, hmem, hport, hkey, rfl⟩ | hmem := httpRouter_cases h
      · obtain ⟨app', ep', hmem', hport', hname, hlookup⟩ := httpService_lookup hmem hport
        refine ⟨ep', entrypoint_of_name hnames hinfo hmem' ?_, hport', hlookup⟩
        rw [hname, (routerKey_inj hkey).1]
      · exact absurd (coreRouters_names _ (List.mem_map_of_mem hmem)) (routerKey_not_core _ _)
    tcp_own := by
      intro info hinfo t ht routers hrouters router h
      obtain ⟨hr, hs⟩ := htcp t ht
      rw [hr] at hrouters
      obtain rfl := Option.some.inj hrouters
      obtain ⟨app, ep, hmem, hport, hkey, rfl⟩ := tcpRouter_cases h
      obtain ⟨app', ep', hmem', hport', hname, hlookup⟩ := tcpService_lookup hmem hport
      refine ⟨_, hs, ep', entrypoint_of_name hnames hinfo hmem' ?_, hport', hlookup⟩
      rw [hname, (routerKey_inj hkey).1]
    tcp_present := by
      rw [compileConfig_tcp]
      split_ifs with hmqtt
      · exact ⟨fun _ => hmqtt, fun _ => rfl⟩
      · exact ⟨fun hsome => (by cases hsome), fun h => absurd h hmqtt⟩
    tcp_nonempty := by
      intro t ht
      obtain ⟨hr, hs⟩ := htcp t ht
      rw [compileConfig_tcp] at ht
      split_ifs at ht with hmqtt
      · obtain ⟨info, hinfo, ep, hep, hport⟩ := hmqtt
        have hmem : (info.installedApp, ep) ∈ entrypoints apps :=
          mem_entrypoints.mpr ⟨info, hinfo, rfl, hep⟩
        have hset : ∀ {α : Type} (value : InstalledApp → Entrypoint → α),
            (Dict.setAll ∅ (assigned .MQTTS_1883 value (entrypoints apps))).keys ≠ [] := by
          intro α value hnil
          exact assigned_eq_nil.mp (Dict.setAll_empty_keys.mp hnil) _ _ hmem hport
        exact ⟨⟨_, hr, hset _⟩, _, hs, hset _⟩
      · cases ht }

/-- Two apps, one of which has two entrypoints for the same port and one for MQTT. -/
theorem compileConfig_sound_apps :
    let notes : AppInfo := ⟨{ name := "notes", entrypoints := [⟨"notes", 80, .HTTPS_443⟩] },
      { name := "notes" }⟩
    let broker : AppInfo := ⟨{ name := "broker", entrypoints := [⟨"web", 80, .HTTPS_443⟩,
      ⟨"mosquitto", 1883, .MQTTS_1883⟩, ⟨"web", 8080, .HTTPS_443⟩] }, { name := "broker" }⟩
    let portal : SafeIdentity := ⟨"abcdef.example.org", "abcdef", "key"⟩
    ([notes, broker].map (·.installedApp.name)).Nodup ∧
    ∃ core http, (compileConfig false portal []).http = some core ∧
      (compileConfig false portal [notes, broker]).http = some http ∧
      Sound [notes, broker] core http (compileConfig false portal [notes, broker]).tcp := by
  intro notes broker portal
  have hnames : ([notes, broker].map (·.installedApp.name)).Nodup := by decide
  exact ⟨hnames, compileConfig_sound false portal [notes, broker] hnames⟩

end Config
end Freeshard.Traefik

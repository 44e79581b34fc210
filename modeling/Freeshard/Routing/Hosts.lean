import Freeshard.Access.Authorization
import Freeshard.Routing.Config
import Freeshard.Service.AppZip
import Mathlib.Data.List.TakeWhile

/-! # Hosts of apps

Traefik compares the host of a request with the rule of an app regardless of case, the authentication takes
its first label as the app's name as it stands. The two agree exactly on the hosts that spell the name as it
was installed. -/

namespace Freeshard
open Coroutine Traefik
set_option autoImplicit false

/-! ## First labels -/

theorem toLower_eq_dot {c : Char} : c.toLower = '.' ↔ c = '.' := by
  unfold Char.toLower
  split
  · next h =>
    have hlow : 65 ≤ c.val.toNat := h.1
    have hhigh : c.val.toNat ≤ 90 := h.2
    constructor
    · intro heq
      have hval := congrArg (fun c : Char => c.val.toNat) heq
      have hsum : (c.val + 32).toNat = 46 := hval
      rw [UInt32.toNat_add] at hsum
      have h32 : (32 : UInt32).toNat = 32 := rfl
      omega
    · rintro rfl
      exact absurd hlow (by decide)
  · rfl

theorem dot_mem_lower {text : String} : '.' ∈ (lower text).toList ↔ '.' ∈ text.toList := by
  rw [lower, String.toList_ofList, List.mem_map]
  constructor
  · rintro ⟨c, hc, hdot⟩
    rwa [toLower_eq_dot.mp hdot] at hc
  · intro h
    exact ⟨'.', h, rfl⟩

theorem dot_not_mem_name {name : String} (h : appNamePattern name = true) : '.' ∉ name.toList :=
  fun hdot => absurd (appNamePattern_chars h _ hdot) (by decide)

theorem firstPart_eq_iff {name host : String} (hname : '.' ∉ name.toList) (hhost : '.' ∈ host.toList) :
    firstPart '.' host = name ↔ startsWith host (name ++ ".") = true := by
  have hdot : (name ++ ".").toList = name.toList ++ ['.'] := String.toList_append
  unfold startsWith
  rw [List.isPrefixOf_iff_prefix, hdot]
  constructor
  · rintro rfl
    rw [firstPart, String.toList_ofList]
    have hsplit := List.takeWhile_append_dropWhile (p := (· != '.')) (l := host.toList)
    cases hrest : host.toList.dropWhile (· != '.') with
    | nil =>
      rw [hrest, List.append_nil] at hsplit
      rw [← hsplit] at hhost
      exact absurd (List.mem_takeWhile_imp hhost) (by decide)
    | cons c rest =>
      have hc : c = '.' := by
        have hhead := List.head_dropWhile_not (p := (· != '.')) (l := host.toList)
          (by rw [hrest]; exact List.cons_ne_nil _ _)
        simpa [hrest] using hhead
      subst hc
      refine ⟨rest, ?_⟩
      rw [List.append_assoc, List.singleton_append, ← hrest]
      exact hsplit
  · rintro ⟨rest, hrest⟩
    refine String.ext ?_
    rw [firstPart, String.toList_ofList, ← hrest, List.append_assoc,
      List.takeWhile_append_of_pos fun c hc => ?_]
    · simp
    · simp only [bne_iff_ne, ne_eq]
      rintro rfl
      exact hname hc

/-! ## Rules -/

/-- What the rule of a router says about a request: for the host in the rule, in any spelling. -/
def HostMatches (rule host : String) : Prop :=
  ∃ domain, rule = "Host(`" ++ domain ++ "`)" ∧ lower domain = lower host

theorem hostMatches_httpRouter {disableSsl : Bool} {portal : SafeIdentity} {app : InstalledApp}
    {host : String} (h : HostMatches (httpRouter disableSsl portal app).rule host) :
    lower (app.name ++ "." ++ portal.domain) = lower host := by
  obtain ⟨domain, hrule, hlower⟩ := h
  have hlist := congrArg String.toList hrule
  have hends : (app.name ++ "." ++ portal.domain).toList ++ ['`', ')'] =
      domain.toList ++ ['`', ')'] := by
    simpa [httpRouter] using hlist
  have hdomain : (app.name ++ "." ++ portal.domain).toList = domain.toList :=
    List.append_cancel_right hends
  rw [String.ext hdomain]
  exact hlower

namespace Auth

/-! ## Main result -/

/-- What `_find_app` answers has a name exactly if it is an app of this name. -/
theorem finds_name_iff {w : World} (hw : w.CachedByName) {name asked : String}
    (hinstalled : w.installedApps.contains name = true) :
    (∃ app, w.finds asked = some app ∧ app.name = name) ↔
      asked = name ∧ w.appCache name ≠ some none := by
  unfold World.finds
  constructor
  · rintro ⟨app, happ, rfl⟩
    cases hcached : w.appCache asked with
    | none =>
      rw [hcached, Option.getD_none] at happ
      have hname := InstalledApps.getByName_name happ
      rw [hname, hcached]
      exact ⟨rfl, fun h => by cases h⟩
    | some entry =>
      rw [hcached, Option.getD_some] at happ
      subst happ
      have hname := hw asked app hcached
      rw [hname, hcached]
      exact ⟨rfl, fun h => by cases h⟩
  · rintro ⟨rfl, hcurrent⟩
    cases hcached : w.appCache asked with
    | none =>
      rw [InstalledApps.contains_eq, InstalledApps.status, Option.isSome_map] at hinstalled
      obtain ⟨app, happ⟩ := Option.isSome_iff_exists.mp hinstalled
      exact ⟨app, happ, InstalledApps.getByName_name happ⟩
    | some entry =>
      cases entry with
      | none => exact absurd hcached hcurrent
      | some app => exact ⟨app, rfl, hw asked app hcached⟩

/-- A host that the rule of an app matches is resolved to this app exactly if it spells the app's name as it is
installed, and the cache does not still hold that there is no such app. -/
theorem host_resolved_iff {disableSsl : Bool} {portal : SafeIdentity} {apps : List AppInfo}
    {http : Http} {info : AppInfo} {router : HttpRouter} {w : World} {host : String}
    (hnames : ∀ info ∈ apps, appNamePattern info.installedApp.name = true)
    (hinstalled : ∀ info ∈ apps, w.installedApps.contains info.installedApp.name = true)
    (hw : w.CachedByName) (hhttp : (compileConfig disableSsl portal apps).http = some http)
    (hinfo : info ∈ apps)
    (hrouter : http.routers.lookup (routerKey info.installedApp .HTTPS_443) = some router)
    (hmatch : HostMatches router.rule host) :
    (∃ app, ((matchApp host).eval World.effect w).1 = .ok app ∧ app.name = info.installedApp.name) ↔
      startsWith host (info.installedApp.name ++ ".") = true ∧
        w.appCache info.installedApp.name ≠ some none := by
  rw [compileConfig_http] at hhttp
  obtain rfl := Option.some.inj hhttp
  have hlower : lower (info.installedApp.name ++ "." ++ portal.domain) = lower host := by
    obtain ⟨app, ep, -, -, hkey, rfl⟩ | hcore := httpRouter_cases hrouter
    · rw [(routerKey_inj hkey).1]
      exact hostMatches_httpRouter hmatch
    · exact absurd (coreRouters_names _ (List.mem_map_of_mem hcore)) (routerKey_not_core _ _)
  have hdot : '.' ∈ host.toList := by
    rw [← dot_mem_lower, ← hlower, dot_mem_lower]
    simp
  have hname := dot_not_mem_name (hnames info hinfo)
  rw [← firstPart_eq_iff hname hdot, ← finds_name_iff hw (hinstalled info hinfo), matchApp_eval]
  cases w.finds (firstPart '.' host) <;> simp

/-! ## One app -/

/-- The app of `World.notes`, served at port 80. -/
def notesInfo : AppInfo :=
  ⟨{ AppMeta.named "notes" with entrypoints := [⟨"notes", 80, .HTTPS_443⟩] }, { name := "notes" }⟩

def notesPortal : SafeIdentity := ⟨"abcdef.example.org", "abcdef", "key"⟩

theorem notes_router : ∃ http, (compileConfig false notesPortal [notesInfo]).http = some http ∧
    http.routers.lookup (routerKey notesInfo.installedApp .HTTPS_443) =
      some (httpRouter false notesPortal notesInfo.installedApp) := by
  refine ⟨_, compileConfig_http .., ?_⟩
  have hmem : (notesInfo.installedApp, ⟨"notes", 80, .HTTPS_443⟩) ∈ entrypoints [notesInfo] :=
    List.mem_singleton.mpr rfl
  obtain ⟨app, ep, hmem', -, -, hlookup⟩ := httpRouter_lookup hmem rfl
  obtain ⟨rfl, -⟩ := Prod.mk.inj (List.mem_singleton.mp hmem')
  exact hlookup

/-- The host as the rule spells it. -/
theorem host_resolved_iff_notes : ∃ http router,
    (compileConfig false notesPortal [notesInfo]).http = some http ∧
    http.routers.lookup (routerKey notesInfo.installedApp .HTTPS_443) = some router ∧
    HostMatches router.rule "notes.ABCDEF.example.org" ∧
    ((∃ app, ((matchApp "notes.ABCDEF.example.org").eval World.effect World.notes).1 = .ok app ∧
      app.name = notesInfo.installedApp.name) ↔
        startsWith "notes.ABCDEF.example.org" (notesInfo.installedApp.name ++ ".") = true ∧
          World.notes.appCache notesInfo.installedApp.name ≠ some none) := by
  obtain ⟨http, hhttp, hrouter⟩ := notes_router
  have hmatch : HostMatches (httpRouter false notesPortal notesInfo.installedApp).rule
      "notes.ABCDEF.example.org" := ⟨"notes.abcdef.example.org", by decide, by decide⟩
  exact ⟨http, _, hhttp, hrouter, hmatch, host_resolved_iff (by decide) (by decide)
    (fun _ _ h => by cases h) hhttp List.mem_cons_self hrouter hmatch⟩

/-- Spelled with a capital, the host is matched by the rule but unknown to the authentication. -/
theorem host_unresolved : ¬ ∀ (disableSsl : Bool) (portal : SafeIdentity) (apps : List AppInfo)
    (http : Http) (info : AppInfo) (router : HttpRouter) (w : World) (host : String),
    (∀ info ∈ apps, appNamePattern info.installedApp.name = true) →
    (∀ info ∈ apps, w.installedApps.contains info.installedApp.name = true) →
    w.CacheAgrees → (compileConfig disableSsl portal apps).http = some http → info ∈ apps →
    http.routers.lookup (routerKey info.installedApp .HTTPS_443) = some router →
    HostMatches router.rule host →
    ∃ app, ((matchApp host).eval World.effect w).1 = .ok app ∧
      app.name = info.installedApp.name := by
  intro h
  obtain ⟨http, hhttp, hrouter⟩ := notes_router
  obtain ⟨app, happ, -⟩ := h false notesPortal [notesInfo] http notesInfo _ World.notes
    "Notes.abcdef.example.org" (by decide) (by decide) (fun _ _ hentry => by cases hentry) hhttp
    List.mem_cons_self hrouter ⟨"notes.abcdef.example.org", by decide, by decide⟩
  rw [matchApp_eval] at happ
  cases happ

end Auth
end Freeshard

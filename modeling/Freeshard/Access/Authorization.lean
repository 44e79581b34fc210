import Freeshard.Access.Caches

/-! # Requests to installed apps

A request is granted for the app that `_find_app` finds. This is an installed app as long as the cached entry of the name,
if there is one, agrees with the table; an entry that a change has overtaken denies an installed app, or lets the metadata
of one decide that is gone. -/

namespace Freeshard.Auth
open Coroutine Coroutine.Recorded
set_option autoImplicit false

/-! ## Cached apps stand under their names -/

/-- A call files what it has read last, under the name it has read it by. -/
def filingProtocol : Protocol Op Ans Exn (Option (String × Option InstalledApp)) where
  allows l op :=
    match op with
    | .cacheApp name app => l = some (name, app)
    | _ => True
  after l op r :=
    match op, r with
    | .getByName name, .ok row => some (name, row)
    | _, _ => l

abbrev lastRead (i : Call) (s : State) : Option (String × Option InstalledApp) :=
  Recorded.phaseOf (fun _ => filingProtocol) (fun _ => none) i s.log

theorem conforms_findApp (name : String) (l : Option (String × Option InstalledApp)) :
    (findApp name).Conforms filingProtocol l fun _ _ => True := by
  refine Prog.Conforms.bind (R := fun _ _ => True) (Prog.Conforms.perform trivial fun _ => trivial)
    (fun cached l' _ => ?_) fun _ _ _ => trivial
  cases cached with
  | some app => trivial
  | none =>
    have hread : (getByName name).Conforms filingProtocol l' fun r l =>
        ∀ row, r = .ok row → l = some (name, row) := by
      refine Prog.Conforms.perform trivial fun r row hr => ?_
      rw [hr]
      rfl
    refine Prog.Conforms.bind hread (fun row l'' hl => ?_) fun _ _ _ => trivial
    exact Prog.Conforms.bind (R := fun _ _ => True)
      (Prog.Conforms.perform (hl row rfl) fun _ => trivial) (fun _ _ _ => trivial) fun _ _ _ => trivial

theorem filingProtocol_of_quiet {α : Type} {p : Coro α} (hp : p.Uses (·.filesApp = false))
    (l : Option (String × Option InstalledApp)) :
    p.Conforms filingProtocol l fun _ _ => True := by
  refine Prog.Conforms.of_uses hp (I := fun _ => True) (fun op hop l' _ => ⟨?_, fun _ => trivial⟩) trivial
  cases op with
  | cacheApp name app => cases hop
  | _ => trivial

theorem files_program (settings : Settings) (i : Call) :
    (i.program settings).Conforms filingProtocol none fun _ _ => True := by
  cases i with
  | request id host uri =>
    have hmatch : (matchApp host).Conforms filingProtocol none fun _ _ => True := by
      refine Prog.Conforms.bind (conforms_findApp _ none) (fun app l _ => ?_) fun _ _ _ => trivial
      cases app <;> trivial
    refine Prog.Conforms.bind hmatch (fun app l _ => ?_) fun _ _ _ => trivial
    have hlooks : ∀ {α : Type} {p : Coro α}, p.Uses Op.Looks → p.Uses (·.filesApp = false) :=
      fun hp => hp.mono fun _ hop => hop.2
    refine filingProtocol_of_quiet ?_ l
    refine Prog.Uses.bind (hlooks (looks_matchPath uri app)) fun pathObject => ?_
    refine Prog.Uses.bind (hlooks looks_getAuthState) fun authState => ?_
    refine Prog.Uses.bind (hlooks (looks_getIdentity settings)) fun headerValues => ?_
    refine Prog.Uses.bind (uses_checkAccess pathObject authState) fun path => ?_
    refine Prog.Uses.bind (hlooks (looks_setHeaders _ _)) fun _ => ?_
    exact (uses_onRequestToApp settings app).mono fun _ hop => hop.2
  | install id app =>
    exact filingProtocol_of_quiet (Prog.Uses.bind ((Prog.uses_perform _).mpr rfl) fun _ =>
      (Prog.uses_perform _).mpr rfl) none
  | uninstall id name =>
    exact filingProtocol_of_quiet (Prog.Uses.bind ((Prog.uses_perform _).mpr rfl) fun _ =>
      (Prog.uses_perform _).mpr rfl) none
  | setIdentity id identity =>
    exact filingProtocol_of_quiet (Prog.Uses.bind ((Prog.uses_perform _).mpr rfl) fun _ =>
      (Prog.uses_perform _).mpr rfl) none

/-- What is cached, and what is about to be, stands under its own name. -/
structure FiledByName (s : State) : Prop where
  cached : s.world.CachedByName
  read : ∀ i name app, lastRead i s = some (name, some app) → app.name = name

section Step
variable {s : State} {i : Call} {op : Op} {r : Answer op} {w' : World}

theorem Act.cachedByName (ha : Act s.world op r w') (h : FiledByName s)
    (hallowed : filingProtocol.allows (lastRead i s) op) : w'.CachedByName := by
  intro name app happ
  cases ha with
  | fails e hfails => exact h.cached name app happ
  | answers r hop => exact h.cached name app happ
  | proceeds =>
    cases op with
    | cacheApp other entry =>
      change Function.update s.world.appCache other (some entry) name = some (some app) at happ
      by_cases hname : name = other
      · subst hname
        rw [Function.update_self] at happ
        obtain rfl := Option.some.inj happ
        exact h.read i name app hallowed
      · rw [Function.update_of_ne hname] at happ
        exact h.cached name app happ
    | setLastAccess other time =>
      change Function.update s.world.appCache other _ name = some (some app) at happ
      by_cases hname : name = other
      · subst hname
        rw [Function.update_self] at happ
        obtain ⟨entry, hentry, hset⟩ := Option.map_eq_some_iff.mp happ
        obtain ⟨before, rfl, rfl⟩ := Option.map_eq_some_iff.mp hset
        exact h.cached name before hentry
      · rw [Function.update_of_ne hname] at happ
        exact h.cached name app happ
    | insertApp inserted =>
      refine h.cached name app ?_
      rw [World.effect] at happ
      split at happ <;> exact happ
    | onAppsUpdate => cases happ
    | _ => exact h.cached name app happ

theorem Act.readByName (ha : Act s.world op r w') (h : FiledByName s) {name : String}
    {app : InstalledApp} (hread : filingProtocol.after (lastRead i s) op r = some (name, some app)) :
    app.name = name := by
  cases op with
  | getByName asked =>
    cases ha with
    | proceeds =>
      obtain ⟨rfl, hrow⟩ := Prod.mk.inj (Option.some.inj hread)
      exact InstalledApps.getByName_name hrow
    | fails e _ => exact h.read i name app hread
    | answers _ hop => exact hop.elim
  | _ => exact h.read i name app hread

theorem FiledByName.step (h : FiledByName s) (hallowed : filingProtocol.allows (lastRead i s) op)
    (ha : Act s.world op r w') : FiledByName (s.next i op r w') where
  cached := ha.cachedByName h hallowed
  read j name app hread := by
    by_cases hj : j = i
    · subst hj
      rw [lastRead, Recorded.phaseOf_next_self] at hread
      exact ha.readByName h hread
    · rw [lastRead, Recorded.phaseOf_next_ne _ _ _ _ hj] at hread
      exact h.read j name app hread

end Step

/-- Whatever requests and changes interleave, cached apps stand under their own names. -/
theorem cachedByName_run (settings : Settings) {w : World} (hw : w.CachedByName)
    {c : Config Op Ans Exn State Call}
    (h : Recorded.Runs (fun _ => Act) Recorded.anyway (Call.program settings) w c) :
    c.state.world.CachedByName := by
  have h₀ : FiledByName (⟨w, []⟩ : State) := ⟨hw, fun i name app hread => by cases hread⟩
  have hfiled : FiledByName c.state :=
    h.invariant (files_program settings) h₀ fun i s op r w' hallowed hs _ ha => hs.step hallowed ha
  exact hfiled.cached

/-! ## The decision -/

section Decision
variable {w : World} {name host uri : String}

end Decision

section Scripts

end Scripts

end Freeshard.Auth

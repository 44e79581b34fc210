import Freeshard.Service.AppLifecycle

/-! # Memory pressure and apps without metadata

Every tick reads the metadata of every app, first in the time-based step, whose exceptions `gather` passes on. One app
whose metadata cannot be read therefore ends the tick before the demotion, whatever the other apps are. -/

namespace Freeshard.Lifecycle
open Coroutine Coroutine.Prog
set_option autoImplicit false

variable {settings : Settings} {w : World} {issued : List Operation}

/-! ## Gathering -/

@[simp] theorem eval_attempt {α : Type} (p : Coro α) :
    (attempt p).eval w.effect issued = (.ok (p.eval w.effect issued).1, (p.eval w.effect issued).2) := by
  rw [attempt, eval_tryCatch, eval_map]
  obtain ⟨r, issued'⟩ := p.eval w.effect issued
  cases r <;> rfl

theorem eval_gather_cons (p : Coro Unit) (ps : List (Coro Unit)) :
    (gather (p :: ps)).eval w.effect issued =
      ((p.eval w.effect issued).1.bind fun _ =>
          ((gather ps).eval w.effect (p.eval w.effect issued).2).1,
        ((gather ps).eval w.effect (p.eval w.effect issued).2).2) := by
  rw [gather, eval_bind, eval_attempt]
  dsimp only
  rw [eval_bind, eval_attempt]
  dsimp only
  obtain ⟨first, issued'⟩ := p.eval w.effect issued
  dsimp only
  obtain ⟨others, issued''⟩ := (gather ps).eval w.effect issued'
  cases first <;> cases others <;> rfl

theorem gather_ok {ps : List (Coro Unit)}
    (h : ∀ p ∈ ps, ∀ issued, (p.eval w.effect issued).1 = .ok ()) :
    ((gather ps).eval w.effect issued).1 = .ok () := by
  induction ps generalizing issued with
  | nil => rfl
  | cons p ps ih =>
    rw [eval_gather_cons, h p List.mem_cons_self]
    exact ih fun q hq => h q (List.mem_cons_of_mem _ hq)

theorem gather_error {ps : List (Coro Unit)} {p : Coro Unit} (hmem : p ∈ ps)
    (h : ∀ issued, ∃ e, (p.eval w.effect issued).1 = .error e) :
    ∃ e, ((gather ps).eval w.effect issued).1 = .error e := by
  induction ps generalizing issued with
  | nil => cases hmem
  | cons q ps ih =>
    rw [eval_gather_cons]
    cases hq : (q.eval w.effect issued).1 with
    | error e => exact ⟨e, rfl⟩
    | ok u =>
      obtain rfl | hmem := List.mem_cons.mp hmem
      · obtain ⟨e, he⟩ := h issued
        rw [hq] at he
        cases he
      · exact ih hmem

/-! ## The time-based step -/

/-- The last access a tick finds. -/
def World.lastAccess (w : World) (name : String) : ℚ := (w.lastAccessDict name).getD 0

/-- The app's metadata can be read. -/
def World.Readable (w : World) (app : InstalledApp) : Bool := (w.appMetadata app.name).isOk

/-- The pause threshold, `t1`. -/
def Settings.idleForPause (settings : Settings) (lifecycle : Freeshard.Lifecycle) : ℤ :=
  lifecycle.idleForPause.getD settings.defaultIdleForPause

/-- The stop threshold, `t2`. -/
def Settings.idleForStop (settings : Settings) (lifecycle : Freeshard.Lifecycle) : ℤ :=
  lifecycle.idleForStop.getD settings.defaultIdleForStop

/-- How long the app has not been accessed. -/
def World.idle (w : World) (name : String) : ℚ := w.clock - w.lastAccess name

variable (settings) in
/-- What an app with this metadata is due for. -/
def World.due (w : World) (pauseEnabled : Bool) (app : InstalledApp) (appMeta : AppMeta) : Option Operation :=
  if w.diskSpaceLow then some (.dockerStopApp app.name)
  else if appMeta.lifecycle.alwaysOn then
    if app.status ≠ .running ∧ w.sizeIsCompatible appMeta.minimumPortalSize = true then some (.startApp app.name)
    else none
  else if pauseEnabled = false ∨ appMeta.lifecycle.skipPause = true then
    if app.status = .running ∧ settings.idleForStop appMeta.lifecycle ≤ w.idle app.name then
      some (.dockerStopApp app.name)
    else none
  else if app.status = .running ∧ settings.idleForPause appMeta.lifecycle ≤ w.idle app.name then
    some (.dockerPauseApp app.name)
  else if app.status = .paused ∧ settings.idleForStop appMeta.lifecycle ≤ w.idle app.name then
    some (.dockerStopApp app.name)
  else none

theorem controlAppTime_eval {app : InstalledApp} {appMeta : AppMeta} (hmeta : w.appMetadata app.name = .ok appMeta) (pauseEnabled : Bool) :
    (controlAppTime settings pauseEnabled app).eval w.effect issued =
      (.ok (), issued ++ (w.due settings pauseEnabled app appMeta).toList) := by
  unfold controlAppTime World.due getAppMetadata
  rw [eval_bind, eval_perform]
  dsimp only [World.effect]
  rw [hmeta]
  dsimp only
  rw [eval_bind, diskSpaceLow, eval_perform]
  dsimp only [World.effect]
  cases w.diskSpaceLow with
  | true => rfl
  | false =>
    cases appMeta.lifecycle.alwaysOn with
    | true =>
      rw [if_neg Bool.false_ne_true, if_neg Bool.false_ne_true, if_pos rfl, if_pos rfl]
      by_cases hrunning : app.status = .running
      · rw [if_neg (not_not_intro hrunning), if_neg fun h => h.1 hrunning]
        simp
      · rw [if_pos hrunning, eval_bind, sizeIsCompatible, eval_perform]
        dsimp only [World.effect]
        cases w.sizeIsCompatible appMeta.minimumPortalSize with
        | true =>
          rw [if_pos rfl, if_pos ⟨hrunning, rfl⟩]
          rfl
        | false =>
          rw [if_neg Bool.false_ne_true, if_neg fun h => Bool.false_ne_true h.2]
          simp
    | false =>
      unfold World.idle Settings.idleForPause Settings.idleForStop
      rw [if_neg Bool.false_ne_true, if_neg Bool.false_ne_true, if_neg Bool.false_ne_true, if_neg Bool.false_ne_true,
        eval_bind_ok (a := w.clock) rfl, eval_bind_ok (a := w.lastAccess app.name) rfl]
      have hnothing : (pure () : Coro Unit).eval w.effect issued =
          (.ok (), issued ++ (none : Option Operation).toList) := by
        rw [Option.toList_none, List.append_nil]
        rfl
      split
      · split
        · rfl
        · exact hnothing
      · split
        · rfl
        · split
          · rfl
          · exact hnothing

theorem controlAppTime_error {app : InstalledApp} (h : w.Readable app = false) (pauseEnabled : Bool) :
    ∃ e, ((controlAppTime settings pauseEnabled app).eval w.effect issued).1 = .error e := by
  unfold controlAppTime getAppMetadata
  rw [eval_bind, eval_perform]
  dsimp only [World.effect]
  cases hmeta : w.appMetadata app.name with
  | error e => exact ⟨e, rfl⟩
  | ok appMeta =>
    rw [World.Readable, hmeta] at h
    cases h

theorem controlAppTime_ok {app : InstalledApp} (h : w.Readable app = true) (pauseEnabled : Bool) :
    ((controlAppTime settings pauseEnabled app).eval w.effect issued).1 = .ok () := by
  cases hmeta : w.appMetadata app.name with
  | error e =>
    rw [World.Readable, hmeta] at h
    cases h
  | ok appMeta => rw [controlAppTime_eval hmeta]

/-! ## The demotion -/

/-- The app may be demoted, if it is running or paused: its metadata can be read, it is not always on, and the last
access is not recent. -/
def World.Demotable (w : World) (app : InstalledApp) : Bool :=
  match w.appMetadata app.name with
  | .ok appMeta =>
    !appMeta.lifecycle.alwaysOn && decide (recentAccessGrace < w.clock - w.lastAccess app.name)
  | .error _ => false

theorem World.Demotable.readable {app : InstalledApp} (h : w.Demotable app = true) :
    w.Readable app = true := by
  unfold World.Demotable at h
  unfold World.Readable
  cases hmeta : w.appMetadata app.name with
  | ok appMeta => rfl
  | error e =>
    rw [hmeta] at h
    cases h

/-- The apps of this status that may be demoted. -/
def World.candidates (w : World) (status : Status) (apps : List InstalledApp) : List InstalledApp :=
  apps.filter fun app => w.Demotable app && decide (app.status = status)

theorem World.candidates_cons (status : Status) (app : InstalledApp) (apps : List InstalledApp) :
    w.candidates status (app :: apps) =
      if w.Demotable app && decide (app.status = status) then app :: w.candidates status apps
      else w.candidates status apps := List.filter_cons ..

theorem demotable_eval {apps : List InstalledApp} (h : ∀ app ∈ apps, w.Readable app = true) :
    (demotable apps).eval w.effect issued =
      (.ok (w.candidates .running apps, w.candidates .paused apps), issued) := by
  induction apps with
  | nil => rfl
  | cons app apps ih =>
    have hih := ih fun app happ => h app (List.mem_cons_of_mem _ happ)
    have hreadable := h app List.mem_cons_self
    rw [World.candidates_cons, World.candidates_cons]
    unfold demotable getAppMetadata
    rw [eval_bind, eval_perform]
    dsimp only [World.effect]
    cases hmeta : w.appMetadata app.name with
    | error e =>
      rw [World.Readable, hmeta] at hreadable
      cases hreadable
    | ok appMeta =>
      have hdemotable : w.Demotable app = (!appMeta.lifecycle.alwaysOn &&
          decide (recentAccessGrace < w.clock - w.lastAccess app.name)) := by
        rw [World.Demotable, hmeta]
      dsimp only
      cases halways : appMeta.lifecycle.alwaysOn with
      | true =>
        rw [halways] at hdemotable
        rw [hdemotable]
        exact hih
      | false =>
        rw [halways] at hdemotable
        rw [if_neg Bool.false_ne_true, eval_bind_ok (a := w.clock) rfl,
          eval_bind_ok (a := w.lastAccess app.name) rfl]
        by_cases hgrace : w.clock - w.lastAccess app.name ≤ recentAccessGrace
        · have hnot : w.Demotable app = false := by
            rw [hdemotable, decide_eq_false (not_lt.mpr hgrace)]
            rfl
          rw [if_pos hgrace, hnot]
          exact hih
        · have hdemotes : w.Demotable app = true := by
            rw [hdemotable, decide_eq_true (not_le.mp hgrace)]
            rfl
          rw [if_neg hgrace, hdemotes]
          change ((demotable apps >>= _ : Coro _).eval w.effect issued) = _
          rw [eval_bind, hih]
          dsimp only
          cases hstatus : app.status <;> rfl

/-- The demotion of the least recently used candidate, running ones first. -/
def World.demotion (w : World) (running paused : List InstalledApp) : Option Operation :=
  match lru w.lastAccessDict running, lru w.lastAccessDict paused with
  | some victim, _ =>
    match w.appMetadata victim.name with
    | .ok appMeta =>
      if appMeta.lifecycle.skipPause then some (.dockerStopApp victim.name)
      else some (.dockerPauseApp victim.name)
    | .error _ => none
  | none, some victim => some (.dockerStopApp victim.name)
  | none, none => none

theorem lru_eq_none {dict : String → Option ℚ} {candidates : List InstalledApp} :
    lru dict candidates = none ↔ candidates = [] := List.argmin_eq_none

theorem mem_candidates {app : InstalledApp} {status : Status} {apps : List InstalledApp} :
    app ∈ w.candidates status apps ↔ app ∈ apps ∧ w.Demotable app = true ∧ app.status = status := by
  rw [World.candidates, List.mem_filter, Bool.and_eq_true, decide_eq_true_eq]

/-- `_demote_lru` issues the demotion, if there is one. -/
theorem demoteLru_run {apps : List InstalledApp} (h : ∀ app ∈ apps, w.Readable app = true) :
    (demoteLru apps).eval w.effect issued =
      (.ok (), issued ++ (w.demotion (w.candidates .running apps) (w.candidates .paused apps)).toList) := by
  have hnothing : (pure () : Coro Unit).eval w.effect issued =
      (.ok (), issued ++ (none : Option Operation).toList) := by
    rw [Option.toList_none, List.append_nil]
    rfl
  unfold demoteLru World.demotion
  rw [eval_bind, demotable_eval h]
  dsimp only
  rw [eval_bind, eval_perform]
  dsimp only [World.effect]
  cases hrunning : lru w.lastAccessDict (w.candidates .running apps) with
  | some victim =>
    have hreadable := h victim (mem_candidates.mp (List.argmin_mem hrunning)).1
    unfold World.Readable at hreadable
    dsimp only
    rw [eval_bind, getAppMetadata, eval_perform]
    dsimp only [World.effect]
    cases hmeta : w.appMetadata victim.name with
    | error e =>
      rw [hmeta] at hreadable
      cases hreadable
    | ok appMeta =>
      dsimp only
      split <;> rfl
  | none =>
    cases lru w.lastAccessDict (w.candidates .paused apps) with
    | some victim => rfl
    | none => exact hnothing

theorem demoteLru_eval {apps : List InstalledApp} (h : ∀ app ∈ apps, w.Readable app = true) :
    ((demoteLru apps).eval w.effect issued).2 =
      issued ++ (w.demotion (w.candidates .running apps) (w.candidates .paused apps)).toList := by
  rw [demoteLru_run h]

theorem demotion_isSome {apps : List InstalledApp} {app : InstalledApp} (hmem : app ∈ apps)
    (hdemotable : w.Demotable app = true) (hstatus : app.status = .running ∨ app.status = .paused) :
    (w.demotion (w.candidates .running apps) (w.candidates .paused apps)).isSome = true := by
  unfold World.demotion
  cases hrunning : lru w.lastAccessDict (w.candidates .running apps) with
  | some victim =>
    have hvictim : victim ∈ w.candidates .running apps := List.argmin_mem hrunning
    have hreadable := World.Demotable.readable (mem_candidates.mp hvictim).2.1
    unfold World.Readable at hreadable
    dsimp only
    cases hmeta : w.appMetadata victim.name with
    | error e =>
      rw [hmeta] at hreadable
      cases hreadable
    | ok appMeta =>
      dsimp only
      split <;> rfl
  | none =>
    cases hpaused : lru w.lastAccessDict (w.candidates .paused apps) with
    | some victim => rfl
    | none =>
      obtain hrun | hpause := hstatus
      · have hmem' := mem_candidates.mpr ⟨hmem, hdemotable, hrun⟩
        rw [lru_eq_none.mp hrunning] at hmem'
        cases hmem'
      · have hmem' := mem_candidates.mpr ⟨hmem, hdemotable, hpause⟩
        rw [lru_eq_none.mp hpaused] at hmem'
        cases hmem'

theorem candidates_filter {status : Status} {apps : List InstalledApp} {keep : InstalledApp → Bool}
    (h : ∀ app, w.Demotable app = true → app.status = status → keep app = true) :
    w.candidates status (apps.filter keep) = w.candidates status apps := by
  unfold World.candidates
  rw [List.filter_filter]
  refine List.filter_congr fun app _ => ?_
  cases hcand : w.Demotable app && decide (app.status = status) with
  | false => rfl
  | true =>
    obtain ⟨hdemotable, hstatus⟩ := Bool.and_eq_true_iff.mp hcand
    rw [h app hdemotable (of_decide_eq_true hstatus)]
    rfl

/-! ## Main results -/

/-- Some app with readable metadata is running or paused, not always on and not recently accessed. -/
def World.HasCandidate (w : World) : Prop :=
  ∃ app ∈ w.installedApps.rows, w.Demotable app = true ∧
    (app.status = .running ∨ app.status = .paused)

/-- If there is a candidate, the tick issues exactly one operation, the one that `_demote_lru` issues for the apps with
readable metadata. -/
def Relieved (settings : Settings) (w : World) : Prop :=
  w.HasCandidate → ∃ operation, w.issues (controlApps settings) = [operation] ∧
    w.issues (demoteLru (w.installedApps.rows.filter w.Readable)) = [operation]

theorem controlApps_eval (hpause : settings.pauseEnabled = true)
    (hpressure : settings.psiThreshold < w.psi) :
    (controlApps settings).eval w.effect [] =
      (timeBasedStep settings true (w.installedApps.rows.filter controlled) >>= fun _ =>
        demoteLru (w.installedApps.rows.filter controlled)).eval w.effect [] := by
  unfold controlApps
  rw [if_pos hpause, eval_bind, readMemoryPressure, eval_perform]
  dsimp only [World.effect]
  rw [eval_bind, getAll, eval_perform]
  dsimp only [World.effect]
  rw [hpause]
  congr 2
  funext _
  exact if_pos ⟨rfl, hpressure⟩

theorem controlApps_issues_of_error {app : InstalledApp} (hpause : settings.pauseEnabled = true)
    (hpressure : settings.psiThreshold < w.psi)
    (htime : w.issues (timeBasedStep settings true (w.installedApps.rows.filter controlled)) = [])
    (hmem : app ∈ w.installedApps.rows) (hcontrolled : controlled app = true)
    (hunreadable : w.Readable app = false) : w.issues (controlApps settings) = [] := by
  have htask : controlAppTime settings true app ∈
      (w.installedApps.rows.filter controlled).map (controlAppTime settings true) :=
    List.mem_map_of_mem (List.mem_filter.mpr ⟨hmem, hcontrolled⟩)
  obtain ⟨e, he⟩ : ∃ e, ((timeBasedStep settings true (w.installedApps.rows.filter controlled)).eval
      w.effect []).1 = .error e :=
    gather_error htask fun issued => controlAppTime_error hunreadable true
  rw [World.issues, controlApps_eval hpause hpressure, eval_bind_error he]
  exact htime

theorem controlApps_issues_of_readable (hpause : settings.pauseEnabled = true)
    (hpressure : settings.psiThreshold < w.psi)
    (htime : w.issues (timeBasedStep settings true (w.installedApps.rows.filter controlled)) = [])
    (hreadable : ∀ app ∈ w.installedApps.rows, controlled app = true → w.Readable app = true) :
    w.issues (controlApps settings) =
      w.issues (demoteLru (w.installedApps.rows.filter controlled)) := by
  have hok : ((timeBasedStep settings true (w.installedApps.rows.filter controlled)).eval
      w.effect []).1 = .ok () := by
    refine gather_ok fun p hp issued => ?_
    obtain ⟨app, happ, rfl⟩ := List.mem_map.mp hp
    obtain ⟨hmem, hcontrolled⟩ := List.mem_filter.mp happ
    exact controlAppTime_ok (hreadable app hmem hcontrolled) true
  rw [World.issues, controlApps_eval hpause hpressure, eval_bind_ok hok]
  rw [World.issues] at htime
  rw [htime]
  rfl

/-- In a tick under memory pressure in which the time-based step issues nothing, pressure is relieved exactly if every app
that the tick controls has readable metadata, or if there is no candidate. -/
theorem relieved_iff (settings : Settings) (w : World) (hpause : settings.pauseEnabled = true)
    (hpressure : settings.psiThreshold < w.psi)
    (htime : w.issues (timeBasedStep settings true (w.installedApps.rows.filter controlled)) = []) :
    Relieved settings w ↔
      (∀ app ∈ w.installedApps.rows, controlled app = true → w.Readable app = true) ∨
        ¬ w.HasCandidate := by
  constructor
  · intro hrelieved
    by_cases hcandidate : w.HasCandidate
    · left
      intro app hmem hcontrolled
      cases hreadable : w.Readable app with
      | true => rfl
      | false =>
        obtain ⟨operation, hissues, -⟩ := hrelieved hcandidate
        rw [controlApps_issues_of_error hpause hpressure htime hmem hcontrolled hreadable] at hissues
        cases hissues
    · exact .inr hcandidate
  · rintro (hreadable | hnone)
    · rintro ⟨app, hmem, hdemotable, hstatus⟩
      have hsome := demotion_isSome hmem hdemotable hstatus
      obtain ⟨operation, hoperation⟩ := Option.isSome_iff_exists.mp hsome
      have hkept : ∀ {keep : InstalledApp → Bool},
          (∀ app ∈ w.installedApps.rows.filter keep, w.Readable app = true) →
          (∀ app, w.Demotable app = true → app.status = .running ∨ app.status = .paused →
            keep app = true) →
          w.issues (demoteLru (w.installedApps.rows.filter keep)) = [operation] := by
        intro keep hread hkeep
        rw [World.issues, demoteLru_eval hread,
          candidates_filter fun app hd hs => hkeep app hd (.inl hs),
          candidates_filter fun app hd hs => hkeep app hd (.inr hs), hoperation]
        rfl
      refine ⟨operation, ?_, ?_⟩
      · rw [controlApps_issues_of_readable hpause hpressure htime hreadable]
        refine hkept (fun app happ => ?_) fun app _ hs => ?_
        · obtain ⟨hrow, hcontrolled⟩ := List.mem_filter.mp happ
          exact hreadable app hrow hcontrolled
        · unfold controlled
          obtain hs | hs := hs <;> rw [hs] <;> rfl
      · exact hkept (fun app happ => (List.mem_filter.mp happ).2) fun app hd _ =>
          World.Demotable.readable hd
    · exact fun hcandidate => absurd hcandidate hnone

/-- Pause after a minute, stop after an hour, and demote from a pressure of ten on. -/
def Settings.usual : Settings := ⟨true, 10, 60, 3600⟩

/-- An app has been used ten seconds ago; the other one's installation has failed. -/
def World.pressed (appMetadata : String → Except Exn AppMeta) : World where
  installedApps := ⟨[{ name := "broken", status := .error }, { name := "notes", status := .running }],
    by decide⟩
  appMetadata
  psi := 20
  clock := 10

/-- Both apps have metadata, and the running one is demoted. -/
theorem relieved_pressed : (World.pressed fun name => .ok { name }).HasCandidate ∧
    Relieved .usual (World.pressed fun name => .ok { name }) := by
  refine ⟨⟨{ name := "notes", status := .running }, ?_, by decide +kernel, .inl rfl⟩, ?_⟩
  · exact List.mem_cons_of_mem _ List.mem_cons_self
  · refine (relieved_iff .usual _ rfl (by decide +kernel) (by decide +kernel)).mpr (.inl ?_)
    intro app _ _
    rfl

/-- The app that failed has no metadata, and nothing is demoted. -/
theorem not_relieved : ∃ settings w, settings.pauseEnabled = true ∧ settings.psiThreshold < w.psi ∧
    w.issues (timeBasedStep settings true (w.installedApps.rows.filter controlled)) = [] ∧
    ¬ Relieved settings w := by
  let w := World.pressed fun name =>
    if name = "notes" then .ok { name } else .error (.metadataNotFound name)
  refine ⟨.usual, w, rfl, by decide +kernel, by decide +kernel, fun hrelieved => ?_⟩
  have hcandidate : w.HasCandidate :=
    ⟨{ name := "notes", status := .running }, List.mem_cons_of_mem _ List.mem_cons_self,
      by decide +kernel, .inl rfl⟩
  obtain ⟨operation, hissues, -⟩ := hrelieved hcandidate
  have hnone : w.issues (controlApps .usual) = [] := by decide +kernel
  rw [hnone] at hissues
  cases hissues

end Freeshard.Lifecycle

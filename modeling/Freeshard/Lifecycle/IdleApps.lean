import Freeshard.Lifecycle.Demand

/-! # Idle apps under changing settings

An app may be paused under one configuration and judged under another: `pause_enabled` is switched off, or an update
makes the app skip the pause. Ticks are taken here as they come, each with its own settings and its own metadata. -/

namespace Freeshard.Lifecycle
open Coroutine Coroutine.Prog
set_option autoImplicit false

variable {settings : Settings} {w : World} {issued : List Operation} {app : InstalledApp} {appMeta : AppMeta}

/-! ## What a tick issues -/

/-- What the time-based step issues for the app; nothing if its metadata cannot be read. -/
def World.demanded (w : World) (settings : Settings) (pauseEnabled : Bool) (app : InstalledApp) : List Operation :=
  match w.appMetadata app.name with
  | .ok appMeta => (w.due settings pauseEnabled app appMeta).toList
  | .error _ => []

theorem World.demanded_eq (hmeta : w.appMetadata app.name = .ok appMeta) (pauseEnabled : Bool) :
    w.demanded settings pauseEnabled app = (w.due settings pauseEnabled app appMeta).toList := by
  unfold World.demanded
  rw [hmeta]

theorem controlAppTime_adds (pauseEnabled : Bool) :
    ((controlAppTime settings pauseEnabled app).eval w.effect issued).2 =
      issued ++ w.demanded settings pauseEnabled app := by
  cases hmeta : w.appMetadata app.name with
  | ok appMeta => rw [controlAppTime_eval hmeta, World.demanded_eq hmeta]
  | error e =>
    unfold controlAppTime getAppMetadata World.demanded
    rw [eval_bind, eval_perform]
    dsimp only [World.effect]
    rw [hmeta]
    exact (List.append_nil issued).symm

theorem timeBasedStep_adds (pauseEnabled : Bool) (apps : List InstalledApp) :
    ((timeBasedStep settings pauseEnabled apps).eval w.effect issued).2 =
      issued ++ apps.flatMap (w.demanded settings pauseEnabled) := by
  unfold timeBasedStep
  induction apps generalizing issued with
  | nil => exact (List.append_nil issued).symm
  | cons app apps ih =>
    rw [List.map_cons, eval_gather_cons]
    dsimp only
    rw [ih, controlAppTime_adds, List.flatMap_cons, List.append_assoc]

theorem timeBasedStep_ok_iff (pauseEnabled : Bool) (apps : List InstalledApp) :
    ((timeBasedStep settings pauseEnabled apps).eval w.effect issued).1 = .ok () ↔
      ∀ app ∈ apps, w.Readable app = true := by
  constructor
  · intro hok app hmem
    cases hreadable : w.Readable app with
    | true => rfl
    | false =>
      obtain ⟨e, he⟩ : ∃ e, ((timeBasedStep settings pauseEnabled apps).eval w.effect issued).1 = .error e :=
        gather_error (List.mem_map_of_mem hmem) fun issued => controlAppTime_error hreadable pauseEnabled
      rw [hok] at he
      cases he
  · intro hreadable
    refine gather_ok fun p hp issued => ?_
    obtain ⟨app, hmem, rfl⟩ := List.mem_map.mp hp
    exact controlAppTime_ok (hreadable app hmem) pauseEnabled

/-! ## Ticks -/

/-- The settings under which a tick runs and what it finds. -/
structure Tick where
  settings : Settings
  world : World

namespace Tick

def issues (t : Tick) : List Operation := t.world.issues (controlApps t.settings)

def apps (t : Tick) : List InstalledApp := t.world.installedApps.rows.filter controlled

/-- `pressure_high`. -/
def pressureHigh (t : Tick) : Prop := t.settings.pauseEnabled = true ∧ t.settings.psiThreshold < t.world.psi

instance (t : Tick) : Decidable t.pressureHigh := inferInstanceAs (Decidable (_ ∧ _))

/-- The tick gets as far as its demotion, and this is the app that it demotes. -/
def Relieves (t : Tick) (app : InstalledApp) : Prop :=
  t.pressureHigh ∧ (∀ app ∈ t.apps, t.world.Readable app = true) ∧ t.world.preferred t.apps = some app

theorem demotion_eq_some_iff {t : Tick} (hpressure : t.pressureHigh)
    (hreadable : ∀ app ∈ t.apps, t.world.Readable app = true) {operation : Operation} :
    t.world.demotion (t.world.candidates .running t.apps) (t.world.candidates .paused t.apps) = some operation ↔
      ∃ victim appMeta, t.Relieves victim ∧ t.world.appMetadata victim.name = .ok appMeta ∧
        operation = demotionOf victim appMeta := by
  cases hpreferred : t.world.preferred t.apps with
  | none =>
    rw [World.demotion_eq_none hpreferred]
    constructor
    · intro h
      cases h
    · rintro ⟨victim, -, ⟨-, -, hvictim⟩, -⟩
      rw [hpreferred] at hvictim
      cases hvictim
  | some victim =>
    have hread := hreadable victim (World.preferred_cases hpreferred).1.mem
    unfold World.Readable at hread
    cases hmeta : t.world.appMetadata victim.name with
    | error e =>
      rw [hmeta] at hread
      cases hread
    | ok appMeta =>
      rw [World.demotion_of_preferred hpreferred hmeta, Option.some.injEq]
      constructor
      · intro h
        exact ⟨victim, appMeta, ⟨hpressure, hreadable, hpreferred⟩, hmeta, h.symm⟩
      · rintro ⟨victim', appMeta', ⟨-, -, hvictim⟩, hmeta', rfl⟩
        rw [hpreferred] at hvictim
        obtain rfl := Option.some.inj hvictim
        rw [hmeta] at hmeta'
        obtain rfl := Except.ok.inj hmeta'
        rfl

theorem controlApps_eval (t : Tick) : (controlApps t.settings).eval t.world.effect [] =
    (timeBasedStep t.settings t.settings.pauseEnabled t.apps >>= fun _ =>
      if t.pressureHigh then demoteLru t.apps else pure ()).eval t.world.effect [] := by
  unfold controlApps apps
  by_cases hpause : t.settings.pauseEnabled = true
  · rw [if_pos hpause, eval_bind, readMemoryPressure, eval_perform]
    dsimp only [World.effect]
    rw [eval_bind, getAll, eval_perform]
    rfl
  · rw [if_neg hpause, eval_bind_ok (a := 0) rfl, eval_bind, getAll, eval_perform]
    dsimp only [World.effect]
    congr 2
    funext _
    exact (if_neg fun h => hpause h.1).trans (if_neg fun h : t.pressureHigh => hpause h.1).symm

theorem mem_issues {t : Tick} {operation : Operation} : operation ∈ t.issues ↔
    (∃ app ∈ t.apps, operation ∈ t.world.demanded t.settings t.settings.pauseEnabled app) ∨
      ∃ victim appMeta, t.Relieves victim ∧ t.world.appMetadata victim.name = .ok appMeta ∧
        operation = demotionOf victim appMeta := by
  have hadds : ((timeBasedStep t.settings t.settings.pauseEnabled t.apps).eval t.world.effect []).2 =
      [] ++ t.apps.flatMap (t.world.demanded t.settings t.settings.pauseEnabled) := timeBasedStep_adds _ _
  rw [List.nil_append] at hadds
  unfold issues World.issues
  rw [controlApps_eval]
  by_cases hreadable : ∀ app ∈ t.apps, t.world.Readable app = true
  · rw [eval_bind_ok ((timeBasedStep_ok_iff _ _).mpr hreadable), hadds]
    by_cases hpressure : t.pressureHigh
    · rw [if_pos hpressure, demoteLru_eval hreadable, List.mem_append, List.mem_flatMap, Option.mem_toList,
        demotion_eq_some_iff hpressure hreadable]
    · rw [if_neg hpressure]
      change operation ∈ t.apps.flatMap _ ↔ _
      rw [List.mem_flatMap, or_iff_left]
      exact fun ⟨_, _, hrelieves, _⟩ => hpressure hrelieves.1
  · obtain ⟨e, he⟩ : ∃ e, ((timeBasedStep t.settings t.settings.pauseEnabled t.apps).eval
        t.world.effect []).1 = .error e := by
      cases htime : ((timeBasedStep t.settings t.settings.pauseEnabled t.apps).eval t.world.effect []).1 with
      | error e => exact ⟨e, rfl⟩
      | ok u => exact absurd ((timeBasedStep_ok_iff _ _).mp htime) hreadable
    rw [eval_bind_error he]
    dsimp only
    rw [hadds, List.mem_flatMap, or_iff_left]
    exact fun ⟨_, _, hrelieves, _⟩ => hreadable hrelieves.2.1

/-! ## Idle apps -/

/-- With enough disk space, the tick finds an app that has been idle for its thresholds. -/
structure FindsIdle (t : Tick) (app : InstalledApp) (appMeta : AppMeta) : Prop where
  disk_space : t.world.diskSpaceLow = false
  mem : app ∈ t.world.installedApps.rows
  metadata : t.world.appMetadata app.name = .ok appMeta
  not_always_on : appMeta.lifecycle.alwaysOn = false
  status : app.status = .running ∨ app.status = .paused
  idle_for_pause : t.settings.idleForPause appMeta.lifecycle ≤ t.world.idle app.name
  idle_for_stop : t.settings.idleForStop appMeta.lifecycle ≤ t.world.idle app.name

/-- The app is in reach of the tick: it is running, or it still has a pause tier, or it is the one that memory pressure
demotes. -/
def Reaches (t : Tick) (app : InstalledApp) (appMeta : AppMeta) : Prop :=
  app.status = .running ∨ (t.settings.pauseEnabled = true ∧ appMeta.lifecycle.skipPause = false) ∨ t.Relieves app

variable {t : Tick}

theorem FindsIdle.mem_apps (h : t.FindsIdle app appMeta) : app ∈ t.apps := by
  refine List.mem_filter.mpr ⟨h.mem, ?_⟩
  unfold controlled
  obtain hstatus | hstatus := h.status <;> rw [hstatus] <;> rfl

theorem eq_of_name {app' : InstalledApp} (h : app ∈ t.world.installedApps.rows) (h' : app' ∈ t.apps)
    (hname : app'.name = app.name) : app' = app :=
  List.inj_on_of_nodup_map t.world.installedApps.nodup (List.mem_filter.mp h').1 h hname

/-- What is due for an idle app: nothing if it is paused and has no pause tier any more. -/
theorem FindsIdle.due (h : t.FindsIdle app appMeta) :
    t.world.due t.settings t.settings.pauseEnabled app appMeta =
      if t.settings.pauseEnabled = true ∧ appMeta.lifecycle.skipPause = false then
        if app.status = .running then some (.dockerPauseApp app.name) else some (.dockerStopApp app.name)
      else if app.status = .running then some (.dockerStopApp app.name) else none := by
  have hpaused : app.status ≠ .running → app.status = .paused := h.status.resolve_left
  unfold World.due
  rw [if_neg (by rw [h.disk_space]; exact Bool.false_ne_true),
    if_neg (by rw [h.not_always_on]; exact Bool.false_ne_true)]
  by_cases htier : t.settings.pauseEnabled = true ∧ appMeta.lifecycle.skipPause = false
  · have hcovered : ¬ (t.settings.pauseEnabled = false ∨ appMeta.lifecycle.skipPause = true) := by
      rw [htier.1, htier.2]
      decide
    rw [if_neg hcovered, if_pos htier]
    by_cases hrunning : app.status = .running
    · rw [if_pos ⟨hrunning, h.idle_for_pause⟩, if_pos hrunning]
    · rw [if_neg fun h' => hrunning h'.1, if_neg hrunning, if_pos ⟨hpaused hrunning, h.idle_for_stop⟩]
  · have hlegacy : t.settings.pauseEnabled = false ∨ appMeta.lifecycle.skipPause = true :=
      (not_and_or.mp htier).imp Bool.eq_false_of_not_eq_true Bool.eq_true_of_not_eq_false
    rw [if_pos hlegacy, if_neg htier]
    by_cases hrunning : app.status = .running
    · rw [if_pos ⟨hrunning, h.idle_for_stop⟩, if_pos hrunning]
    · rw [if_neg fun h' => hrunning h'.1, if_neg hrunning]

end Tick

theorem World.target_of_demanded {pauseEnabled : Bool} {operation : Operation}
    (h : operation ∈ w.demanded settings pauseEnabled app) : operation.target = app.name := by
  unfold World.demanded at h
  split at h
  · rw [Option.mem_toList] at h
    unfold World.due at h
    split_ifs at h <;> cases h <;> rfl
  · cases h

theorem target_demotionOf (victim : InstalledApp) (appMeta : AppMeta) :
    (demotionOf victim appMeta).target = victim.name := by
  unfold demotionOf
  split <;> rfl

namespace Tick
variable {t : Tick}

theorem FindsIdle.issues_iff (h : t.FindsIdle app appMeta) {operation : Operation} :
    operation ∈ t.issues ∧ operation.target = app.name ↔
      t.world.due t.settings t.settings.pauseEnabled app appMeta = some operation ∨
        t.Relieves app ∧ operation = demotionOf app appMeta := by
  rw [mem_issues]
  constructor
  · rintro ⟨⟨app', hmem, hdemanded⟩ | ⟨victim, appMeta', hrelieves, hmeta, rfl⟩, htarget⟩
    · obtain rfl := eq_of_name h.mem hmem ((World.target_of_demanded hdemanded).symm.trans htarget)
      rw [World.demanded_eq h.metadata, Option.mem_toList] at hdemanded
      exact .inl hdemanded
    · rw [target_demotionOf] at htarget
      obtain rfl := eq_of_name h.mem (World.preferred_cases hrelieves.2.2).1.mem htarget
      rw [h.metadata] at hmeta
      obtain rfl := Except.ok.inj hmeta
      exact .inr ⟨hrelieves, rfl⟩
  · rintro (hdue | ⟨hrelieves, rfl⟩)
    · have hdemanded : operation ∈ t.world.demanded t.settings t.settings.pauseEnabled app := by
        rw [World.demanded_eq h.metadata, Option.mem_toList]
        exact hdue
      exact ⟨.inl ⟨app, h.mem_apps, hdemanded⟩, World.target_of_demanded hdemanded⟩
    · exact ⟨.inr ⟨app, appMeta, hrelieves, h.metadata, rfl⟩, target_demotionOf app appMeta⟩

theorem FindsIdle.operation (h : t.FindsIdle app appMeta) {operation : Operation} (hmem : operation ∈ t.issues)
    (htarget : operation.target = app.name) :
    operation = .dockerStopApp app.name ∨ (operation = .dockerPauseApp app.name ∧ app.status = .running) := by
  obtain hdue | ⟨-, rfl⟩ := h.issues_iff.mp ⟨hmem, htarget⟩
  · rw [h.due] at hdue
    split_ifs at hdue with htier hrunning hrunning
    · exact .inr ⟨(Option.some.inj hdue).symm, hrunning⟩
    · exact .inl (Option.some.inj hdue).symm
    · exact .inl (Option.some.inj hdue).symm
  · unfold demotionOf
    split
    · next hpause => exact .inr ⟨rfl, hpause.1⟩
    · exact .inl rfl

theorem FindsIdle.exists_iff (h : t.FindsIdle app appMeta) :
    (∃ operation ∈ t.issues, operation.target = app.name) ↔ t.Reaches app appMeta := by
  have hiff : (∃ operation ∈ t.issues, operation.target = app.name) ↔
      (∃ operation, t.world.due t.settings t.settings.pauseEnabled app appMeta = some operation) ∨
        t.Relieves app := by
    constructor
    · rintro ⟨operation, hmem, htarget⟩
      exact (h.issues_iff.mp ⟨hmem, htarget⟩).imp (fun hdue => ⟨operation, hdue⟩) And.left
    · rintro (⟨operation, hdue⟩ | hrelieves)
      · exact ⟨operation, h.issues_iff.mpr (.inl hdue)⟩
      · exact ⟨_, h.issues_iff.mpr (.inr ⟨hrelieves, rfl⟩)⟩
  rw [hiff, h.due]
  unfold Reaches
  by_cases hrunning : app.status = .running
  · by_cases htier : t.settings.pauseEnabled = true ∧ appMeta.lifecycle.skipPause = false
    · simp [hrunning, htier]
    · simp [hrunning, htier]
  · by_cases htier : t.settings.pauseEnabled = true ∧ appMeta.lifecycle.skipPause = false
    · simp [hrunning, htier]
    · simp [hrunning, htier]

/-- The next status of the app is what the tick's operations on it leave. -/
def Leaves (t : Tick) (app : InstalledApp) (status : Status) : Prop :=
  (∃ operation ∈ t.issues, operation.target = app.name ∧ status = operation.leaves) ∨
    ((∀ operation ∈ t.issues, operation.target ≠ app.name) ∧ status = app.status)

theorem FindsIdle.leaves (h : t.FindsIdle app appMeta) (hreaches : t.Reaches app appMeta) {status : Status}
    (hleaves : t.Leaves app status) : status = .stopped ∨ (status = .paused ∧ app.status = .running) := by
  obtain ⟨operation, hmem, htarget, rfl⟩ | ⟨hnone, -⟩ := hleaves
  · obtain rfl | ⟨rfl, hrunning⟩ := h.operation hmem htarget
    · exact .inl rfl
    · exact .inr ⟨rfl, hrunning⟩
  · obtain ⟨operation, hmem, htarget⟩ := h.exists_iff.mpr hreaches
    exact absurd htarget (hnone operation hmem)

end Tick

/-- From tick `n` on nothing but the ticks acts on the app: it stays idle while it has processes, and a tick finds it in
the status in which the one before has left it. -/
structure Unused (history : ℕ → Tick) (n : ℕ) (app : ℕ → InstalledApp) (appMeta : ℕ → AppMeta) : Prop where
  name_eq : ∀ k, (app k).name = (app n).name
  idle : ∀ k, n ≤ k → (app k).status = .running ∨ (app k).status = .paused →
    (history k).FindsIdle (app k) (appMeta k)
  leaves : ∀ k, n ≤ k → (history k).Leaves (app k) (app (k + 1)).status

theorem Unused.stopped {history : ℕ → Tick} {n : ℕ} {app : ℕ → InstalledApp} {appMeta : ℕ → AppMeta}
    (h : Unused history n app appMeta) (hstatus : (app n).status = .running ∨ (app n).status = .paused)
    (hreaches : ∀ k, n ≤ k → (history k).Reaches (app k) (appMeta k)) :
    (app (n + 1)).status = .stopped ∨ (app (n + 2)).status = .stopped := by
  have hidle := h.idle n le_rfl hstatus
  obtain hstopped | ⟨hpaused, -⟩ := hidle.leaves (hreaches n le_rfl) (h.leaves n le_rfl)
  · exact .inl hstopped
  · have hidle' := h.idle (n + 1) (Nat.le_succ n) (.inr hpaused)
    obtain hstopped | ⟨-, hrunning⟩ :=
      hidle'.leaves (hreaches (n + 1) (Nat.le_succ n)) (h.leaves (n + 1) (Nat.le_succ n))
    · exact .inr hstopped
    · rw [hpaused] at hrunning
      cases hrunning

/-- An app that has never been accessed since the start. -/
def Tick.unused (pauseEnabled : Bool) (status : Status) : Tick where
  settings := { Settings.usual with pauseEnabled }
  world :=
    { installedApps := ⟨[{ name := "notes", status }], List.nodup_singleton _⟩
      appMetadata := fun name => .ok (.named name)
      psi := 0
      clock := 7200 }

end Freeshard.Lifecycle

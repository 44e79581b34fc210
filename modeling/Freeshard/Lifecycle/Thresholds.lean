import Freeshard.AppMetas.Upgrade
import Freeshard.Lifecycle.Demand

/-! # The order of the thresholds

Validation compares `idle_for_pause` with `idle_for_stop` where both are set. The thresholds of a tick fall back to the
global defaults one by one, and the migration to version 1.3 sets only the first. -/

namespace Freeshard.Lifecycle
open Sql (Json)
open AppMetas (Legacy Upgrade withoutLifecycle)
set_option autoImplicit false

variable {settings : Settings} {lifecycle : Freeshard.Lifecycle}

/-- `threshold or default`. -/
def orDefault (threshold : Option ℤ) (default : ℤ) : ℤ :=
  if threshold.getD 0 = 0 then default else threshold.getD 0

theorem orDefault_eq {threshold : Option ℤ} (h : ∀ t ∈ threshold, 5 ≤ t) (default : ℤ) :
    orDefault threshold default = threshold.getD default := by
  unfold orDefault
  cases threshold with
  | none => rfl
  | some t =>
    have hle := h t rfl
    rw [Option.getD_some, Option.getD_some, if_neg (by omega)]

theorem idleForPause_eq_or (settings : Settings) (lifecycle : Freeshard.Lifecycle) :
    orDefault lifecycle.idleForPause settings.defaultIdleForPause = settings.idleForPause lifecycle :=
  orDefault_eq lifecycle.validate_combinations.2.2.1 _

theorem idleForStop_eq_or (settings : Settings) (lifecycle : Freeshard.Lifecycle) :
    orDefault lifecycle.idleForStop settings.defaultIdleForStop = settings.idleForStop lifecycle :=
  orDefault_eq lifecycle.validate_combinations.2.2.2.1 _

/-- A threshold that is set alone is on the right side of the other one's default. -/
def Settings.Separates (settings : Settings) (lifecycle : Freeshard.Lifecycle) : Prop :=
  (lifecycle.idleForStop = none → ∀ t ∈ lifecycle.idleForPause, t < settings.defaultIdleForStop) ∧
  (lifecycle.idleForPause = none → ∀ t ∈ lifecycle.idleForStop, settings.defaultIdleForPause < t)

theorem idleForPause_lt_iff (hdefaults : settings.defaultIdleForPause < settings.defaultIdleForStop) :
    settings.idleForPause lifecycle < settings.idleForStop lifecycle ↔ settings.Separates lifecycle := by
  have hboth := lifecycle.validate_combinations.2.2.2.2
  unfold Settings.idleForPause Settings.idleForStop Settings.Separates
  cases hpause : lifecycle.idleForPause with
  | none =>
    cases hstop : lifecycle.idleForStop with
    | none => simp [hdefaults]
    | some t₂ => simp
  | some t₁ =>
    cases hstop : lifecycle.idleForStop with
    | none => simp
    | some t₂ => simp [hboth t₁ hpause t₂ hstop]

theorem separates_upgrade {unicode : CaseTables} {version : String} {idleTimeForShutdown : Option ℤ}
    {old m : FullAppMeta} (h : Upgrade unicode version false idleTimeForShutdown old m) :
    settings.Separates m.lifecycle ↔ ∀ t ∈ idleTimeForShutdown, t < settings.defaultIdleForStop := by
  have hpause : m.lifecycle.idleForPause = idleTimeForShutdown := h.idle_for_pause
  unfold Settings.Separates
  rw [h.idle_for_stop, hpause]
  constructor
  · intro hseparates
    exact hseparates.1 rfl
  · intro hlt
    exact ⟨fun _ => hlt, fun _ t ht => by cases ht⟩

/-! ## A freshly paused app -/

/-- A tick pauses the app. -/
def World.Pauses (w : World) (settings : Settings) (app : InstalledApp) : Prop :=
  .dockerPauseApp app.name ∈ w.issues (controlAppTime settings settings.pauseEnabled app)

/-- The same without any further access, some time later. -/
def World.after (w : World) (d : ℚ) : World := { w with clock := w.clock + d }

/-- The app is not stopped at once: once it is paused, there is a while in which no tick stops it. -/
def World.SparesPaused (w : World) (settings : Settings) (app : InstalledApp) : Prop :=
  ∃ span > 0, ∀ d, 0 ≤ d → d < span →
    .dockerStopApp app.name ∉
      (w.after d).issues (controlAppTime settings settings.pauseEnabled { app with status := .paused })

variable {w : World} {app : InstalledApp} {appMeta : AppMeta}

theorem World.idle_after (w : World) (d : ℚ) (name : String) : (w.after d).idle name = w.idle name + d :=
  add_sub_right_comm _ _ _

theorem pauses_iff (hmeta : w.appMetadata app.name = .ok appMeta) :
    w.Pauses settings app ↔
      (w.diskSpaceLow = false ∧ appMeta.lifecycle.alwaysOn = false) ∧
      (settings.pauseEnabled = true ∧ appMeta.lifecycle.skipPause = false) ∧
      app.status = .running ∧ settings.idleForPause appMeta.lifecycle ≤ w.idle app.name := by
  unfold World.Pauses
  rw [controlAppTime_issues hmeta, Option.mem_toList]
  unfold World.due
  cases w.diskSpaceLow with
  | true => simp
  | false =>
    cases appMeta.lifecycle.alwaysOn with
    | true => simp
    | false =>
      cases settings.pauseEnabled with
      | false => simp
      | true =>
        cases appMeta.lifecycle.skipPause with
        | true => simp
        | false => simp

/-- An app with a pause tier is stopped once it is paused and idle for the stop threshold. -/
theorem issues_paused (hmeta : w.appMetadata app.name = .ok appMeta) (h : w.Pauses settings app) (d : ℚ) :
    .dockerStopApp app.name ∈
        (w.after d).issues (controlAppTime settings settings.pauseEnabled { app with status := .paused }) ↔
      settings.idleForStop appMeta.lifecycle ≤ w.idle app.name + d := by
  obtain ⟨⟨hdisk, halways⟩, ⟨hpause, hskip⟩, -⟩ := (pauses_iff hmeta).mp h
  have hmeta' : (w.after d).appMetadata ({ app with status := .paused } : InstalledApp).name = .ok appMeta := hmeta
  have hdisk' : (w.after d).diskSpaceLow = false := hdisk
  rw [controlAppTime_issues hmeta', Option.mem_toList]
  unfold World.due
  rw [hdisk', halways, hpause, hskip, if_neg Bool.false_ne_true, if_neg Bool.false_ne_true,
    if_neg (by decide), if_neg fun h => Status.noConfusion h.1, World.idle_after]
  split
  · next h => exact iff_of_true rfl h.2
  · next h => exact iff_of_false (by simp) fun hle => h ⟨rfl, hle⟩

theorem sparesPaused_iff (hmeta : w.appMetadata app.name = .ok appMeta) (h : w.Pauses settings app) :
    w.SparesPaused settings app ↔ w.idle app.name < settings.idleForStop appMeta.lifecycle := by
  unfold World.SparesPaused
  constructor
  · rintro ⟨span, hspan, hspares⟩
    have hnow := hspares 0 le_rfl hspan
    rwa [issues_paused hmeta h, add_zero, not_le] at hnow
  · intro hlt
    refine ⟨settings.idleForStop appMeta.lifecycle - w.idle app.name, sub_pos.mpr hlt, fun d _ hd => ?_⟩
    rw [issues_paused hmeta h, not_le]
    exact lt_sub_iff_add_lt'.mp hd

/-- The pause threshold of a validated app that has a pause tier is below its stop threshold exactly if a threshold
that is set alone is on the right side of the other one's default; after a migration, if `idle_time_for_shutdown` is
unset or below the default stop threshold. An app that a tick pauses is moreover not stopped at once exactly if the
tick finds it idle for less than the stop threshold. -/
theorem pause_before_stop_iff (unicode : CaseTables) (lax : LaxMode) (settings : Settings)
    (hdefaults : settings.defaultIdleForPause < settings.defaultIdleForStop) :
    (∀ fuel json m, modelValidate lax unicode fuel json = some (.ok m) → m.lifecycle.skipPause = false →
      m.lifecycle.alwaysOn = false →
      (settings.idleForPause m.lifecycle < settings.idleForStop m.lifecycle ↔ settings.Separates m.lifecycle) ∧
      ∀ (w : World) (app : InstalledApp), w.appMetadata app.name = .ok m.toAppMeta → w.Pauses settings app →
        (settings.idleForPause m.lifecycle < settings.idleForStop m.lifecycle ∧ w.SparesPaused settings app ↔
          settings.Separates m.lifecycle ∧ w.idle app.name < settings.idleForStop m.lifecycle)) ∧
    ∀ members version idleTimeForShutdown old, version ∈ ["1.0", "1.1", "1.2"] →
      (PyDict.ofPairs members).get "v" = some (.string version) →
      Legacy ((PyDict.ofPairs members).get "lifecycle") false idleTimeForShutdown →
      FullAppMeta.validate lax (withoutLifecycle version (PyDict.ofPairs members)) = .ok old →
      ∃ m, (∀ fuel, 4 ≤ fuel → modelValidate lax unicode fuel (.object members) = some (.ok m)) ∧
        (settings.idleForPause m.lifecycle < settings.idleForStop m.lifecycle ↔
          ∀ t ∈ idleTimeForShutdown, t < settings.defaultIdleForStop) ∧
        ∀ (w : World) (app : InstalledApp), w.appMetadata app.name = .ok m.toAppMeta → w.Pauses settings app →
          (settings.idleForPause m.lifecycle < settings.idleForStop m.lifecycle ∧ w.SparesPaused settings app ↔
            (∀ t ∈ idleTimeForShutdown, t < settings.defaultIdleForStop) ∧
              w.idle app.name < settings.defaultIdleForStop) := by
  constructor
  · intro fuel json m _ _ _
    have horder : settings.idleForPause m.lifecycle < settings.idleForStop m.lifecycle ↔
        settings.Separates m.lifecycle := idleForPause_lt_iff hdefaults
    exact ⟨horder, fun w app hmeta h => and_congr horder (sparesPaused_iff hmeta h)⟩
  · intro members version idle old hversion h hlegacy hold
    obtain ⟨m, hm, hupgrade⟩ := AppMetas.validate_old unicode hversion h hlegacy hold
    have horder := (idleForPause_lt_iff hdefaults).trans (separates_upgrade hupgrade)
    have hstop : settings.idleForStop m.lifecycle = settings.defaultIdleForStop := by
      rw [Settings.idleForStop, hupgrade.idle_for_stop]
      rfl
    refine ⟨m, hm, horder, fun w app hmeta h => and_congr horder ?_⟩
    rw [← hstop]
    exact sparesPaused_iff hmeta h

/-- Pause after a minute, stop after three hours: the defaults of `AppLifecycleSettings`, with pausing switched on. -/
def Settings.pausing : Settings := ⟨true, 10, 60, 10800⟩

/-- A file of version 1.2 that is shut down after this time. -/
def shutDownAfter (t : ℤ) : List (String × Json) :=
  [("v", .string "1.2"), ("app_version", .string "1.0.0"), ("name", .string "notes"),
    ("pretty_name", .string "Notes"), ("icon", .string "icon.svg"), ("entrypoints", .array []), ("paths", .object []),
    ("lifecycle", .object [("always_on", .bool false), ("idle_time_for_shutdown", .number t)])]

theorem legacy_shutDownAfter {t : ℤ} (h : 5 ≤ t) :
    Legacy ((PyDict.ofPairs (shutDownAfter t)).get "lifecycle") false (some t) :=
  .object _ _ _ (.inl rfl) (.inl ⟨t, h, rfl, rfl⟩) rfl rfl rfl

theorem exists_old (t : ℤ) : ∃ old,
    FullAppMeta.validate AppMetas.strict (withoutLifecycle "1.2" (PyDict.ofPairs (shutDownAfter t))) = .ok old :=
  ⟨_, rfl⟩

/-- What a tick finds, a day after the epoch, where the app has been idle for this time. -/
def idleFor (idle : ℚ) (m : FullAppMeta) : World where
  installedApps := ⟨[{ name := "notes", status := .running }], List.nodup_singleton _⟩
  appMetadata _ := .ok m.toAppMeta
  psi := 0
  clock := 86400
  lastAccessDict _ := some (86400 - idle)

/-- An app that was shut down after an hour is paused then, and stopped two hours later. -/
theorem pause_before_stop : ∃ m,
    (∀ fuel, 4 ≤ fuel → modelValidate AppMetas.strict .ascii fuel (.object (shutDownAfter 3600)) = some (.ok m)) ∧
    (idleFor 3600 m).Pauses .pausing { name := "notes", status := .running } ∧
    Settings.pausing.idleForPause m.lifecycle < Settings.pausing.idleForStop m.lifecycle ∧
    (idleFor 3600 m).SparesPaused .pausing { name := "notes", status := .running } := by
  obtain ⟨old, hold⟩ := exists_old 3600
  obtain ⟨m, hm, -, hspares⟩ := (pause_before_stop_iff .ascii AppMetas.strict .pausing (by decide)).2
    (shutDownAfter 3600) "1.2" (some 3600) old (by decide) rfl (legacy_shutDownAfter (by decide)) hold
  obtain ⟨m', hm', hupgrade⟩ := AppMetas.validate_old .ascii (by decide : "1.2" ∈ ["1.0", "1.1", "1.2"]) rfl
    (legacy_shutDownAfter (t := 3600) (by decide)) hold
  obtain rfl : m = m' := Except.ok.inj (Option.some.inj ((hm 4 le_rfl).symm.trans (hm' 4 le_rfl)))
  have hidle : (idleFor 3600 m).idle "notes" = 3600 := sub_sub_cancel _ _
  have hpauses : (idleFor 3600 m).Pauses .pausing { name := "notes", status := .running } := by
    refine (pauses_iff rfl).mpr ⟨⟨rfl, hupgrade.always_on⟩, ⟨rfl, hupgrade.skip_pause⟩, rfl, ?_⟩
    rw [hidle, Settings.idleForPause]
    change ((m.lifecycle.idleForPause.getD 60 : ℤ) : ℚ) ≤ 3600
    rw [hupgrade.idle_for_pause]
    decide +kernel
  refine ⟨m, hm, hpauses, (hspares _ _ rfl hpauses).mpr ⟨fun t ht => ?_, ?_⟩⟩
  · obtain rfl := Option.some.inj ht
    decide
  · rw [hidle]
    decide +kernel

/-- An app that was shut down after six hours is paused then, and at the same time it is due for a stop. -/
theorem pause_after_stop : ∃ m,
    (∀ fuel, 4 ≤ fuel → modelValidate AppMetas.strict .ascii fuel (.object (shutDownAfter 21600)) = some (.ok m)) ∧
    m.lifecycle.skipPause = false ∧ m.lifecycle.alwaysOn = false ∧
    Settings.pausing.defaultIdleForPause < Settings.pausing.defaultIdleForStop ∧
    ¬ Settings.pausing.idleForPause m.lifecycle < Settings.pausing.idleForStop m.lifecycle ∧
    (idleFor 21600 m).Pauses .pausing { name := "notes", status := .running } ∧
    .dockerStopApp "notes" ∈
      (idleFor 21600 m).issues (controlAppTime .pausing true { name := "notes", status := .paused }) := by
  obtain ⟨old, hold⟩ := exists_old 21600
  obtain ⟨m, hm, hupgrade⟩ := AppMetas.validate_old .ascii (by decide : "1.2" ∈ ["1.0", "1.1", "1.2"]) rfl
    (legacy_shutDownAfter (t := 21600) (by decide)) hold
  have hpause : Settings.pausing.idleForPause m.lifecycle = 21600 := by
    have hset : m.lifecycle.idleForPause = some 21600 := hupgrade.idle_for_pause
    rw [Settings.idleForPause, hset]
    rfl
  have hstop : Settings.pausing.idleForStop m.lifecycle = 10800 := by
    rw [Settings.idleForStop, hupgrade.idle_for_stop]
    rfl
  have hidle : (idleFor 21600 m).idle "notes" = 21600 := sub_sub_cancel _ _
  have hpauses : (idleFor 21600 m).Pauses .pausing { name := "notes", status := .running } := by
    refine (pauses_iff rfl).mpr ⟨⟨rfl, hupgrade.always_on⟩, ⟨rfl, hupgrade.skip_pause⟩, rfl, ?_⟩
    rw [hidle, hpause]
    decide +kernel
  refine ⟨m, hm, hupgrade.skip_pause, hupgrade.always_on, by decide, ?_, hpauses, ?_⟩
  · rw [hpause, hstop]
    decide
  · have hafter : (idleFor 21600 m).after 0 = idleFor 21600 m := by
      rw [World.after, add_zero]
    have hstops := (issues_paused rfl hpauses 0).mpr (by
      rw [hidle, hstop]
      decide +kernel)
    rwa [hafter] at hstops

end Freeshard.Lifecycle

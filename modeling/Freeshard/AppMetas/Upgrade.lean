import Freeshard.DataModel.AppMetaModel

/-! # Old app metadata

What `AppMeta.model_validate` makes of the files of every version: the migrations up to the current one, and then the
validation of their result. -/

namespace Freeshard.AppMetas
open Sql (Json)
set_option autoImplicit false

variable {lax : LaxMode} {unicode : CaseTables} {values values' : Values}

/-! ## Fields -/

theorem bind_eq_ok {α β : Type} {x : Except Rejection α} {f : α → Except Rejection β} {b : β} :
    (x >>= f) = .ok b ↔ ∃ a, x = .ok a ∧ f a = .ok b := by
  cases x with
  | error e => exact ⟨fun h => (by cases h), fun ⟨_, h, _⟩ => (by cases h)⟩
  | ok a =>
    constructor
    · intro h
      exact ⟨a, rfl, h⟩
    · rintro ⟨_, h, hf⟩
      cases h
      exact hf

section Fields
variable {α : Type} {key : String} {field : Json → Except Rejection α}

theorem required_congr (h : values'.get key = values.get key) : required values' key field = required values key field := by
  unfold required
  rw [h]

theorem withDefault_congr {default : α} (h : values'.get key = values.get key) :
    withDefault values' key default field = withDefault values key default field := by
  unfold withDefault
  rw [h]

theorem required_eq {json : Json} (h : values.get key = some json) : required values key field = field json := by
  unfold required
  rw [h]

theorem withDefault_eq {default : α} {json : Json} (h : values.get key = some json) :
    withDefault values key default field = field json := by
  unfold withDefault
  rw [h]

theorem withDefault_none {default : α} (h : values.get key = none) :
    withDefault values key default field = .ok default := by
  unfold withDefault
  rw [h]

theorem get_of_required {s : String} (h : required values key strField = .ok s) :
    values.get key = some (.string s) := by
  unfold required at h
  cases hget : values.get key with
  | none =>
    rw [hget] at h
    cases h
  | some json =>
    rw [hget] at h
    cases json <;> cases h
    rfl

end Fields

/-- Field by field the values hold this. -/
structure Reads (lax : LaxMode) (values : Values) (m : FullAppMeta) : Prop where
  v : required values "v" strField = .ok m.v
  app_version : required values "app_version" strField = .ok m.appVersion
  upstream_repo : withDefault values "upstream_repo" none (optional strField) = .ok m.upstreamRepo
  homepage : withDefault values "homepage" none (optional strField) = .ok m.homepage
  name : required values "name" strField = .ok m.name
  pretty_name : required values "pretty_name" strField = .ok m.prettyName
  icon : required values "icon" strField = .ok m.icon
  entrypoints : required values "entrypoints" (listOf (modelOf (Entrypoint.validate lax))) = .ok m.entrypoints
  paths : required values "paths" (dictOf (modelOf Path.validate)) = .ok ⟨m.paths, m.paths_nodup⟩
  lifecycle : withDefault values "lifecycle" {} (modelOf (Lifecycle.validate lax)) = .ok m.lifecycle
  minimum_portal_size : withDefault values "minimum_portal_size" .xs (enumField vmSizes) = .ok m.minimumPortalSize
  store_info : withDefault values "store_info" none (optional (modelOf (StoreInfo.validate lax))) = .ok m.storeInfo

theorem validate_ok_iff {m : FullAppMeta} : FullAppMeta.validate lax values = .ok m ↔ Reads lax values m := by
  unfold FullAppMeta.validate
  simp only [bind_eq_ok]
  constructor
  · rintro ⟨v, hv, appVersion, happVersion, upstreamRepo, hupstreamRepo, homepage, hhomepage, name, hname, prettyName,
      hprettyName, icon, hicon, entrypoints, hentrypoints, paths, hpaths, lifecycle, hlifecycle, minimumPortalSize,
      hminimumPortalSize, storeInfo, hstoreInfo, h⟩
    cases h
    exact ⟨hv, happVersion, hupstreamRepo, hhomepage, hname, hprettyName, hicon, hentrypoints, hpaths, hlifecycle,
      hminimumPortalSize, hstoreInfo⟩
  · intro h
    exact ⟨_, h.v, _, h.app_version, _, h.upstream_repo, _, h.homepage, _, h.name, _, h.pretty_name, _, h.icon, _,
      h.entrypoints, _, h.paths, _, h.lifecycle, _, h.minimum_portal_size, _, h.store_info, rfl⟩

theorem Reads.update {m : FullAppMeta} (h : Reads lax values m) {version prettyName : String}
    {lifecycle : Lifecycle} {object : Values} (hversion : values'.get "v" = some (.string version))
    (hprettyName : required values' "pretty_name" strField = .ok prettyName)
    (hobject : values'.get "lifecycle" = some (.object object.entries))
    (hlifecycle : Lifecycle.validate lax object = .ok lifecycle)
    (hrest : ∀ key, key ≠ "v" → key ≠ "pretty_name" → key ≠ "lifecycle" → values'.get key = values.get key) :
    Reads lax values' { m with v := version, prettyName, lifecycle } where
  v := required_eq hversion
  app_version := (required_congr (hrest _ (by decide) (by decide) (by decide))).trans h.app_version
  upstream_repo := (withDefault_congr (hrest _ (by decide) (by decide) (by decide))).trans h.upstream_repo
  homepage := (withDefault_congr (hrest _ (by decide) (by decide) (by decide))).trans h.homepage
  name := (required_congr (hrest _ (by decide) (by decide) (by decide))).trans h.name
  pretty_name := hprettyName
  icon := (required_congr (hrest _ (by decide) (by decide) (by decide))).trans h.icon
  entrypoints := (required_congr (hrest _ (by decide) (by decide) (by decide))).trans h.entrypoints
  paths := (required_congr (hrest _ (by decide) (by decide) (by decide))).trans h.paths
  lifecycle := by
    rw [withDefault_eq hobject, modelOf, PyDict.ofPairs_entries]
    exact hlifecycle
  minimum_portal_size :=
    (withDefault_congr (hrest _ (by decide) (by decide) (by decide))).trans h.minimum_portal_size
  store_info := (withDefault_congr (hrest _ (by decide) (by decide) (by decide))).trans h.store_info

/-! ## The lifecycle -/

/-- The lifecycle of the versions before 1.3: absent, `null`, or an object in which the fields of the current one that
are not `always_on` are absent. -/
inductive Legacy : Option Json → (alwaysOn : Bool) → (idleTimeForShutdown : Option ℤ) → Prop
  | absent : Legacy none false none
  | null : Legacy (some .null) false none
  | object (members : List (String × Json)) (alwaysOn : Bool) (idleTimeForShutdown : Option ℤ)
      (always_on : (PyDict.ofPairs members).get "always_on" = some (.bool alwaysOn) ∨
        ((PyDict.ofPairs members).get "always_on" = none ∧ alwaysOn = false))
      (idle_time_for_shutdown :
        (∃ t : ℤ, 5 ≤ t ∧ (PyDict.ofPairs members).get "idle_time_for_shutdown" = some (.number t) ∧
          idleTimeForShutdown = some t) ∨
        (((PyDict.ofPairs members).get "idle_time_for_shutdown" = some .null ∨
          (PyDict.ofPairs members).get "idle_time_for_shutdown" = none) ∧ idleTimeForShutdown = none))
      (skip_pause : (PyDict.ofPairs members).get "skip_pause" = none)
      (idle_for_pause : (PyDict.ofPairs members).get "idle_for_pause" = none)
      (idle_for_stop : (PyDict.ofPairs members).get "idle_for_stop" = none) :
      Legacy (some (.object members)) alwaysOn idleTimeForShutdown

theorem validateCombinations_ok (lifecycle : Lifecycle) :
    Lifecycle.validateCombinations lifecycle.alwaysOn lifecycle.skipPause lifecycle.idleForPause
      lifecycle.idleForStop = .ok lifecycle := by
  obtain ⟨alwaysOn, skipPause, idleForPause, idleForStop, halways, hskip, hpause, hstop, horder⟩ := lifecycle
  unfold Lifecycle.validateCombinations
  rw [dif_neg, dif_neg, dif_neg, dif_neg, dif_neg]
  · rintro ⟨t₁, ht₁, t₂, ht₂, hle⟩
    exact absurd (horder t₁ ht₁ t₂ ht₂) (Int.not_lt.mpr hle)
  · rintro ⟨t, ht, hlt⟩
    exact absurd (hstop t ht) (Int.not_le.mpr hlt)
  · rintro ⟨t, ht, hlt⟩
    exact absurd (hpause t ht) (Int.not_le.mpr hlt)
  · rintro ⟨h, hne⟩
    exact hne (hskip h)
  · rintro ⟨h, hset⟩
    obtain ⟨hskip', hpause', hstop'⟩ := halways h
    obtain h' | h' | h' := hset
    · exact Bool.noConfusion (hskip'.symm.trans h')
    · exact h' hpause'
    · exact h' hstop'

/-- What an old lifecycle stands for. -/
def upgraded (alwaysOn : Bool) (idleTimeForShutdown : Option ℤ) (h : ∀ t ∈ idleTimeForShutdown, 5 ≤ t) : Lifecycle where
  alwaysOn
  idleForPause := if alwaysOn then none else idleTimeForShutdown
  validate_combinations := by
    cases alwaysOn with
    | true => exact ⟨fun _ => ⟨rfl, rfl, rfl⟩, fun _ => rfl, fun _ ht => (by cases ht), fun _ ht => (by cases ht),
        fun _ ht => (by cases ht)⟩
    | false => exact ⟨fun ha => (by cases ha), fun hs => (by cases hs), h, fun _ ht => (by cases ht),
        fun _ _ _ ht => (by cases ht)⟩

theorem Legacy.ge {json : Option Json} {alwaysOn : Bool} {idleTimeForShutdown : Option ℤ}
    (h : Legacy json alwaysOn idleTimeForShutdown) : ∀ t ∈ idleTimeForShutdown, 5 ≤ t := by
  intro t ht
  cases h with
  | absent => cases ht
  | null => cases ht
  | object members _ _ _ hidle =>
    obtain ⟨t', hle, -, rfl⟩ | ⟨-, rfl⟩ := hidle
    · obtain rfl := Option.some.inj ht
      exact hle
    · cases ht

theorem validate_lifecycle {d : Values} {lifecycle : Lifecycle}
    (halways : d.get "always_on" = some (.bool lifecycle.alwaysOn) ∨
      (d.get "always_on" = none ∧ lifecycle.alwaysOn = false))
    (hskip : d.get "skip_pause" = none ∧ lifecycle.skipPause = false)
    (hpause : (∃ t : ℤ, d.get "idle_for_pause" = some (.number t) ∧ lifecycle.idleForPause = some t) ∨
      (d.get "idle_for_pause" = none ∧ lifecycle.idleForPause = none))
    (hstop : d.get "idle_for_stop" = none ∧ lifecycle.idleForStop = none) :
    Lifecycle.validate lax d = .ok lifecycle := by
  have halways' : withDefault d "always_on" false (boolField lax) = .ok lifecycle.alwaysOn := by
    obtain hget | ⟨hget, hoff⟩ := halways
    · rw [withDefault_eq hget, boolField, lax.bool_bool]
    · rw [withDefault_none hget, hoff]
  have hpause' : withDefault d "idle_for_pause" none (optional (intField lax)) = .ok lifecycle.idleForPause := by
    obtain ⟨t, hget, hset⟩ | ⟨hget, hunset⟩ := hpause
    · rw [withDefault_eq hget, hset]
      change some <$> intField lax (.number t) = _
      rw [intField, lax.int_number]
      rfl
    · rw [withDefault_none hget, hunset]
  unfold Lifecycle.validate
  rw [bind_eq_ok]
  refine ⟨_, halways', bind_eq_ok.mpr ⟨_, ?_, bind_eq_ok.mpr ⟨_, hpause', bind_eq_ok.mpr ⟨_, ?_,
    validateCombinations_ok lifecycle⟩⟩⟩⟩
  · rw [withDefault_none hskip.1, hskip.2]
  · rw [withDefault_none hstop.1, hstop.2]

theorem validate_migrated {d : Values} {alwaysOn : Bool} {idleTimeForShutdown : Option ℤ}
    (hge : ∀ t ∈ idleTimeForShutdown, 5 ≤ t)
    (halways : d.get "always_on" = some (.bool alwaysOn) ∨ (d.get "always_on" = none ∧ alwaysOn = false))
    (hidle : (∃ t : ℤ, d.get "idle_time_for_shutdown" = some (.number t) ∧ idleTimeForShutdown = some t) ∨
      ((d.get "idle_time_for_shutdown" = some .null ∨ d.get "idle_time_for_shutdown" = none) ∧
        idleTimeForShutdown = none))
    (hskip : d.get "skip_pause" = none) (hpause : d.get "idle_for_pause" = none)
    (hstop : d.get "idle_for_stop" = none) :
    Lifecycle.validate lax (migrateLifecycle d) = .ok (upgraded alwaysOn idleTimeForShutdown hge) := by
  cases alwaysOn with
  | true =>
    have hget : d.get "always_on" = some (.bool true) := halways.resolve_right fun h => by cases h.2
    have hkept : migrateLifecycle d = d := by
      unfold migrateLifecycle
      rw [hget, if_pos (by rfl)]
    rw [hkept]
    exact validate_lifecycle (.inl hget) ⟨hskip, rfl⟩ (.inr ⟨hpause, rfl⟩) ⟨hstop, rfl⟩
  | false =>
    have hoff : ¬ (d.get "always_on").any truthy = true := by
      obtain hget | ⟨hget, -⟩ := halways
      · rw [hget]
        decide
      · rw [hget]
        decide
    have hmigrated : ∀ d' : Values, migrateLifecycle d = d' →
        (∀ key, key ≠ "idle_time_for_shutdown" → key ≠ "idle_for_pause" → d'.get key = d.get key) →
        ((∃ t : ℤ, d'.get "idle_for_pause" = some (.number t) ∧ idleTimeForShutdown = some t) ∨
          (d'.get "idle_for_pause" = none ∧ idleTimeForShutdown = none)) →
        Lifecycle.validate lax (migrateLifecycle d) = .ok (upgraded false idleTimeForShutdown hge) := by
      intro d' hd' hrest hpause'
      rw [hd']
      refine validate_lifecycle ?_ ⟨?_, rfl⟩ hpause' ⟨?_, rfl⟩
      · rw [hrest "always_on" (by decide) (by decide)]
        exact halways
      · rw [hrest "skip_pause" (by decide) (by decide)]
        exact hskip
      · rw [hrest "idle_for_stop" (by decide) (by decide)]
        exact hstop
    obtain ⟨t, hget, rfl⟩ | ⟨hget | hget, rfl⟩ := hidle
    · refine hmigrated ((d.pop "idle_time_for_shutdown").set "idle_for_pause" (.number t)) ?_ ?_ (.inl ⟨t, ?_, rfl⟩)
      · unfold migrateLifecycle
        rw [if_neg hoff, hget]
      · intro key hkey hkey'
        rw [PyDict.get_set_of_ne _ _ hkey', PyDict.get_pop, if_neg hkey]
      · exact PyDict.get_set_self ..
    · refine hmigrated (d.pop "idle_time_for_shutdown") ?_ ?_ (.inr ⟨?_, rfl⟩)
      · unfold migrateLifecycle
        rw [if_neg hoff, hget]
      · intro key hkey _
        rw [PyDict.get_pop, if_neg hkey]
      · rw [PyDict.get_pop, if_neg (by decide)]
        exact hpause
    · refine hmigrated d ?_ (fun _ _ _ => rfl) (.inr ⟨hpause, rfl⟩)
      unfold migrateLifecycle
      rw [if_neg hoff, hget]

theorem Legacy.migrated (lax : LaxMode) {alwaysOn : Bool} {idleTimeForShutdown : Option ℤ}
    (h : Legacy (values.get "lifecycle") alwaysOn idleTimeForShutdown) :
    ∃ d, lifecycleOf values = .ok d ∧
      Lifecycle.validate lax (migrateLifecycle d) = .ok (upgraded alwaysOn idleTimeForShutdown h.ge) := by
  have hge := h.ge
  have hempty : Lifecycle.validate lax (migrateLifecycle .empty) = .ok (upgraded false none fun _ ht => by cases ht) :=
    validate_lifecycle (.inr ⟨rfl, rfl⟩) ⟨rfl, rfl⟩ (.inr ⟨rfl, rfl⟩) ⟨rfl, rfl⟩
  unfold lifecycleOf
  generalize values.get "lifecycle" = json at h
  cases h with
  | absent => exact ⟨_, rfl, hempty⟩
  | null => exact ⟨_, rfl, hempty⟩
  | object members _ _ halways hidle hskip hpause hstop =>
    refine ⟨_, rfl, validate_migrated hge halways (hidle.imp_left ?_) hskip hpause hstop⟩
    rintro ⟨t, -, hget, hset⟩
    exact ⟨t, hget, hset⟩

/-! ## The loop -/

theorem item_eq {key : String} {json : Json} (h : values.get key = some json) : Values.item values key = .ok json := by
  unfold Values.item
  rw [h]

theorem migrateLoop_current {table : Migrations} (h : values.get "v" = some (.string "1.3"))
    (fuel migrationCount : ℕ) :
    migrateLoop table (fuel + 1) migrationCount values = some (migrationCount, .ok values) := by
  unfold migrateLoop round
  rw [item_eq h]
  rfl

theorem modelValidate_eq {members : List (String × Json)} {fuel count : ℕ}
    (h : migrateLoop (migrations unicode) fuel 0 (.ofPairs members) = some (count, .ok values)) :
    modelValidate lax unicode fuel (.object members) = some (FullAppMeta.validate lax values) := by
  unfold modelValidate
  dsimp only
  rw [h]
  rfl

theorem migrateLoop_migrate {table : Migrations} {version : String}
    {migrate : Values → Except Rejection Values} (h : values.get "v" = some (.string version))
    (hversion : version ≠ "1.3") (hitem : table.get version = some migrate) (hmigrate : migrate values = .ok values')
    {migrationCount : ℕ} (hcount : migrationCount ≤ table.entries.length) (fuel : ℕ) :
    migrateLoop table (fuel + 1) migrationCount values = migrateLoop table fuel (migrationCount + 1) values' := by
  have hround : round table migrationCount values = .again values' := by
    unfold round
    rw [item_eq h]
    dsimp only
    have hcurrent : isCurrent (.string version) = false := decide_eq_false hversion
    rw [if_neg (Bool.not_eq_true _ ▸ hcurrent), if_neg (Nat.not_lt.mpr hcount)]
    have hrun : (table.item (.string version) >>= fun migrate => migrate values) = .ok values' := by
      unfold Migrations.item
      dsimp only
      rw [hitem]
      exact hmigrate
    rw [hrun]
  rw [migrateLoop, hround]

variable {d : Values}

/-- The object of version 1.3 that the migration of an object of version 1.2 is. -/
theorem migrate_1_2 (h : lifecycleOf values = .ok d) : migrate_1_2_to_1_3 values =
    .ok ((values.set "lifecycle" (.object (migrateLifecycle d).entries)).set "v" (.string "1.3")) := by
  unfold migrate_1_2_to_1_3
  rw [h]
  rfl

theorem lifecycleOf_congr (h : values'.get "lifecycle" = values.get "lifecycle") :
    lifecycleOf values' = lifecycleOf values := by
  unfold lifecycleOf
  rw [h]

/-- The outcome of the loop for an old object. -/
structure Migrated (unicode : CaseTables) (version : String) (values d values' : Values) : Prop where
  v : values'.get "v" = some (.string "1.3")
  lifecycle : values'.get "lifecycle" = some (.object (migrateLifecycle d).entries)
  titled : version = "1.0" → ∀ name, values.get "name" = some (.string name) →
    values'.get "pretty_name" = some (.string (unicode.title name))
  pretty_name : version ≠ "1.0" → values'.get "pretty_name" = values.get "pretty_name"
  rest : ∀ key, key ≠ "v" → key ≠ "pretty_name" → key ≠ "lifecycle" → values'.get key = values.get key

theorem migrateLoop_1_2 (unicode : CaseTables) (migrationCount : ℕ) (h : values.get "v" = some (.string "1.2")) (hd : lifecycleOf values = .ok d)
    (hcount : migrationCount ≤ 3) : ∃ values', Migrated unicode "1.2" values d values' ∧
      ∀ fuel, migrateLoop (migrations unicode) (fuel + 2) migrationCount values =
        some (migrationCount + 1, .ok values') := by
  refine ⟨(values.set "lifecycle" (.object (migrateLifecycle d).entries)).set "v" (.string "1.3"),
    ⟨PyDict.get_set_self .., ?_, ?_, fun _ => ?_, fun key hv _ hlifecycle => ?_⟩, fun fuel => ?_⟩
  · rw [PyDict.get_set_of_ne _ _ (by decide), PyDict.get_set_self]
  · intro h10
    exact absurd h10 (by decide)
  · rw [PyDict.get_set_of_ne _ _ (by decide), PyDict.get_set_of_ne _ _ (by decide)]
  · rw [PyDict.get_set_of_ne _ _ hv, PyDict.get_set_of_ne _ _ hlifecycle]
  · rw [migrateLoop_migrate h (by decide) rfl (migrate_1_2 hd) hcount,
      migrateLoop_current (PyDict.get_set_self ..)]

theorem migrateLoop_1_1 (unicode : CaseTables) (migrationCount : ℕ) (h : values.get "v" = some (.string "1.1")) (hd : lifecycleOf values = .ok d)
    (hcount : migrationCount ≤ 2) : ∃ values', Migrated unicode "1.1" values d values' ∧
      ∀ fuel, migrateLoop (migrations unicode) (fuel + 3) migrationCount values =
        some (migrationCount + 2, .ok values') := by
  have hd' : lifecycleOf (values.set "v" (.string "1.2")) = .ok d :=
    (lifecycleOf_congr (PyDict.get_set_of_ne _ _ (by decide))).trans hd
  obtain ⟨values', hmigrated, hloop⟩ := migrateLoop_1_2 unicode _ (PyDict.get_set_self ..) hd'
    (Nat.succ_le_succ hcount)
  refine ⟨values', ⟨hmigrated.v, hmigrated.lifecycle, ?_, fun _ => ?_, fun key hv hpretty hlifecycle => ?_⟩,
    fun fuel => ?_⟩
  · intro h10
    exact absurd h10 (by decide)
  · rw [hmigrated.pretty_name (by decide), PyDict.get_set_of_ne _ _ (by decide)]
  · rw [hmigrated.rest key hv hpretty hlifecycle, PyDict.get_set_of_ne _ _ hv]
  · have hmigrate : migrate_1_1_to_1_2 values = .ok (values.set "v" (.string "1.2")) := rfl
    rw [migrateLoop_migrate h (by decide) rfl hmigrate (Nat.le_succ_of_le hcount)]
    exact hloop fuel

theorem migrateLoop_1_0 (unicode : CaseTables) (h : values.get "v" = some (.string "1.0")) (hd : lifecycleOf values = .ok d)
    {name : String} (hname : values.get "name" = some (.string name)) :
    ∃ values', Migrated unicode "1.0" values d values' ∧
      ∀ fuel, migrateLoop (migrations unicode) (fuel + 4) 0 values = some (3, .ok values') := by
  let titled := (values.set "v" (.string "1.1")).set "pretty_name" (.string (unicode.title name))
  have hget : ∀ key, key ≠ "v" → key ≠ "pretty_name" → titled.get key = values.get key := by
    intro key hv hpretty
    rw [PyDict.get_set_of_ne _ _ hpretty, PyDict.get_set_of_ne _ _ hv]
  have hv : titled.get "v" = some (.string "1.1") := by
    rw [PyDict.get_set_of_ne _ _ (by decide), PyDict.get_set_self]
  have hmigrate : migrate_1_0_to_1_1 unicode values = .ok titled := by
    have hname' : (values.set "v" (.string "1.1")).get "name" = some (.string name) := by
      rw [PyDict.get_set_of_ne _ _ (by decide), hname]
    unfold migrate_1_0_to_1_1
    dsimp only
    rw [item_eq hname']
    rfl
  obtain ⟨values', hmigrated, hloop⟩ := migrateLoop_1_1 unicode 1 hv
    ((lifecycleOf_congr (hget _ (by decide) (by decide))).trans hd) (by omega)
  refine ⟨values', ⟨hmigrated.v, hmigrated.lifecycle, fun _ other hother => ?_, fun h10 => absurd rfl h10,
    fun key hv hpretty hlifecycle => ?_⟩, fun fuel => ?_⟩
  · rw [hname] at hother
    obtain rfl := Json.string.inj (Option.some.inj hother)
    rw [hmigrated.pretty_name (by decide), PyDict.get_set_self]
  · rw [hmigrated.rest key hv hpretty hlifecycle, hget key hv hpretty]
  · rw [migrateLoop_migrate h (by decide) rfl hmigrate (Nat.zero_le _)]
    exact hloop fuel

/-! ## Main results -/

/-- The old object without its lifecycle, and with some pretty name in version 1.0. -/
def withoutLifecycle (version : String) (values : Values) : Values :=
  if version = "1.0" then (values.pop "lifecycle").set "pretty_name" (.string "") else values.pop "lifecycle"

/-- What has become of the fields `old` that an object of this version holds without its lifecycle. -/
structure Upgrade (unicode : CaseTables) (version : String) (alwaysOn : Bool) (idleTimeForShutdown : Option ℤ)
    (old m : FullAppMeta) : Prop where
  v : m.v = "1.3"
  always_on : m.lifecycle.alwaysOn = alwaysOn
  skip_pause : m.lifecycle.skipPause = false
  idle_for_pause : m.lifecycle.idleForPause = if alwaysOn then none else idleTimeForShutdown
  idle_for_stop : m.lifecycle.idleForStop = none
  pretty_name : m.prettyName = if version = "1.0" then unicode.title old.name else old.prettyName
  rest : { m with v := old.v, lifecycle := old.lifecycle, prettyName := old.prettyName } = old

theorem validate_of_migrated {version : String} {alwaysOn : Bool} {idleTimeForShutdown : Option ℤ}
    {old : FullAppMeta} (hlegacy : Legacy (values.get "lifecycle") alwaysOn idleTimeForShutdown)
    (hd : Lifecycle.validate lax (migrateLifecycle d) = .ok (upgraded alwaysOn idleTimeForShutdown hlegacy.ge))
    (hold : FullAppMeta.validate lax (withoutLifecycle version values) = .ok old)
    (hmigrated : Migrated unicode version values d values') :
    ∃ m, FullAppMeta.validate lax values' = .ok m ∧
      Upgrade unicode version alwaysOn idleTimeForShutdown old m := by
  have hreads := validate_ok_iff.mp hold
  have hrest : ∀ key, key ≠ "pretty_name" → key ≠ "lifecycle" →
      (withoutLifecycle version values).get key = values.get key := by
    intro key hpretty hlifecycle
    unfold withoutLifecycle
    split
    · rw [PyDict.get_set_of_ne _ _ hpretty, PyDict.get_pop, if_neg hlifecycle]
    · rw [PyDict.get_pop, if_neg hlifecycle]
  have hpretty : required values' "pretty_name" strField =
      .ok (if version = "1.0" then unicode.title old.name else old.prettyName) := by
    by_cases hversion : version = "1.0"
    · have hname := hreads.name
      rw [required_congr (hrest _ (by decide) (by decide))] at hname
      rw [if_pos hversion, required_eq (hmigrated.titled hversion _ (get_of_required hname))]
      rfl
    · have hold := hreads.pretty_name
      rw [if_neg hversion, required_congr (hmigrated.pretty_name hversion), ← hold]
      unfold withoutLifecycle
      have hpop : (values.pop "lifecycle").get "pretty_name" = values.get "pretty_name" := by
        rw [PyDict.get_pop, if_neg (by decide)]
      rw [if_neg hversion, required_congr hpop]
  refine ⟨_, validate_ok_iff.mpr (hreads.update hmigrated.v hpretty hmigrated.lifecycle hd fun key hv hp hl => ?_),
    rfl, rfl, rfl, rfl, rfl, rfl, rfl⟩
  rw [hmigrated.rest key hv hp hl, hrest key hp hl]

theorem migrateLoop_old (unicode : CaseTables) {version : String} (hversion : version ∈ ["1.0", "1.1", "1.2"])
    (h : values.get "v" = some (.string version)) (hd : lifecycleOf values = .ok d) {name : String}
    (hname : values.get "name" = some (.string name)) : ∃ values', Migrated unicode version values d values' ∧
      ∀ fuel, 4 ≤ fuel → ∃ count, migrateLoop (migrations unicode) fuel 0 values = some (count, .ok values') := by
  have henough : ∀ {values' : Values} {least count : ℕ}, least ≤ 4 →
      migrateLoop (migrations unicode) least 0 values = some (count, .ok values') →
      ∀ fuel, 4 ≤ fuel → ∃ count, migrateLoop (migrations unicode) fuel 0 values = some (count, .ok values') :=
    fun hleast hloop _ hfuel => ⟨_, migrateLoop_mono hloop (Nat.le_trans hleast hfuel)⟩
  rw [List.mem_cons, List.mem_cons, List.mem_singleton] at hversion
  obtain rfl | rfl | rfl := hversion
  · obtain ⟨values', hmigrated, hloop⟩ := migrateLoop_1_0 unicode h hd hname
    exact ⟨values', hmigrated, henough (by decide) (hloop 0)⟩
  · obtain ⟨values', hmigrated, hloop⟩ := migrateLoop_1_1 unicode 0 h hd (by decide)
    exact ⟨values', hmigrated, henough (by decide) (hloop 0)⟩
  · obtain ⟨values', hmigrated, hloop⟩ := migrateLoop_1_2 unicode 0 h hd (by decide)
    exact ⟨values', hmigrated, henough (by decide) (hloop 0)⟩

theorem validate_old (unicode : CaseTables) {members : List (String × Json)} {version : String} {alwaysOn : Bool}
    {idleTimeForShutdown : Option ℤ} {old : FullAppMeta} (hversion : version ∈ ["1.0", "1.1", "1.2"])
    (h : (PyDict.ofPairs members).get "v" = some (.string version))
    (hlegacy : Legacy ((PyDict.ofPairs members).get "lifecycle") alwaysOn idleTimeForShutdown)
    (hold : FullAppMeta.validate lax (withoutLifecycle version (PyDict.ofPairs members)) = .ok old) :
    ∃ m, (∀ fuel, 4 ≤ fuel → modelValidate lax unicode fuel (.object members) = some (.ok m)) ∧
      Upgrade unicode version alwaysOn idleTimeForShutdown old m := by
  generalize hvalues : PyDict.ofPairs members = values at *
  obtain ⟨d, hd, hlifecycle⟩ := hlegacy.migrated lax
  have hname : values.get "name" = some (.string old.name) := by
    have hread := get_of_required (validate_ok_iff.mp hold).name
    unfold withoutLifecycle at hread
    split at hread
    · rwa [PyDict.get_set_of_ne _ _ (by decide), PyDict.get_pop, if_neg (by decide)] at hread
    · rwa [PyDict.get_pop, if_neg (by decide)] at hread
  obtain ⟨values', hmigrated, hloop⟩ := migrateLoop_old unicode hversion h hd hname
  obtain ⟨m, hm, hupgrade⟩ := validate_of_migrated hlegacy hlifecycle hold hmigrated
  refine ⟨m, fun fuel hfuel => ?_, hupgrade⟩
  obtain ⟨count, hcount⟩ := hloop fuel hfuel
  rw [modelValidate_eq (hvalues.symm ▸ hcount), hm]

/-- What converts nothing but integers and booleans. -/
def strict : LaxMode where
  int
    | .number n => if n.isInt then some n.num else none
    | _ => none
  bool
    | .bool b => some b
    | _ => none
  int_number _ := if_pos rfl
  bool_bool _ := rfl

/-- An app of version 1.0 that is shut down after an hour. -/
def notes : List (String × Json) :=
  [("v", .string "1.0"), ("app_version", .string "1.0.0"), ("name", .string "notes"), ("icon", .string "icon.svg"),
    ("entrypoints", .array []), ("paths", .object []),
    ("lifecycle", .object [("always_on", .bool false), ("idle_time_for_shutdown", .number 3600)])]

end Freeshard.AppMetas

import Freeshard.DataModel.AppMetaMigration

/-! # Validation of app metadata

The models of `data_model/app_meta.py` as pydantic validates them. The field that is rejected first decides; pydantic
goes on and reports the others with it. -/

namespace Freeshard
open Sql (Json)
set_option autoImplicit false

/-! ## Fields -/

/-- How pydantic converts what is given for an `int` or a `bool`: itself, and some strings and numbers. -/
structure LaxMode where
  int : Json → Option ℤ
  bool : Json → Option Bool
  int_number : ∀ n : ℤ, int (.number n) = some n
  bool_bool : ∀ b : Bool, bool (.bool b) = some b

section Fields
variable {α : Type} (lax : LaxMode)

def invalid (text : String) : Except Rejection α := .error (.validationError text)

def strField : Json → Except Rejection String
  | .string s => .ok s
  | _ => invalid "Input should be a valid string"

def intField (json : Json) : Except Rejection ℤ :=
  match lax.int json with
  | some n => .ok n
  | none => invalid "Input should be a valid integer"

def boolField (json : Json) : Except Rejection Bool :=
  match lax.bool json with
  | some b => .ok b
  | none => invalid "Input should be a valid boolean"

/-- `Optional[...]`. -/
def optional (field : Json → Except Rejection α) : Json → Except Rejection (Option α)
  | .null => .ok none
  | json => some <$> field json

/-- `List[...]`. -/
def listOf (field : Json → Except Rejection α) : Json → Except Rejection (List α)
  | .array elements => elements.mapM field
  | _ => invalid "Input should be a valid list"

/-- `Dict[str, ...]`. -/
def dictOf (field : Json → Except Rejection α) : Json → Except Rejection (PyDict α)
  | .object members => do
    let entries ← (PyDict.ofPairs members).entries.mapM fun entry => return (entry.1, ← field entry.2)
    return .ofPairs entries
  | _ => invalid "Input should be a valid dictionary"

/-- The members of an enumeration by their values. -/
def enumField (members : List (String × α)) : Json → Except Rejection α
  | .string s =>
    match members.lookup s with
    | some member => .ok member
    | none => invalid "Input should be a member of the enumeration"
  | _ => invalid "Input should be a member of the enumeration"

def required (values : Values) (key : String) (field : Json → Except Rejection α) : Except Rejection α :=
  match values.get key with
  | some json => field json
  | none => invalid "Field required"

def withDefault (values : Values) (key : String) (default : α) (field : Json → Except Rejection α) :
    Except Rejection α :=
  match values.get key with
  | some json => field json
  | none => .ok default

end Fields

/-! ## Models -/

/-- `Optional[Union[str, List[str]]]`, without the `Optional`. -/
def strOrList : Json → Except Rejection (String ⊕ List String)
  | .string s => .ok (.inl s)
  | json => .inr <$> listOf strField json

structure StoreInfo where
  descriptionShort : Option String := none
  descriptionLong : Option (String ⊕ List String) := none
  hint : Option (String ⊕ List String) := none
  isFeatured : Option Bool := none
  deriving DecidableEq

/-- `AppMeta` with the fields that only clients read. -/
structure FullAppMeta extends AppMeta where
  v : String
  appVersion : String
  upstreamRepo : Option String := none
  homepage : Option String := none
  prettyName : String
  icon : String
  storeInfo : Option StoreInfo := none
  deriving DecidableEq

/-- What a model makes of an object. -/
def modelOf {α : Type} (validate : Values → Except Rejection α) : Json → Except Rejection α
  | .object members => validate (.ofPairs members)
  | _ => invalid "Input should be a valid dictionary or instance"

variable (lax : LaxMode)

def StoreInfo.validate (values : Values) : Except Rejection StoreInfo := do
  let descriptionShort ← withDefault values "description_short" none (optional strField)
  let descriptionLong ← withDefault values "description_long" none (optional strOrList)
  let hint ← withDefault values "hint" none (optional strOrList)
  let isFeatured ← withDefault values "is_featured" none (optional (boolField lax))
  return { descriptionShort, descriptionLong, hint, isFeatured }

def Path.validate (values : Values) : Except Rejection Path := do
  let access ← required values "access"
    (enumField [("public", .PUBLIC), ("private", .PRIVATE), ("peer", .PEER)])
  let headers ← withDefault values "headers" none (optional (dictOf strField))
  return { access, headers := headers.map (·.entries) }

def Entrypoint.validate (values : Values) : Except Rejection Entrypoint := do
  let containerName ← required values "container_name" strField
  let containerPort ← required values "container_port" (intField lax)
  let entrypointPort ← required values "entrypoint_port"
    (enumField [("http", .HTTPS_443), ("mqtt", .MQTTS_1883)])
  return { containerName, containerPort, entrypointPort }

theorem Lifecycle.combinations_valid {alwaysOn skipPause : Bool} {idleForPause idleForStop : Option ℤ}
    (h₁ : ¬ (alwaysOn = true ∧ (skipPause = true ∨ idleForPause ≠ none ∨ idleForStop ≠ none)))
    (h₂ : ¬ (skipPause = true ∧ idleForPause ≠ none)) (h₃ : ¬ ∃ t ∈ idleForPause, t < 5)
    (h₄ : ¬ ∃ t ∈ idleForStop, t < 5) (h₅ : ¬ ∃ t₁ ∈ idleForPause, ∃ t₂ ∈ idleForStop, t₂ ≤ t₁) :
    (alwaysOn = true → skipPause = false ∧ idleForPause = none ∧ idleForStop = none) ∧
    (skipPause = true → idleForPause = none) ∧ (∀ t ∈ idleForPause, 5 ≤ t) ∧
    (∀ t ∈ idleForStop, 5 ≤ t) ∧ (∀ t₁ ∈ idleForPause, ∀ t₂ ∈ idleForStop, t₁ < t₂) := by
  refine ⟨fun halways => ?_, fun hskip => ?_, fun t ht => ?_, fun t ht => ?_, fun t₁ ht₁ t₂ ht₂ => ?_⟩
  · have hnone : ¬ (skipPause = true ∨ idleForPause ≠ none ∨ idleForStop ≠ none) := fun h => h₁ ⟨halways, h⟩
    rw [not_or, not_or, not_not, not_not, Bool.not_eq_true] at hnone
    exact hnone
  · by_contra hpause
    exact h₂ ⟨hskip, hpause⟩
  · by_contra hlt
    exact h₃ ⟨t, ht, Int.lt_of_not_ge hlt⟩
  · by_contra hlt
    exact h₄ ⟨t, ht, Int.lt_of_not_ge hlt⟩
  · by_contra hle
    exact h₅ ⟨t₁, ht₁, t₂, ht₂, Int.not_lt.mp hle⟩

theorem Lifecycle.defaults_valid :
    (false = true → false = false ∧ (none : Option ℤ) = none ∧ (none : Option ℤ) = none) ∧
    (false = true → (none : Option ℤ) = none) ∧ (∀ t ∈ (none : Option ℤ), 5 ≤ t) ∧
    (∀ t ∈ (none : Option ℤ), 5 ≤ t) ∧ (∀ t₁ ∈ (none : Option ℤ), ∀ t₂ ∈ (none : Option ℤ), t₁ < t₂) := by
  decide

/-- `validate_combinations`. -/
def Lifecycle.validateCombinations (alwaysOn skipPause : Bool) (idleForPause idleForStop : Option ℤ) :
    Except Rejection Lifecycle :=
  if h₁ : alwaysOn = true ∧ (skipPause = true ∨ idleForPause ≠ none ∨ idleForStop ≠ none) then
    invalid "if always_on is true, no other lifecycle field may be set"
  else if h₂ : skipPause = true ∧ idleForPause ≠ none then
    invalid "skip_pause and idle_for_pause are mutually exclusive"
  else if h₃ : ∃ t ∈ idleForPause, t < 5 then
    invalid ("idle_for_pause must be at least 5, was " ++ toString (idleForPause.getD 0))
  else if h₄ : ∃ t ∈ idleForStop, t < 5 then
    invalid ("idle_for_stop must be at least 5, was " ++ toString (idleForStop.getD 0))
  else if h₅ : ∃ t₁ ∈ idleForPause, ∃ t₂ ∈ idleForStop, t₂ ≤ t₁ then
    invalid "idle_for_pause must be less than idle_for_stop"
  else .ok
    { alwaysOn, skipPause, idleForPause, idleForStop
      validate_combinations := Lifecycle.combinations_valid h₁ h₂ h₃ h₄ h₅ }

def Lifecycle.validate (values : Values) : Except Rejection Lifecycle := do
  let alwaysOn ← withDefault values "always_on" false (boolField lax)
  let skipPause ← withDefault values "skip_pause" false (boolField lax)
  let idleForPause ← withDefault values "idle_for_pause" none (optional (intField lax))
  let idleForStop ← withDefault values "idle_for_stop" none (optional (intField lax))
  Lifecycle.validateCombinations alwaysOn skipPause idleForPause idleForStop

def vmSizes : List (String × VMSize) := [("xs", .xs), ("s", .s), ("m", .m), ("l", .l), ("xl", .xl)]

/-- The fields of `AppMeta`. -/
def FullAppMeta.validate (values : Values) : Except Rejection FullAppMeta := do
  let v ← required values "v" strField
  let appVersion ← required values "app_version" strField
  let upstreamRepo ← withDefault values "upstream_repo" none (optional strField)
  let homepage ← withDefault values "homepage" none (optional strField)
  let name ← required values "name" strField
  let prettyName ← required values "pretty_name" strField
  let icon ← required values "icon" strField
  let entrypoints ← required values "entrypoints" (listOf (modelOf (Entrypoint.validate lax)))
  let paths ← required values "paths" (dictOf (modelOf Path.validate))
  let lifecycle ← withDefault values "lifecycle" { validate_combinations := Lifecycle.defaults_valid }
    (modelOf (Lifecycle.validate lax))
  let minimumPortalSize ← withDefault values "minimum_portal_size" .xs (enumField vmSizes)
  let storeInfo ← withDefault values "store_info" none (optional (modelOf (StoreInfo.validate lax)))
  return { v, appVersion, upstreamRepo, homepage, name, prettyName, icon, entrypoints, paths := paths.entries
           paths_nodup := paths.nodup, lifecycle, minimumPortalSize, storeInfo }

/-- `AppMeta.model_validate`; `none` if the fuel does not suffice. Only of a `dict` the version can be read. -/
def modelValidate (unicode : CaseTables) (fuel : ℕ) : Json → Option (Except Rejection FullAppMeta)
  | .object members =>
    (migrateLoop (migrations unicode) fuel 0 (.ofPairs members)).map fun r => r.2 >>= FullAppMeta.validate lax
  | _ => some (.error (.other "TypeError"))

end Freeshard

import Mathlib.Tactic.Common

/-! # Identities

`data_model/identity.py`: a row of `identities`, the validated record it is loaded into, and the part of it
that apps get to see. -/

namespace Freeshard
set_option autoImplicit false

/-- A row of `identities`. -/
structure IdentityRow where
  id : String
  name : Option String
  email : Option String
  description : Option String
  privateKey : Option String
  isDefault : Bool
  deriving DecidableEq, Repr

structure Identity where
  id : String
  name : String
  email : Option String
  description : Option String
  privateKey : String
  isDefault : Bool
  deriving DecidableEq, Repr

structure SafeIdentity where
  domain : String
  id : String
  publicKeyPem : String
  deriving DecidableEq, Repr

/-- A text that Python takes for true. -/
def truthyText (text : Option String) : Option String := text.filter (· ≠ "")

/-- The field validator `validate_email`, where `email_validator.validate_email` accepts these addresses. It looks the
domain up each time, so an address that has been accepted once can be rejected later. -/
def emailOk (accepts : String → Bool) (email : Option String) : Bool := (truthyText email).all accepts

/-- `Identity(**row)`; the error names the field. -/
def IdentityRow.load (accepts : String → Bool) (row : IdentityRow) : Except String Identity :=
  match row.name, row.privateKey with
  | some name, some privateKey =>
    if emailOk accepts row.email then
      .ok ⟨row.id, name, row.email, row.description, privateKey, row.isDefault⟩
    else .error "email"
  | none, _ => .error "name"
  | _, none => .error "private_key"

/-- An identity keeps the id and the flag of its row. -/
theorem IdentityRow.of_load {accepts : String → Bool} {row : IdentityRow} {identity : Identity}
    (h : row.load accepts = .ok identity) : identity.id = row.id ∧ identity.isDefault = row.isDefault := by
  unfold load at h
  split at h
  · split at h
    · obtain rfl := Except.ok.inj h
      exact ⟨rfl, rfl⟩
    · cases h
  · cases h
  · cases h

/-- The row can be loaded. -/
def IdentityRow.Loadable (accepts : String → Bool) (row : IdentityRow) : Prop :=
  ∃ identity, row.load accepts = .ok identity

/-- The columns without which no row can be loaded are there. -/
def IdentityRow.Complete (row : IdentityRow) : Prop := row.name ≠ none ∧ row.privateKey ≠ none

theorem IdentityRow.loadable_iff {accepts : String → Bool} {row : IdentityRow} :
    row.Loadable accepts ↔ row.Complete ∧ emailOk accepts row.email = true := by
  obtain ⟨id, name, email, description, privateKey, isDefault⟩ := row
  unfold Loadable Complete load
  cases name with
  | none => simp
  | some name =>
    cases privateKey with
    | none => simp
    | some privateKey => cases emailOk accepts email <;> simp

/-- `settings().dns` and the public half of a private key, by which an identity is presented. -/
structure Presentation where
  prefixLength : ℕ
  zone : String
  publicKeyPem : String → String

/-- `Identity.domain`. -/
def Identity.domain (p : Presentation) (identity : Identity) : String :=
  String.ofList ((identity.id.toList.take p.prefixLength).map Char.toLower) ++ "." ++ p.zone

/-- `SafeIdentity.from_identity`. -/
def SafeIdentity.fromIdentity (p : Presentation) (identity : Identity) : SafeIdentity :=
  ⟨identity.domain p, identity.id, p.publicKeyPem identity.privateKey⟩

end Freeshard

import Freeshard.Coroutine.Recorded
import Freeshard.DataModel.Identity
import Freeshard.Transaction.ReadCommitted

/-! # Identities

`service/identity.py` and `put_identity` of `web/protected/identities.py`, over a table `identities` that
transactions of any number of calls use at the same time. Every `db_conn` block is one transaction on a connection
of its own; `enrich_identity_from_profile` holds one open while `update_identity` uses another. What
`email_validator.validate_email` answers is up to the domain name system at every call. -/

namespace Freeshard.Identities
open Coroutine ReadCommitted
set_option autoImplicit false

/-! ## Data -/

inductive Exn where
  | keyError (text : String)
  | typeError (text : String)
  | validationError (text : String)
  | httpException (status : ℕ)
  | databaseError (text : String)
  | other (text : String)
  deriving DecidableEq, Repr

/-- `Identity.model_dump`, as far as it has columns. -/
def toRow (identity : Identity) : IdentityRow :=
  ⟨identity.id, some identity.name, identity.email, identity.description, some identity.privateKey,
    identity.isDefault⟩

/-- A dictionary of columns; `none` for a column that it lacks. -/
structure UpdateData where
  name : Option (Option String) := none
  email : Option (Option String) := none
  description : Option (Option String) := none
  privateKey : Option (Option String) := none
  isDefault : Option Bool := none
  deriving DecidableEq, Repr

/-- The `SET` clauses. -/
def UpdateData.apply (data : UpdateData) (row : IdentityRow) : IdentityRow where
  id := row.id
  name := data.name.getD row.name
  email := data.email.getD row.email
  description := data.description.getD row.description
  privateKey := data.privateKey.getD row.privateKey
  isDefault := data.isDefault.getD row.isDefault

/-- `InputIdentity`; `none` for a field that is not set. -/
structure InputIdentity where
  id : Option (Option String) := none
  name : Option (Option String) := none
  email : Option (Option String) := none
  description : Option (Option String) := none
  deriving DecidableEq

/-- `model_dump(exclude_unset=True)` without the id. -/
def InputIdentity.updateData (i : InputIdentity) : UpdateData where
  name := i.name
  email := i.email
  description := i.description

structure Profile where
  owner : Option String
  ownerEmail : Option String
  deriving DecidableEq, Repr

/-- What `enrich_identity_from_profile` updates. -/
def Profile.updateData (profile : Profile) : UpdateData where
  name := (truthyText profile.owner).map some
  email := (truthyText profile.ownerEmail).map some

/-! ## Operations -/

/-- A call's connections: its own, and that of `update_identity` when another one is still open. -/
inductive Conn where
  | own
  | nested
  deriving DecidableEq

inductive Op where
  | connect (conn : Conn)
  | commit (conn : Conn)
  | rollback (conn : Conn)
  -- `database/identities.py`
  | getDefault (conn : Conn)
  | getById (conn : Conn) (id : String)
  | update (conn : Conn) (id : String) (data : UpdateData)
  | insert (conn : Conn) (row : IdentityRow)
  | count (conn : Conn)
  -- everything else
  | validateEmail (address : String)
  | refreshProfile
  | generatePrivateKey
  | onIdentityUpdate
  deriving DecidableEq

@[reducible] def Ans : Op → Type
  | .getDefault _ => Option IdentityRow
  | .getById _ _ => Option IdentityRow
  | .update _ _ _ => Option IdentityRow
  | .insert _ _ => IdentityRow
  | .count _ => ℕ
  | .validateEmail _ => Bool
  | .refreshProfile => Option Profile
  | .generatePrivateKey => String
  | _ => Unit

abbrev Answer (op : Op) : Type := Except Exn (Ans op)

abbrev Coro (α : Type) : Type := Prog Op Ans Exn α

abbrev awaitOp (op : Op) : Coro (Ans op) := Prog.perform op

def getDefault (conn : Conn) : Coro (Option IdentityRow) := awaitOp (.getDefault conn)

def getById (conn : Conn) (id : String) : Coro (Option IdentityRow) := awaitOp (.getById conn id)

/-- `update`; with no column to set it is `get_by_id`. -/
def update (conn : Conn) (id : String) (data : UpdateData) : Coro (Option IdentityRow) :=
  if data = {} then getById conn id else awaitOp (.update conn id data)

def insert (conn : Conn) (row : IdentityRow) : Coro IdentityRow := awaitOp (.insert conn row)

def count (conn : Conn) : Coro ℕ := awaitOp (.count conn)

def generatePrivateKey : Coro String := awaitOp .generatePrivateKey

def onIdentityUpdate : Coro Unit := awaitOp .onIdentityUpdate

def refreshProfile : Coro (Option Profile) := awaitOp .refreshProfile

/-- `async with db_conn() as conn`. -/
def dbConn {α : Type} (conn : Conn) (body : Coro α) : Coro α := do
  awaitOp (.connect conn)
  let a ← tryCatch body fun e => do
    awaitOp (.rollback conn)
    throw e
  awaitOp (.commit conn)
  return a

/-! ## Validation -/

/-- The field validator `validate_email`: whether it lets the value pass. It asks `email_validator.validate_email` for an
address that is not empty. -/
def validateEmail (email : Option String) : Coro Bool :=
  match truthyText email with
  | none => return true
  | some address => awaitOp (.validateEmail address)

/-- `Identity(**row)`. -/
def loadRow (row : IdentityRow) : Coro Identity := do
  let accepted ← validateEmail row.email
  match row.load fun _ => accepted with
  | .ok identity => return identity
  | .error field => throw (.validationError field)

/-- The body of a request, validated as an `InputIdentity`. -/
def InputIdentity.validate (i : InputIdentity) : Coro Unit := do
  if ← validateEmail i.email.join then return () else throw (.httpException 422)

/-! ## The services -/

variable (toHashId : String → String)

/-- `Identity.create`, where a private key has this hash id of its public half. -/
def create (name description email : Option String) : Coro Identity := do
  let privateKey ← generatePrivateKey
  loadRow ⟨toHashId privateKey, name, email, description, some privateKey, false⟩

/-- The description of the first identity. -/
def outdatedSaying : String :=
  "\"Noone wants to manage their own server\"\n\nOld outdated saying"

/-- `init_default_identity`. -/
def initDefaultIdentity : Coro Identity := dbConn .own do
  if (← count .own) = 0 then
    let identity ← create toHashId (some "Shard Owner") (some outdatedSaying) none
    let defaultIdentity := { identity with isDefault := true }
    let _ ← insert .own (toRow defaultIdentity)
    onIdentityUpdate
    return defaultIdentity
  else
    match ← getDefault .own with
    | some row => loadRow row
    | none => throw (.typeError "argument after ** must be a mapping, not NoneType")

/-- `make_default`. -/
def makeDefault (id : String) : Coro Unit := do
  dbConn .own do
    match ← getDefault .own with
    | none => throw (.keyError "no default identity found")
    | some lastDefaultRow =>
      match ← getById .own id with
      | none => throw (.keyError id)
      | some _ => do
        let _ ← update .own lastDefaultRow.id { isDefault := some false }
        let _ ← update .own id { isDefault := some true }
  onIdentityUpdate

/-- `update_identity`. -/
def updateIdentity (conn : Conn) (id : String) (updateData : UpdateData) : Coro Identity := do
  let updated ← dbConn conn (update conn id updateData)
  onIdentityUpdate
  match updated with
  | some row => loadRow row
  | none => throw (.typeError "argument after ** must be a mapping, not NoneType")

/-- `get_default_identity`. -/
def getDefaultIdentity : Coro Identity := do
  match ← dbConn .own (getDefault .own) with
  | some row => loadRow row
  | none => throw (.typeError "argument after ** must be a mapping, not NoneType")

/-- `enrich_identity_from_profile`. -/
def enrichIdentityFromProfile : Coro Unit := do
  match ← refreshProfile with
  | none => return ()
  | some profile => dbConn .own do
    match ← getDefault .own with
    | none => return ()
    | some default =>
      if profile.updateData = {} then return ()
      else do
        let _ ← updateIdentity .nested default.id profile.updateData

/-- `put_identity`. The keyword `id`, even null or empty, is one that `Identity.create` does not take, and the
keyword `name` one that it needs. -/
def putIdentity (i : InputIdentity) : Coro Identity :=
  match truthyText i.id.join with
  | some id => do
    let existing ← dbConn .own (getById .own id)
    if existing = none then throw (.httpException 404)
    else updateIdentity .own id i.updateData
  | none => dbConn .own do
    match i.id, i.name with
    | none, some name => do
      let newIdentity ← create toHashId name i.description.join i.email.join
      let _ ← insert .own (toRow newIdentity)
      return newIdentity
    | some _, _ => throw (.typeError "Identity.create() got an unexpected keyword argument 'id'")
    | none, none => throw (.typeError "missing 1 required positional argument: 'name'")

/-! ## Calls -/

/-- The calls of a run, any number of each kind. -/
inductive Call where
  | putIdentity (n : ℕ) (i : InputIdentity)
  | updateIdentity (n : ℕ) (id : String) (updateData : UpdateData)
  | enrichIdentity (n : ℕ)
  | makeDefault (n : ℕ) (id : String)
  deriving DecidableEq

def Call.program : Call → Coro Unit
  | .putIdentity _ i => do
    i.validate
    let _ ← Identities.putIdentity toHashId i
  | .updateIdentity _ id updateData => do
    let _ ← Identities.updateIdentity .own id updateData
  | .enrichIdentity _ => enrichIdentityFromProfile
  | .makeDefault _ id => Identities.makeDefault id

/-! ## What the operations do -/

structure World where
  identities : Store (Call × Conn) String IdentityRow

namespace World

/-- These rows, and no transaction open. -/
def ofRows (rows : List IdentityRow) : World := ⟨Store.ofRows (·.id) rows⟩

/-- The shard restarts. -/
def restart (w : World) : World := ⟨w.identities.restart⟩

variable (w : World) (i : Call)

def visible (conn : Conn) (id : String) : Option IdentityRow := w.identities.visible (i, conn) id

def write (conn : Conn) (id : String) (row : IdentityRow) : World :=
  ⟨w.identities.write (i, conn) id row⟩

def commit (conn : Conn) : World := ⟨w.identities.commit (i, conn)⟩

def rollback (conn : Conn) : World := ⟨w.identities.rollback (i, conn)⟩

end World

/-- The operation has taken effect; its answer arrives or an exception surfaces in its place. -/
def Takes {op : Op} (a : Ans op) (r : Answer op) : Prop := r = .ok a ∨ ∃ e, r = .error e

/-- The operations that end a transaction, whatever happens. -/
def Op.ends : Op → Bool
  | .commit _ => true
  | .rollback _ => true
  | _ => false

/-- What an operation of a call may answer and leave. An `update` of a row that another connection has locked
does not answer. -/
inductive Act (i : Call) (w : World) : (op : Op) → Answer op → World → Prop where
  | fails {op : Op} (e : Exn) (h : op.ends = false) : Act i w op (.error e) w
  | connect (conn : Conn) : Act i w (.connect conn) (.ok ()) w
  | commit (conn : Conn) {r : Answer (.commit conn)} (h : Takes () r) :
      Act i w (.commit conn) r (w.commit i conn)
  | commitFails (conn : Conn) (e : Exn) :
      Act i w (.commit conn) (.error e) (w.rollback i conn)
  | rollback (conn : Conn) {r : Answer (.rollback conn)} (h : Takes () r) :
      Act i w (.rollback conn) r (w.rollback i conn)
  | getDefault {conn : Conn} {row : IdentityRow} (hrow : row ∈ w.identities.rows (i, conn))
      (hdefault : row.isDefault = true) : Act i w (.getDefault conn) (.ok (some row)) w
  | getDefaultNone {conn : Conn}
      (h : ∀ row ∈ w.identities.rows (i, conn), row.isDefault = false) :
      Act i w (.getDefault conn) (.ok none) w
  | getById (conn : Conn) (id : String) :
      Act i w (.getById conn id) (.ok (w.visible i conn id)) w
  | update {conn : Conn} {id : String} (data : UpdateData) {row : IdentityRow}
      (hrow : w.visible i conn id = some row) (hfree : w.identities.free (i, conn) id = true)
      {r : Answer (.update conn id data)} (h : Takes (some (data.apply row)) r) :
      Act i w (.update conn id data) r (w.write i conn id (data.apply row))
  | updateNone {conn : Conn} {id : String} (data : UpdateData)
      (hrow : w.visible i conn id = none) : Act i w (.update conn id data) (.ok none) w
  | insert {conn : Conn} {row : IdentityRow} (hrow : w.visible i conn row.id = none)
      (hfree : w.identities.free (i, conn) row.id = true) {r : Answer (.insert conn row)}
      (h : Takes row r) : Act i w (.insert conn row) r (w.write i conn row.id row)
  | count (conn : Conn) : Act i w (.count conn) (.ok (w.identities.count (i, conn))) w
  | validateEmail (address : String) (accepted : Bool) : Act i w (.validateEmail address) (.ok accepted) w
  | refreshProfile (profile : Option Profile) : Act i w .refreshProfile (.ok profile) w
  | generatePrivateKey (key : String) : Act i w .generatePrivateKey (.ok key) w
  | onIdentityUpdate : Act i w .onIdentityUpdate (.ok ()) w

/-! ## Scripts -/

inductive Choice where
  | proceed
  /-- An exception surfaces and the operation has no effect; a transaction that should have ended is rolled
  back. -/
  | raise (e : Exn)
  | judges (accepted : Bool)
  | profile (profile : Option Profile)
  | draws (key : String)

/-- What an operation does when nothing fails; `none` if it does not answer. -/
def World.effect (i : Call) (w : World) : (op : Op) → Option (Answer op × World)
  | .connect _ => some (.ok (), w)
  | .commit conn => some (.ok (), w.commit i conn)
  | .rollback conn => some (.ok (), w.rollback i conn)
  | .getDefault conn => some (.ok ((w.identities.rows (i, conn)).find? (·.isDefault)), w)
  | .getById conn id => some (.ok (w.visible i conn id), w)
  | .update conn id data =>
    match w.visible i conn id with
    | none => some (.ok none, w)
    | some row =>
      if w.identities.free (i, conn) id then
        some (.ok (some (data.apply row)), w.write i conn id (data.apply row))
      else none
  | .insert conn row =>
    if w.visible i conn row.id = none then
      if w.identities.free (i, conn) row.id then some (.ok row, w.write i conn row.id row) else none
    else some (.error (.databaseError "unique violation"), w)
  | .count conn => some (.ok (w.identities.count (i, conn)), w)
  | .validateEmail _ => none
  | .refreshProfile => none
  | .generatePrivateKey => none
  | .onIdentityUpdate => some (.ok (), w)

def World.exec (i : Call) (w : World) (op : Op) :
    Choice → Option (Answer op × World)
  | .proceed => w.effect i op
  | .raise e =>
    match op with
    | .commit conn => some (.error e, w.rollback i conn)
    | .rollback conn => some (.error e, w.rollback i conn)
    | _ => some (.error e, w)
  | .judges accepted =>
    match op with
    | .validateEmail _ => some (.ok accepted, w)
    | _ => none
  | .profile profile =>
    match op with
    | .refreshProfile => some (.ok profile, w)
    | _ => none
  | .draws key =>
    match op with
    | .generatePrivateKey => some (.ok key, w)
    | _ => none

theorem Act.of_effect {i : Call} {w w' : World} {op : Op} {r : Answer op}
    (h : w.effect i op = some (r, w')) : Act i w op r w' := by
  cases op with
  | connect conn =>
    cases h
    exact .connect conn
  | commit conn =>
    cases h
    exact .commit conn (.inl rfl)
  | rollback conn =>
    cases h
    exact .rollback conn (.inl rfl)
  | getDefault conn =>
    cases h
    cases hfind : (w.identities.rows (i, conn)).find? (·.isDefault) with
    | none => exact .getDefaultNone fun row hrow => by simpa using List.find?_eq_none.mp hfind row hrow
    | some row => exact .getDefault (List.mem_of_find?_eq_some hfind) (List.find?_some hfind)
  | getById conn id =>
    cases h
    exact .getById conn id
  | update conn id data =>
    simp only [World.effect] at h
    split at h
    · next hrow =>
      cases h
      exact .updateNone data hrow
    · next row hrow =>
      split at h
      · next hfree =>
        cases h
        exact .update data hrow hfree (.inl rfl)
      · cases h
  | insert conn row =>
    simp only [World.effect] at h
    split at h
    · next hrow =>
      split at h
      · next hfree =>
        cases h
        exact .insert hrow hfree (.inl rfl)
      · cases h
    · cases h
      exact .fails _ rfl
  | count conn =>
    cases h
    exact .count conn
  | validateEmail address => cases h
  | refreshProfile => cases h
  | generatePrivateKey => cases h
  | onIdentityUpdate =>
    cases h
    exact .onIdentityUpdate

theorem Act.of_exec {i : Call} {w w' : World} {op : Op} {choice : Choice} {r : Answer op}
    (h : w.exec i op choice = some (r, w')) : Act i w op r w' := by
  cases choice with
  | proceed => exact .of_effect h
  | raise e =>
    cases op with
    | commit conn =>
      cases h
      exact .commitFails conn e
    | rollback conn =>
      cases h
      exact .rollback conn (.inr ⟨e, rfl⟩)
    | _ =>
      cases h
      exact .fails e rfl
  | judges accepted =>
    cases op with
    | validateEmail address =>
      cases h
      exact .validateEmail address accepted
    | _ => cases h
  | profile profile =>
    cases op with
    | refreshProfile =>
      cases h
      exact .refreshProfile profile
    | _ => cases h
  | draws key =>
    cases op with
    | generatePrivateKey =>
      cases h
      exact .generatePrivateKey key
    | _ => cases h

theorem exists_run (C : Condition Op Ans Exn World Call)
    [∀ s i op, Decidable (C s i op)] (w : World) (turns : List (Turn Call Choice))
    (F : Config Op Ans Exn (Recorded Op Ans Exn World Call) Call → Bool)
    (h : ((Config.idle ⟨w, []⟩).play (Recorded.exec (fun i w => World.exec i w) C)
      (turns.map (Turn.move (Call.program toHashId)))).any F = true) :
    ∃ c, Recorded.Runs Act C (Call.program toHashId) w c ∧ F c = true ∧
      ((∀ turn ∈ turns, c.ended turn.name = true) → c.Quiescent) :=
  Recorded.Runs.exists (fun i w => World.exec i w) C (Call.program toHashId)
    (fun _ _ _ _ _ _ he => .of_exec he) w turns F h

end Freeshard.Identities

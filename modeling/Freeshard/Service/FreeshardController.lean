import Freeshard.Coroutine.TaskRuns

/-! # The shared secret of the controller

`service/freeshard_controller.py` and the `authenticate_management` endpoint of `web/internal/auth.py`. The controller
authenticates itself by a secret that it may replace at any time; the shard keeps the one it has last fetched in
`kv_store`, and fetches it anew when it is presented another one. Any number of calls may be in flight. -/

namespace Freeshard.Management
open Coroutine
set_option autoImplicit false

/-- `shared_secret` of a shard, as the controller tells it. -/
abbrev SharedSecret : Type := Option String

inductive Exn where
  | cancelled
  | keyError (key : String)
  | sharedSecretInvalid
  /-- `HTTPException(401)`. -/
  | unauthorized
  | validation
  | other (text : String)
  deriving DecidableEq, Repr

/-- The exceptions of the database and of the call to the controller. -/
def Exn.foreign : Exn → Bool
  | .sharedSecretInvalid => false
  | .unauthorized => false
  | _ => true

/-! ## Operations -/

inductive Op where
  -- `database.get_value` and `database.set_value` of the shared key
  | getValue
  | setValue (value : SharedSecret)
  -- `call_freeshard_controller("api/shards/self")`, parsed
  | callController
  -- the controller replaces the secret
  | rotate (value : SharedSecret)
  deriving DecidableEq, Repr

@[reducible] def Ans : Op → Type
  | .getValue => SharedSecret
  | .setValue _ => Unit
  | .callController => SharedSecret
  | .rotate _ => Unit

abbrev Answer (op : Op) : Type := Except Exn (Ans op)

abbrev Coro (α : Type) : Type := Prog Op Ans Exn α

abbrev awaitOp (op : Op) : Coro (Ans op) := Prog.perform op

/-! ## The service functions -/

/-- `refresh_shared_secret`. -/
def refreshSharedSecret : Coro SharedSecret := do
  let sharedSecret ← awaitOp .callController
  awaitOp (.setValue sharedSecret)
  return sharedSecret

/-- `get_value`, or `none` for its `KeyError`. -/
def storedSecret : Coro (Option SharedSecret) :=
  tryCatch (some <$> awaitOp .getValue) fun
    | .keyError _ => return none
    | e => throw e

/-- `validate_shared_secret`. -/
def validateSharedSecret (secret : String) : Coro Unit := do
  if secret.length < 8 then
    throw .sharedSecretInvalid
  else
    match ← storedSecret with
    | none =>
      let expected ← refreshSharedSecret
      if some secret ≠ expected then throw .sharedSecretInvalid else return ()
    | some expected =>
      if some secret ≠ expected then
        let expected ← refreshSharedSecret
        if some secret ≠ expected then throw .sharedSecretInvalid else return ()
      else return ()

/-- `authenticate_management`. -/
def authenticateManagement (authorization : Option String) : Coro Unit :=
  match authorization with
  | none => throw .unauthorized
  | some "" => throw .unauthorized
  | some secret =>
    tryCatch (validateSharedSecret secret) fun
      | .sharedSecretInvalid => throw .unauthorized
      | e => throw e

/-! ## What the operations do -/

structure World where
  /-- The row of `kv_store`. -/
  stored : Option SharedSecret := none
  /-- All secrets of the controller, the current one first. -/
  secrets : List SharedSecret
  deriving DecidableEq

/-- What the environment makes of an operation. -/
inductive Choice where
  | proceed
  /-- The operation fails without effect. -/
  | raise (e : Exn)
  /-- The operation takes effect, then an exception surfaces. -/
  | proceedRaise (e : Exn)
  deriving DecidableEq

/-- What an undisturbed operation does. The controller does not take a secret it has had before. -/
def World.effect (w : World) : (op : Op) → Option (Answer op × World)
  | .getValue =>
    match w.stored with
    | some value => some (.ok value, w)
    | none => some (.error (.keyError "freeshard_controller_shared_key"), w)
  | .setValue value => some (.ok (), { w with stored := some value })
  | .callController => w.secrets.head?.map fun value => (.ok value, w)
  | .rotate value => if value ∈ w.secrets then none else some (.ok (), { w with secrets := value :: w.secrets })

def World.exec (w : World) (op : Op) : Choice → Option (Answer op × World)
  | .proceed => w.effect op
  | .raise e =>
    match op with
    | .rotate _ => none
    | _ => if e.foreign then some (.error e, w) else none
  | .proceedRaise e =>
    match op with
    | .setValue value => if e.foreign then some (.error e, { w with stored := some value }) else none
    | _ => none

/-! ## Calls -/

inductive Call where
  | authenticate (id : ℕ) (authorization : Option String)
  | rotate (id : ℕ) (value : SharedSecret)
  deriving DecidableEq, Repr

def Call.program : Call → Coro Unit
  | .authenticate _ authorization => authenticateManagement authorization
  | .rotate _ value => awaitOp (.rotate value)

/-- What an operation may answer and leave. -/
def Act (_ : Call) (w : World) (op : Op) (r : Answer op) (w' : World) : Prop :=
  ∃ choice, w.exec op choice = some (r, w')

abbrev Log : Type := List (Entry Op Ans Exn World Call)

abbrev State : Type := Recorded Op Ans Exn World Call

abbrev create : Creation Op Ans Exn State Call := fun _ i => some i.program

/-- Calls come in at any time. -/
abbrev Runs (C : Condition Op Ans Exn World Call) (w : World) (c : Config Op Ans Exn State Call) : Prop :=
  Recorded.TaskRuns Act C create w c

/-- A run of a script. -/
theorem exists_run (C : Condition Op Ans Exn World Call) [∀ s i op, Decidable (C s i op)] (w : World)
    (turns : List (Turn Call Choice)) (F : Config Op Ans Exn State Call → Bool)
    (h : ((Config.idle ⟨w, []⟩).playTasks (Recorded.exec (fun _ => World.exec) C) create turns).any F = true) :
    ∃ c, Runs C w c ∧ F c = true :=
  Recorded.TaskRuns.exists _ C _ (fun _ _ _ choice _ _ he => ⟨choice, he⟩) w turns F h

end Freeshard.Management

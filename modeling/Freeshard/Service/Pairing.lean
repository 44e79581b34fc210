import Freeshard.Coroutine.Recorded
import Mathlib.Algebra.Order.Ring.Int

/-! # Pairing of terminals

`service/pairing.py` over the `kv_store` and `terminals` tables: pairing codes, which are issued and
redeemed, and the JWTs of terminals, whose secret is created by the first call that needs it. Each
`get_value`, `set_value` and `remove_value` is a transaction of its own, so other calls may run between
any two of them. -/

namespace Freeshard.Pairing
open Coroutine
set_option autoImplicit false

/-! ## Data -/

/-- Times are microseconds since the epoch. -/
structure PairingCode where
  code : String
  created : ℤ
  validUntil : ℤ
  deriving DecidableEq, Repr

structure Terminal where
  id : String
  name : String
  deriving DecidableEq, Repr

/-- The part of `settings().terminal` that is read here. -/
structure Settings where
  pairingCodeDeadline : ℤ := 600

/-- The keys of `kv_store` that belong to pairing. -/
inductive StoreKey where
  | terminalJwtSecret
  | pairingCode
  deriving DecidableEq, Repr

namespace StoreKey

def name : StoreKey → String
  | .terminalJwtSecret => "terminal_jwt_secret"
  | .pairingCode => "pairing_code"

/-- What is stored under a key. -/
@[reducible] def Value : StoreKey → Type
  | .terminalJwtSecret => String
  | .pairingCode => PairingCode

end StoreKey

inductive Exn where
  | cancelled
  | keyError (key : String)
  | invalidPairingCode (text : String)
  | pairingCodeExpired (text : String)
  | invalidJwt (text : String)
  | other (text : String)
  deriving DecidableEq, Repr

/-! ## JSON web tokens -/

structure Payload where
  sub : String
  iat : ℤ
  deriving DecidableEq, Repr

/-- The `jwt` package: HS256 tokens, which decode exactly under the secret they were encoded with. -/
structure PyJWT where
  Token : Type
  encode : Payload → String → Token
  decode : Token → String → Option Payload
  decode_encode : ∀ payload secret secret', decode (encode payload secret) secret' =
    if secret = secret' then some payload else none

/-- Tokens that carry their secret along. -/
def PyJWT.symbolic : PyJWT where
  Token := Payload × String
  encode payload secret := (payload, secret)
  decode token secret := if token.2 = secret then some token.1 else none
  decode_encode _ _ _ := rfl

instance : DecidableEq PyJWT.symbolic.Token := inferInstanceAs (DecidableEq (Payload × String))

/-- The `authorization` cookie: a token, or one after `Bearer `. -/
inductive Authorization (Token : Type) where
  | plain (token : Token)
  | bearer (token : Token)
  deriving DecidableEq, Repr

/-- `if token.startswith(bearer): token = token[len(bearer) :]`. -/
def Authorization.token {Token : Type} : Authorization Token → Token
  | .plain token => token
  | .bearer token => token

/-! ## Operations -/

inductive Op where
  -- `database/database.py` and `database/terminals.py`
  | getValue (key : StoreKey)
  | setValue (key : StoreKey) (value : key.Value)
  | removeValue (key : StoreKey)
  | getTerminal (id : String)
  -- `datetime.now(timezone.utc)`, `random.choices(string.digits, k=6)`, `secrets.token_urlsafe`
  | now
  | randomDigits
  | tokenUrlsafe
  -- what happens around the calls: time passes, terminals are added and deleted
  | elapse (duration : ℤ)
  | insertTerminal (terminal : Terminal)
  | removeTerminal (id : String)

@[reducible] def Ans : Op → Type
  | .getValue key => key.Value
  | .setValue _ _ => Unit
  | .removeValue _ => Bool
  | .getTerminal _ => Option Terminal
  | .now => ℤ
  | .randomDigits => String
  | .tokenUrlsafe => String
  | .elapse _ => Unit
  | .insertTerminal _ => Unit
  | .removeTerminal _ => Unit

abbrev Answer (op : Op) : Type := Except Exn (Ans op)

abbrev Coro (α : Type) : Type := Prog Op Ans Exn α

abbrev awaitOp (op : Op) : Coro (Ans op) := Prog.perform op

def getValue (key : StoreKey) : Coro key.Value := awaitOp (.getValue key)

def setValue (key : StoreKey) (value : key.Value) : Coro Unit := awaitOp (.setValue key value)

def removeValue (key : StoreKey) : Coro Bool := awaitOp (.removeValue key)

/-- `db_terminals.get_by_id`. -/
def getTerminal (id : String) : Coro (Option Terminal) := awaitOp (.getTerminal id)

def now : Coro ℤ := awaitOp .now

def randomDigits : Coro String := awaitOp .randomDigits

def tokenUrlsafe : Coro String := awaitOp .tokenUrlsafe

/-! ## The service functions -/

/-- `make_pairing_code`. A `deadline` of `None` or `0` stands for the default. -/
def makePairingCode (settings : Settings) (deadline : Option ℤ) : Coro PairingCode := do
  let time ← now
  let code ← randomDigits
  let seconds := match deadline with
    | none => settings.pairingCodeDeadline
    | some d => if d = 0 then settings.pairingCodeDeadline else d
  let pairingCode : PairingCode := ⟨code, time, time + seconds * 1000000⟩
  setValue .pairingCode pairingCode
  return pairingCode

/-- `redeem_pairing_code`. -/
def redeemPairingCode (incomingCode : String) : Coro Unit := do
  let existing ← tryCatch (getValue .pairingCode) fun
    | .keyError _ => throw (.invalidPairingCode "no pairing code was issued yet")
    | e => throw e
  if existing.code ≠ incomingCode then
    throw (.invalidPairingCode
      s!"code ({incomingCode}) does not match existing code ({existing.code})")
  else
    let time ← now
    if time > existing.validUntil then
      throw (.pairingCodeExpired s!"issued code ({existing.code}) is expired")
    else
      let _ ← removeValue .pairingCode
      return ()

/-- `_ensure_jwt_secret`. -/
def ensureJwtSecret : Coro String :=
  tryCatch (getValue .terminalJwtSecret) fun
    | .keyError _ => do
      let jwtSecret ← tokenUrlsafe
      setValue .terminalJwtSecret jwtSecret
      return jwtSecret
    | e => throw e

variable (jwt : PyJWT)

/-- `create_terminal_jwt`, which its caller `add_terminal` gives no further claims. -/
def createTerminalJwt (terminalId : String) : Coro jwt.Token := do
  let jwtSecret ← ensureJwtSecret
  let time ← now
  return jwt.encode ⟨terminalId, time / 1000000⟩ jwtSecret

/-- `verify_terminal_jwt`. -/
def verifyTerminalJwt (authorization : Option (Authorization jwt.Token)) : Coro Terminal :=
  match authorization with
  | none => throw (.invalidJwt "Missing JWT")
  | some authorization => do
    let jwtSecret ← ensureJwtSecret
    match jwt.decode authorization.token jwtSecret with
    | none => throw (.invalidJwt "")
    | some payload =>
      match ← getTerminal payload.sub with
      | some terminal => return terminal
      | none => throw (.invalidJwt "")

/-! ## What the operations do -/

structure World where
  /-- The table `kv_store`. -/
  kvStore : (key : StoreKey) → Option key.Value
  /-- The table `terminals`, by id. -/
  terminals : String → Option Terminal := fun _ => none
  clock : ℤ := 0
  /-- Every pairing code that has been stored, latest first. -/
  issued : List PairingCode := []

namespace World

/-- No secret and no code yet. -/
def fresh : World where
  kvStore := fun _ => none

/-- A world in which whatever code is stored counts as issued. -/
def start (kvStore : (key : StoreKey) → Option key.Value)
    (terminals : String → Option Terminal) (clock : ℤ) : World :=
  ⟨kvStore, terminals, clock, (kvStore .pairingCode).toList⟩

/-- `set_value`, which issues a code when it stores one. -/
def setValue (w : World) : (key : StoreKey) → key.Value → World
  | .terminalJwtSecret, secret =>
    { w with kvStore := Function.update w.kvStore .terminalJwtSecret (some secret) }
  | .pairingCode, code =>
    { w with
      kvStore := Function.update w.kvStore .pairingCode (some code)
      issued := code :: w.issued }

/-- `remove_value`. -/
def removeValue (w : World) (key : StoreKey) : World :=
  { w with kvStore := Function.update w.kvStore key none }

/-- What an undisturbed operation does; `none` for the random draws. -/
def effect (w : World) : (op : Op) → Option (Answer op × World)
  | .getValue key => some ((w.kvStore key).elim (.error (.keyError key.name)) .ok, w)
  | .setValue key value => some (.ok (), w.setValue key value)
  | .removeValue key => some (.ok (w.kvStore key).isSome, w.removeValue key)
  | .getTerminal id => some (.ok (w.terminals id), w)
  | .now => some (.ok w.clock, w)
  | .randomDigits => none
  | .tokenUrlsafe => none
  | .elapse duration =>
    if 0 ≤ duration then some (.ok (), { w with clock := w.clock + duration }) else none
  | .insertTerminal terminal => some (.ok (),
      { w with terminals := Function.update w.terminals terminal.id (some terminal) })
  | .removeTerminal id => some (.ok (),
      { w with terminals := Function.update w.terminals id none })

end World

/-- The awaited operations: only there an exception of the environment can surface. -/
def Op.awaited : Op → Bool
  | .getValue _ => true
  | .setValue _ _ => true
  | .removeValue _ => true
  | .getTerminal _ => true
  | _ => false

inductive Choice where
  | proceed
  /-- An exception surfaces and the operation has no effect. -/
  | raise (e : Exn)
  /-- The operation takes effect, then an exception surfaces. -/
  | proceedRaise (e : Exn)
  /-- What a random draw yields. -/
  | draws (text : String)
  deriving DecidableEq

/-- Six decimal digits. -/
def isDigits (text : String) : Bool := text.toList.length == 6 && text.toList.all Char.isDigit

/-- One operation under a choice of the environment; `none` if the choice does not fit. -/
def World.exec (w : World) (op : Op) : Choice → Option (Answer op × World)
  | .proceed => w.effect op
  | .raise e => if op.awaited then some (.error e, w) else none
  | .proceedRaise e =>
    if op.awaited then (w.effect op).map fun rw => (.error e, rw.2) else none
  | .draws text =>
    match op with
    | .randomDigits => if isDigits text then some (.ok text, w) else none
    | .tokenUrlsafe => some (.ok text, w)
    | _ => none

/-! ## Calls -/

/-- The calls of a run, any number of each kind, with their arguments. -/
inductive Call (Token : Type) where
  | makeCode (id : ℕ) (deadline : Option ℤ)
  | redeemCode (id : ℕ) (incomingCode : String)
  | createJwt (id : ℕ) (terminalId : String)
  | verifyJwt (id : ℕ) (authorization : Option (Authorization Token))
  | elapse (id : ℕ) (duration : ℤ)
  | insertTerminal (id : ℕ) (terminal : Terminal)
  | removeTerminal (id : ℕ) (terminalId : String)
  deriving DecidableEq

def Call.program (settings : Settings) : Call jwt.Token → Coro Unit
  | .makeCode _ deadline => makePairingCode settings deadline >>= fun _ => return ()
  | .redeemCode _ incomingCode => redeemPairingCode incomingCode
  | .createJwt _ terminalId => createTerminalJwt jwt terminalId >>= fun _ => return ()
  | .verifyJwt _ authorization => verifyTerminalJwt jwt authorization >>= fun _ => return ()
  | .elapse _ duration => awaitOp (.elapse duration)
  | .insertTerminal _ terminal => awaitOp (.insertTerminal terminal)
  | .removeTerminal _ terminalId => awaitOp (.removeTerminal terminalId)

/-- The operations a call may perform. -/
def Call.uses {Token : Type} : Call Token → Op → Prop
  | .makeCode _ _, op =>
    match op with
    | .now => True
    | .randomDigits => True
    | .setValue .pairingCode _ => True
    | _ => False
  | .redeemCode _ _, op =>
    match op with
    | .getValue .pairingCode => True
    | .now => True
    | .removeValue .pairingCode => True
    | _ => False
  | .createJwt _ _, op =>
    match op with
    | .getValue .terminalJwtSecret => True
    | .tokenUrlsafe => True
    | .setValue .terminalJwtSecret _ => True
    | .now => True
    | _ => False
  | .verifyJwt _ _, op =>
    match op with
    | .getValue .terminalJwtSecret => True
    | .tokenUrlsafe => True
    | .setValue .terminalJwtSecret _ => True
    | .getTerminal _ => True
    | _ => False
  | .elapse _ duration, op => op = .elapse duration
  | .insertTerminal _ terminal, op => op = .insertTerminal terminal
  | .removeTerminal _ terminalId, op => op = .removeTerminal terminalId

section Uses
variable {φ : Op → Prop}

theorem uses_ensureJwtSecret (hget : φ (.getValue .terminalJwtSecret)) (hdraw : φ .tokenUrlsafe)
    (hset : ∀ secret, φ (.setValue .terminalJwtSecret secret)) : ensureJwtSecret.Uses φ := by
  refine Prog.Uses.tryCatch ((Prog.uses_perform _).mpr hget) fun e => ?_
  cases e with
  | keyError key =>
    refine Prog.Uses.bind ((Prog.uses_perform _).mpr hdraw) fun secret => ?_
    exact Prog.Uses.bind ((Prog.uses_perform _).mpr (hset secret)) fun _ => trivial
  | _ => trivial

theorem uses_program {jwt : PyJWT} (settings : Settings) (i : Call jwt.Token) :
    (i.program jwt settings).Uses i.uses := by
  cases i with
  | makeCode id deadline =>
    refine Prog.Uses.bind ?_ fun _ => trivial
    refine Prog.Uses.bind ((Prog.uses_perform _).mpr trivial) fun time => ?_
    refine Prog.Uses.bind ((Prog.uses_perform _).mpr trivial) fun code => ?_
    exact Prog.Uses.bind ((Prog.uses_perform _).mpr trivial) fun _ => trivial
  | redeemCode id incomingCode =>
    refine Prog.Uses.bind (Prog.Uses.tryCatch ((Prog.uses_perform _).mpr trivial) fun e => ?_)
      fun existing => ?_
    · cases e <;> trivial
    · split
      · trivial
      · refine Prog.Uses.bind ((Prog.uses_perform _).mpr trivial) fun time => ?_
        split
        · trivial
        · exact Prog.Uses.bind ((Prog.uses_perform _).mpr trivial) fun _ => trivial
  | createJwt id terminalId =>
    refine Prog.Uses.bind (Prog.Uses.bind ?_ fun secret => ?_) fun _ => trivial
    · exact uses_ensureJwtSecret trivial trivial fun _ => trivial
    · exact Prog.Uses.bind ((Prog.uses_perform _).mpr trivial) fun _ => trivial
  | verifyJwt id authorization =>
    refine Prog.Uses.bind ?_ fun _ => trivial
    cases authorization with
    | none => trivial
    | some authorization =>
      refine Prog.Uses.bind (uses_ensureJwtSecret trivial trivial fun _ => trivial)
        fun secret => ?_
      cases jwt.decode authorization.token secret with
      | none => trivial
      | some payload =>
        refine Prog.Uses.bind ((Prog.uses_perform _).mpr trivial) fun terminal => ?_
        cases terminal <;> trivial
  | elapse id duration => exact (Prog.uses_perform _).mpr rfl
  | insertTerminal id terminal => exact (Prog.uses_perform _).mpr rfl
  | removeTerminal id terminalId => exact (Prog.uses_perform _).mpr rfl

end Uses

/-! ## Steps -/

/-- What an operation may answer and leave. -/
def Act (w : World) (op : Op) (r : Answer op) (w' : World) : Prop :=
  ∃ choice, w.exec op choice = some (r, w')

abbrev Log (jwt : PyJWT) : Type := List (Entry Op Ans Exn World (Call jwt.Token))

abbrev State (jwt : PyJWT) : Type := Recorded Op Ans Exn World (Call jwt.Token)

theorem Act.getValue_ok {w w' : World} {key : StoreKey} {value : key.Value}
    (h : Act w (.getValue key) (.ok value) w') : w.kvStore key = some value ∧ w' = w := by
  obtain ⟨choice, h⟩ := h
  cases choice with
  | proceed =>
    simp only [World.exec, World.effect, Option.some.injEq, Prod.mk.injEq] at h
    cases hv : w.kvStore key with
    | none =>
      rw [hv] at h
      cases h.1
    | some found =>
      rw [hv] at h
      obtain rfl : found = value := Except.ok.inj h.1
      exact ⟨rfl, h.2.symm⟩
  | raise e => simp [World.exec, Op.awaited] at h
  | proceedRaise e => simp [World.exec, Op.awaited, World.effect] at h
  | draws text => cases h

/-- The world an operation leaves is the one it was performed in, or the one after its effect. -/
theorem Act.cases {w w' : World} {op : Op} {r : Answer op} (h : Act w op r w') :
    w' = w ∨ ∃ r', w.effect op = some (r', w') := by
  obtain ⟨choice, h⟩ := h
  cases choice with
  | proceed => exact .inr ⟨r, h⟩
  | raise e =>
    simp only [World.exec] at h
    split at h
    · cases h
      exact .inl rfl
    · cases h
  | proceedRaise e =>
    simp only [World.exec] at h
    split at h
    · obtain ⟨⟨r', w''⟩, he, hr⟩ := Option.map_eq_some_iff.mp h
      cases hr
      exact .inr ⟨r', he⟩
    · cases h
  | draws text =>
    cases op with
    | randomDigits =>
      simp only [World.exec] at h
      split at h
      · cases h
        exact .inl rfl
      · cases h
    | tokenUrlsafe =>
      cases h
      exact .inl rfl
    | _ => cases h

theorem Act.removeValue_ok {w w' : World} {key : StoreKey} {found : Bool}
    (h : Act w (.removeValue key) (.ok found) w') : w' = w.removeValue key := by
  obtain ⟨choice, h⟩ := h
  cases choice with
  | proceed =>
    cases h
    rfl
  | raise e => simp [World.exec, Op.awaited] at h
  | proceedRaise e => simp [World.exec, Op.awaited, World.effect] at h
  | draws text => cases h

/-! ## Scripts -/

/-- A run of a script, in which tokens carry their secret along; with nothing in flight at its end if
every call of the script has ended. -/
theorem exists_run (C : Condition Op Ans Exn World (Call PyJWT.symbolic.Token))
    [∀ s i op, Decidable (C s i op)] (w : World)
    (turns : List (Turn (Call PyJWT.symbolic.Token) Choice))
    (F : Config Op Ans Exn (State PyJWT.symbolic) (Call PyJWT.symbolic.Token) → Bool)
    (h : ((Config.idle ⟨w, []⟩).play (Recorded.exec (fun _ => World.exec) C)
      (turns.map (Turn.move (Call.program PyJWT.symbolic {})))).any F = true) :
    ∃ c, Recorded.Runs (fun _ => Act) C (Call.program PyJWT.symbolic {}) w c ∧ F c = true ∧
      ((∀ turn ∈ turns, c.ended turn.name = true) → c.Quiescent) :=
  Recorded.Runs.exists _ _ _ (fun _ _ _ choice _ _ he => ⟨choice, he⟩) w turns F h

end Freeshard.Pairing

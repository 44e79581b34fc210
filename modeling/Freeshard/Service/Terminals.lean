import Freeshard.Coroutine.Recorded
import Freeshard.Transaction.ReadCommitted
import Mathlib.Data.Rat.Init

/-! # Terminals and their broadcast

`web/protected/terminals.py`, `add_terminal` of `web/public/pair.py` and the handler `send_terminals_update` of
`service/websocket.py`, over a table `terminals` that transactions of any number of requests use at the same time.
Every `db_conn` block is one transaction on a connection of its own; a signal's handler runs as part of the request
that sends the signal. -/

namespace Freeshard.Terminals
open Coroutine ReadCommitted
set_option autoImplicit false

/-! ## Data -/

inductive Icon where
  | unknown
  | smartphone
  | tablet
  | notebook
  | desktop
  deriving DecidableEq, Repr

structure Terminal where
  id : String
  name : String
  icon : Icon := .unknown
  lastConnection : Option ℚ := none
  deriving DecidableEq, Repr

structure InputTerminal where
  name : String
  icon : Icon := .unknown
  deriving DecidableEq, Repr

/-- A dictionary of columns; `none` for a column that it lacks. -/
structure UpdateData where
  name : Option String := none
  icon : Option Icon := none
  lastConnection : Option (Option ℚ) := none
  deriving DecidableEq, Repr

/-- The `SET` clauses. -/
def UpdateData.apply (data : UpdateData) (row : Terminal) : Terminal where
  id := row.id
  name := data.name.getD row.name
  icon := data.icon.getD row.icon
  lastConnection := data.lastConnection.getD row.lastConnection

inductive Exn where
  | httpException (status : ℕ) (detail : String)
  | pairingCodeExpired (text : String)
  | invalidPairingCode (text : String)
  | databaseError (text : String)
  | other (text : String)
  deriving DecidableEq, Repr

/-! ## Operations -/

/-- A request's connections: its own, and that of the handler. -/
inductive Conn where
  | own
  | handler
  deriving DecidableEq, Repr

inductive Op where
  | connect (conn : Conn)
  | commit (conn : Conn)
  | rollback (conn : Conn)
  -- `database/terminals.py`
  | getAll (conn : Conn)
  | getById (conn : Conn) (id : String)
  | insert (conn : Conn) (terminal : Terminal)
  | update (conn : Conn) (id : String) (data : UpdateData)
  | remove (conn : Conn) (id : String)
  | count (conn : Conn)
  /-- `ws_worker.broadcast_message("terminals_update", ...)`. -/
  | broadcast (terminals : List Terminal)
  -- what does not use the table
  | redeemPairingCode (code : String)
  | createTerminal (name : String)
  | getDefaultIdentity
  | createTerminalJwt (id : String)
  | onTerminalAdd (terminal : Terminal)
  | onFirstTerminalAdd (terminal : Terminal)
  deriving DecidableEq

/-- A removal answers with the number of rows. -/
@[reducible] def Ans : Op → Type
  | .getAll _ => List Terminal
  | .getById _ _ => Option Terminal
  | .update _ _ _ => Option Terminal
  | .remove _ _ => ℕ
  | .count _ => ℕ
  | .createTerminal _ => Terminal
  | _ => Unit

abbrev Answer (op : Op) : Type := Except Exn (Ans op)

abbrev Coro (α : Type) : Type := Prog Op Ans Exn α

abbrev awaitOp (op : Op) : Coro (Ans op) := Prog.perform op

/-- `async with db_conn() as conn`. -/
def dbConn {α : Type} (conn : Conn) (body : Coro α) : Coro α := do
  awaitOp (.connect conn)
  let a ← tryCatch body fun e => do
    awaitOp (.rollback conn)
    throw e
  awaitOp (.commit conn)
  return a

/-! ## The requests -/

/-- `send_terminals_update`. -/
def sendTerminalsUpdate : Coro Unit := do
  let allTerminals : List Terminal ← dbConn .handler (awaitOp (.getAll .handler))
  awaitOp (.broadcast allTerminals)

/-- `edit_terminal`. -/
def editTerminal (id : String) (terminal : InputTerminal) : Coro Unit := dbConn .own do
  let t : Option Terminal ← awaitOp (.getById .own id)
  match t with
  | some _ => do
    let _ ← awaitOp (.update .own id { name := some terminal.name, icon := some terminal.icon })
    sendTerminalsUpdate
  | none => throw (.httpException 404 "")

/-- `delete_terminal_by_id`. -/
def deleteTerminalById (id : String) : Coro Unit := do
  dbConn .own do
    let _ ← awaitOp (.remove .own id)
    return ()
  sendTerminalsUpdate

/-- The refusals of `add_terminal`. -/
def refusal : Exn → Exn
  | .pairingCodeExpired _ =>
    .httpException 401 "This pairing code has expired. Generate a new code on your shard and try again."
  | .invalidPairingCode _ => .httpException 401 "This pairing code is not valid."
  | e => e

/-- `add_terminal`. -/
def addTerminal (code : String) (terminal : InputTerminal) : Coro Unit := do
  tryCatch (awaitOp (.redeemPairingCode code)) fun e => throw (refusal e)
  let newTerminal : Terminal ← awaitOp (.createTerminal terminal.name)
  let isFirstTerminal : Bool ← dbConn .own do
    awaitOp (.insert .own newTerminal)
    let terminals : ℕ ← awaitOp (.count .own)
    return decide (terminals = 1)
  awaitOp .getDefaultIdentity
  awaitOp (.createTerminalJwt newTerminal.id)
  sendTerminalsUpdate
  awaitOp (.onTerminalAdd newTerminal)
  if isFirstTerminal then awaitOp (.onFirstTerminalAdd newTerminal)

/-- A statement that writes. -/
inductive Statement where
  | insert (terminal : Terminal)
  | update (id : String) (data : UpdateData)
  | remove (id : String)
  deriving DecidableEq

def Statement.run : Statement → Coro Unit
  | .insert terminal => awaitOp (.insert .own terminal)
  | .update id data => do
    let _ ← awaitOp (.update .own id data)
    return ()
  | .remove id => do
    let _ ← awaitOp (.remove .own id)
    return ()

/-- `update_terminal_last_connection`, in which `now` is read before the statement. -/
def updateTerminalLastConnection (id : String) (now : ℚ) : List Statement :=
  [.update id { lastConnection := some (some now) }]

/-- The requests of a run, any number of each kind. Another request writes what it likes in one transaction. -/
inductive Call where
  | editTerminal (n : ℕ) (id : String) (terminal : InputTerminal)
  | deleteTerminalById (n : ℕ) (id : String)
  | addTerminal (n : ℕ) (code : String) (terminal : InputTerminal)
  | other (n : ℕ) (statements : List Statement)
  deriving DecidableEq

def Call.program : Call → Coro Unit
  | .editTerminal _ id terminal => Terminals.editTerminal id terminal
  | .deleteTerminalById _ id => Terminals.deleteTerminalById id
  | .addTerminal _ code terminal => Terminals.addTerminal code terminal
  | .other _ statements => dbConn .own (statements.forM Statement.run)

/-! ## What the operations do -/

/-- A version of a row is `none` where the row has been removed. -/
structure World where
  terminals : Store (Call × Conn) String (Option Terminal)

namespace World

/-- These rows, and no transaction open. -/
def ofRows (rows : List Terminal) : World :=
  ⟨Store.ofRows (fun row => (row.map (·.id)).getD "") (rows.map some)⟩

variable (w : World) (i : Call)

/-- The row as a connection sees it. -/
def row (conn : Conn) (id : String) : Option Terminal := (w.terminals.visible (i, conn) id).join

def committedRow (id : String) : Option Terminal := (w.terminals.committed id).join

def rows (conn : Conn) : List Terminal := (w.terminals.rows (i, conn)).reduceOption

def write (conn : Conn) (id : String) (version : Option Terminal) : World :=
  ⟨w.terminals.write (i, conn) id version⟩

def commit (conn : Conn) : World := ⟨w.terminals.commit (i, conn)⟩

def rollback (conn : Conn) : World := ⟨w.terminals.rollback (i, conn)⟩

/-- What an operation does; `none` if it waits for a lock, or if the environment decides. -/
def effect : (op : Op) → Option (Answer op × World)
  | .commit conn => some (.ok (), w.commit i conn)
  | .rollback conn => some (.ok (), w.rollback i conn)
  | .getAll conn => some (.ok (w.rows i conn), w)
  | .getById conn id => some (.ok (w.row i conn id), w)
  | .insert conn terminal =>
    match w.row i conn terminal.id with
    | some _ => some (.error (.databaseError "unique violation"), w)
    | none =>
      if w.terminals.free (i, conn) terminal.id then
        some (.ok (), w.write i conn terminal.id (some terminal))
      else none
  | .update conn id data =>
    match w.row i conn id with
    | none => some (.ok none, w)
    | some row =>
      if w.terminals.free (i, conn) id then
        some (.ok (some (data.apply row)), w.write i conn id (some (data.apply row)))
      else none
  | .remove conn id =>
    match w.row i conn id with
    | none => some (.ok 0, w)
    | some _ =>
      if w.terminals.free (i, conn) id then some (.ok 1, w.write i conn id none) else none
  | .count conn => some (.ok (w.rows i conn).length, w)
  | .createTerminal _ => none
  | .connect _ => some (.ok (), w)
  | .broadcast _ => some (.ok (), w)
  | .redeemPairingCode _ => some (.ok (), w)
  | .getDefaultIdentity => some (.ok (), w)
  | .createTerminalJwt _ => some (.ok (), w)
  | .onTerminalAdd _ => some (.ok (), w)
  | .onFirstTerminalAdd _ => some (.ok (), w)

end World

inductive Choice where
  | proceed
  /-- An exception surfaces and the operation has no effect; a transaction that should have ended is rolled back. -/
  | raise (e : Exn)
  /-- The operation takes effect, then an exception surfaces. -/
  | proceedRaise (e : Exn)
  /-- The terminal that `Terminal.create` makes. -/
  | creates (terminal : Terminal)
  deriving DecidableEq

def World.exec (i : Call) (w : World) (op : Op) : Choice → Option (Answer op × World)
  | .proceed => w.effect i op
  | .raise e =>
    match op with
    | .commit conn => some (.error e, w.rollback i conn)
    | .rollback conn => some (.error e, w.rollback i conn)
    | _ => some (.error e, w)
  | .proceedRaise e => (w.effect i op).map fun rw => (.error e, rw.2)
  | .creates terminal =>
    match op with
    | .createTerminal name => if terminal.name = name then some (.ok terminal, w) else none
    | _ => none

/-- What an operation of a request may answer and leave. -/
def Act (i : Call) (w : World) (op : Op) (r : Answer op) (w' : World) : Prop :=
  ∃ choice, w.exec i op choice = some (r, w')

abbrev Log : Type := List (Entry Op Ans Exn World Call)

abbrev State : Type := Recorded Op Ans Exn World Call

theorem exists_run (w : World) (turns : List (Turn Call Choice))
    (F : Config Op Ans Exn State Call → Bool)
    (h : ((Config.idle ⟨w, []⟩).play (Recorded.exec (fun i w => World.exec i w) Recorded.anyway)
      (turns.map (Turn.move Call.program))).any F = true) :
    ∃ c, Recorded.Runs Act Recorded.anyway Call.program w c ∧ F c = true ∧
      ((∀ turn ∈ turns, c.ended turn.name = true) → c.Quiescent) :=
  Recorded.Runs.exists (fun i w => World.exec i w) Recorded.anyway Call.program
    (fun _ _ _ choice _ _ he => ⟨choice, he⟩) w turns F h

end Freeshard.Terminals

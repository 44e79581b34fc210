import Freeshard.Coroutine.TaskRuns
import Freeshard.Util.Passphrase

/-! # The backup passphrase

What `service/backup.py` does with the passphrase that backups are encrypted with: it is made at the first start, obscured
for rclone in every backup, and shown to the owner of a terminal by the endpoint of `web/protected/backup.py`. -/

namespace Freeshard.BackupPassphrase
open Coroutine
set_option autoImplicit false

inductive Exn where
  | cancelled
  | keyError (key : String)
  | passphrase (e : Passphrase.Exn)
  /-- `HTTPException(400, detail)`. -/
  | badRequest (detail : String)
  | other (text : String)
  deriving DecidableEq, Repr

/-- `BackupPassphraseLastAccessInfoDB`. -/
structure LastAccessInfo where
  time : ℤ
  terminalId : String
  deriving DecidableEq, Repr

/-! ## Operations -/

inductive Op where
  -- `database.get_value` and `database.set_value` of `STORE_KEY_BACKUP_PASSPHRASE`
  | getValue
  | setValue (passphrase : String)
  -- `database.set_value` of `STORE_KEY_BACKUP_PASSPHRASE_LAST_ACCESS`
  | setLastAccess (info : LastAccessInfo)
  -- `generate_passphrase_numbers(10)`
  | choose
  | now
  -- `rclone obscure`
  | obscure (passphrase : String)
  -- `BackupPassphraseResponse`
  | respond (passphrase : String)
  deriving DecidableEq, Repr

@[reducible] def Ans : Op → Type
  | .getValue => String
  | .choose => List String
  | .now => ℤ
  | .obscure _ => String
  | _ => Unit

abbrev Answer (op : Op) : Type := Except Exn (Ans op)

abbrev Coro (α : Type) : Type := Prog Op Ans Exn α

abbrev awaitOp (op : Op) : Coro (Ans op) := Prog.perform op

/-! ## The service functions -/

/-- Whether `get_value` finds a passphrase. -/
def hasPassphrase : Coro Bool :=
  tryCatch (do let _ ← awaitOp .getValue; return true) fun
    | .keyError _ => return false
    | e => throw e

def ofExcept {α : Type} : Except Passphrase.Exn α → Coro α
  | .ok a => return a
  | .error e => throw (.passphrase e)

/-- `ensure_backup_passphrase`; `file` are the lines of the word list. -/
def ensureBackupPassphrase (file : List String) : Coro Unit := do
  if ← hasPassphrase then return ()
  else
    let passphraseNumbers ← awaitOp .choose
    let passphrase ← ofExcept (Passphrase.getPassphrase file passphraseNumbers)
    awaitOp (.setValue passphrase)

/-- `get_backup_passphrase`. -/
def getBackupPassphrase (terminalId : String) : Coro String := do
  let passphrase ← awaitOp .getValue
  let time ← awaitOp .now
  awaitOp (.setLastAccess ⟨time, terminalId⟩)
  return passphrase

/-- The endpoint `get_backup_passphrase`. -/
def showBackupPassphrase (xPtlClientId : Option String) : Coro Unit :=
  match xPtlClientId with
  | none => throw (.badRequest "Missing X-Ptl-Client-Id header")
  | some "" => throw (.badRequest "Missing X-Ptl-Client-Id header")
  | some terminalId => do
    let passphrase ← getBackupPassphrase terminalId
    awaitOp (.respond passphrase)

/-- `_get_obscured_passphrase`, as far as the passphrase goes. -/
def getObscuredPassphrase : Coro Unit := do
  let passphrase ← awaitOp .getValue
  let _ ← awaitOp (.obscure passphrase)

/-! ## What the operations do -/

/-- The two rows of `kv_store`. -/
structure World where
  passphrase : Option String := none
  lastAccess : Option LastAccessInfo := none
  deriving DecidableEq

/-- What the environment makes of an operation. -/
inductive Choice where
  | proceed
  /-- What `secrets.choice` yields. -/
  | dice (choice : ℕ → ℕ → Char)
  | clock (time : ℤ)
  | obscured (text : String)
  /-- The operation fails without effect. -/
  | raise (e : Exn)
  /-- The operation takes effect, then an exception surfaces. -/
  | proceedRaise (e : Exn)

/-- An exception that is not the answer of `get_value` to a missing key. -/
def Exn.foreign : Exn → Bool
  | .keyError _ => false
  | _ => true

def World.exec (w : World) (op : Op) : Choice → Option (Answer op × World)
  | .proceed =>
    match op with
    | .getValue =>
      match w.passphrase with
      | some passphrase => some (.ok passphrase, w)
      | none => some (.error (.keyError "backup_passphrase"), w)
    | .setValue passphrase => some (.ok (), { w with passphrase := some passphrase })
    | .setLastAccess info => some (.ok (), { w with lastAccess := some info })
    | .respond _ => some (.ok (), w)
    | _ => none
  | .dice choice =>
    match op with
    | .choose => some (.ok (Passphrase.generatePassphraseNumbers choice 10), w)
    | _ => none
  | .clock time =>
    match op with
    | .now => some (.ok time, w)
    | _ => none
  | .obscured text =>
    match op with
    | .obscure _ => some (.ok text, w)
    | _ => none
  | .raise e => if e.foreign then some (.error e, w) else none
  | .proceedRaise e =>
    match op with
    | .setValue passphrase => if e.foreign then some (.error e, { w with passphrase := some passphrase }) else none
    | .setLastAccess info => if e.foreign then some (.error e, { w with lastAccess := some info }) else none
    | _ => none

/-! ## The lives of a shard -/

inductive Task where
  /-- The step of the startup. -/
  | ensure
  | access (id : ℕ) (xPtlClientId : Option String)
  | backup (id : ℕ)
  deriving DecidableEq, Repr

def Task.program (file : List String) : Task → Coro Unit
  | .ensure => ensureBackupPassphrase file
  | .access _ xPtlClientId => showBackupPassphrase xPtlClientId
  | .backup _ => getObscuredPassphrase

/-- What an operation may answer and leave. -/
def Act (_ : Task) (w : World) (op : Op) (r : Answer op) (w' : World) : Prop :=
  ∃ choice, w.exec op choice = some (r, w')

abbrev Log : Type := List (Entry Op Ans Exn World Task)

abbrev State : Type := Recorded Op Ans Exn World Task

/-- From one start to the next: the step of the startup, accesses and backups, interleaved in any way. -/
abbrev Runs (file : List String) (w : World) (c : Config Op Ans Exn State Task) : Prop :=
  Recorded.Runs Act Recorded.anyway (Task.program file) w c

/-- One life after the other, each of them ended at any point; `log` is what has been performed, latest first. -/
inductive Lives (w : World) : Log → World → Prop where
  | new : Lives w [] w
  | life {log : Log} {w' : World} {file : List String} {c : Config Op Ans Exn State Task} (h : Lives w log w')
    (hrun : Runs file w' c) : Lives w (c.state.log ++ log) c.state.world

/-- A run of a script. -/
theorem exists_run (file : List String) (w : World) (turns : List (Turn Task Choice))
    (F : Config Op Ans Exn State Task → Bool)
    (h : ((Config.idle ⟨w, []⟩).play (Recorded.exec (fun _ => World.exec) Recorded.anyway)
      (turns.map (Turn.move (Task.program file)))).any F = true) :
    ∃ c, Runs file w c ∧ F c = true := by
  have hanswer (i : Task) (w : World) (op : Op) (choice : Choice) (r : Answer op) (w' : World)
      (he : w.exec op choice = some (r, w')) : Act i w op r w' := ⟨choice, he⟩
  obtain ⟨c, hrun, hF, -⟩ := Recorded.Runs.exists (fun _ => World.exec) Recorded.anyway (Task.program file)
    hanswer w turns F h
  exact ⟨c, hrun, hF⟩

end Freeshard.BackupPassphrase

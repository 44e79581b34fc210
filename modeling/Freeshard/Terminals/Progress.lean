import Freeshard.Service.Terminals

/-! # The course of a terminal request

How far the transaction of a request has come when it performs an operation, and what the operation does to the
table. The handler of `on_terminals_update` reads on a connection of its own: after the transaction of a deletion or
a pairing, but within that of an edit. -/

namespace Freeshard.Terminals
open Coroutine Coroutine.Recorded ReadCommitted
set_option autoImplicit false

/-! ## The course of a request -/

/-- How far a request's own transaction has come. -/
structure Progress where
  /-- The row that it has written, and its version. -/
  written : Option (String × Option Terminal) := none
  /-- A commit or a rollback has been tried. -/
  closed : Bool := false
  committed : Bool := false
  /-- A statement that writes has been tried. -/
  touched : Bool := false
  deriving DecidableEq

def Progress.after (p : Progress) : (op : Op) → Answer op → Progress
  | .update .own id _, .ok (some row) => { p with written := some (id, some row), touched := true }
  | .remove .own id, .ok (_ + 1) => { p with written := some (id, none), touched := true }
  | .insert .own terminal, .ok _ => { p with written := some (terminal.id, some terminal), touched := true }
  | .update .own _ _, _ => { p with touched := true }
  | .remove .own _, _ => { p with touched := true }
  | .insert .own _, _ => { p with touched := true }
  | .commit .own, .ok _ => { p with closed := true, committed := true }
  | .commit .own, .error _ => { p with closed := true }
  | .rollback .own, _ => { p with closed := true }
  | _, _ => p

def Call.isEdit : Call → Bool
  | .editTerminal _ _ _ => true
  | _ => false

/-- It writes at most one row. -/
def Call.isSingle : Call → Bool
  | .other _ _ => false
  | _ => true

/-- The handler writes nothing. It reads before the end of the transaction of an edit, and else after its commit. -/
def Call.protocol (i : Call) : Protocol Op Ans Exn Progress where
  allows p op :=
    match op with
    | .commit conn => conn = .own → p.closed = false
    | .getAll conn =>
      conn = .handler ∧ i.isSingle = true ∧ if i.isEdit then p.closed = false else p.committed = true
    | .insert conn _ => conn = .own ∧ (i.isSingle = true → i.isEdit = false ∧ p = {})
    | .update conn _ _ => conn = .own ∧ (i.isSingle = true → p = {})
    | .remove conn _ => conn = .own ∧ (i.isSingle = true → i.isEdit = false ∧ p = {})
    | _ => True
  after := Progress.after

section Conforms
variable {i : Call} {p : Progress}

theorem conforms_dbConn {α : Type} {conn : Conn} {body : Coro α} {R Q : Except Exn α → Progress → Prop}
    (hbody : body.Conforms i.protocol p R) (hconnect : ∀ e, Q (.error e) p)
    (hraise : ∀ e l r e', R (.error e) l → Q (.error e') (l.after (.rollback conn) r))
    (hcommit : ∀ a l, R (.ok a) l → (conn = .own → l.closed = false) ∧ Q (.ok a) (l.after (.commit conn) (.ok ())) ∧
      ∀ e, Q (.error e) (l.after (.commit conn) (.error e))) :
    (dbConn conn body).Conforms i.protocol p Q := by
  refine Prog.Conforms.bind (R := fun r l => l = p) (Prog.Conforms.perform trivial fun r => ?_) ?_ ?_
  · rfl
  · rintro u l rfl
    refine Prog.Conforms.bind (R := fun r l => match r with
      | .ok a => R (.ok a) l
      | .error e => Q (.error e) l) ?_ ?_ ?_
    · refine Prog.Conforms.tryCatch hbody (fun a l h => h) fun e l h => ?_
      refine Prog.Conforms.bind (R := fun r l' => ∀ e', Q (.error e') l')
        (Prog.Conforms.perform trivial fun r e' => hraise e l r e' h) ?_ fun e' l' h' => h' e'
      intro u l' h'
      exact h' e
    · intro a l h
      obtain ⟨hopen, hok, herror⟩ := hcommit a l h
      refine Prog.Conforms.bind (R := fun r l' => match r with
        | .ok _ => Q (.ok a) l'
        | .error e => Q (.error e) l') (Prog.Conforms.perform hopen fun r => ?_) (fun u l' h' => h')
        fun e l' h' => h'
      cases r with
      | ok u => exact hok
      | error e => exact herror e
    · intro e l h
      exact h
  · rintro e l rfl
    exact hconnect e

theorem conforms_quiet (op : Op) (hop : i.protocol.allows p op) (hafter : ∀ r, p.after op r = p) :
    (awaitOp op).Conforms i.protocol p fun _ l => l = p :=
  Prog.Conforms.perform hop fun r => hafter r

theorem conforms_sendTerminalsUpdate (h : i.protocol.allows p (.getAll .handler)) :
    sendTerminalsUpdate.Conforms i.protocol p fun _ l => l = p := by
  refine Prog.Conforms.bind (R := fun _ l => l = p) ?_ ?_ fun _ _ h => h
  · refine conforms_dbConn (R := fun _ l => l = p) (Prog.Conforms.perform h fun r => rfl) (fun _ => rfl) ?_ ?_
    · rintro e l r e' rfl
      rfl
    · rintro a l rfl
      exact ⟨fun h => (by cases h), rfl, fun _ => rfl⟩
  · rintro rows l rfl
    exact Prog.Conforms.perform trivial fun _ => rfl

theorem conforms_editTerminal (n : ℕ) (id : String) (terminal : InputTerminal) :
    (editTerminal id terminal).Conforms (Call.editTerminal n id terminal).protocol {} fun _ _ => True := by
  refine conforms_dbConn (R := fun _ l => l.closed = false) ?_ (fun _ => trivial) (fun _ _ _ _ _ => trivial)
    fun _ _ hl => ⟨fun _ => hl, trivial, fun _ => trivial⟩
  refine Prog.Conforms.bind (conforms_quiet (.getById .own id) trivial fun r => rfl) ?_ ?_
  · rintro t l rfl
    cases t with
    | none => rfl
    | some row =>
      refine Prog.Conforms.bind (R := fun _ l => l.closed = false)
        (Prog.Conforms.perform ⟨rfl, fun _ => rfl⟩ fun r => ?_) (fun updated l hl => ?_) fun _ _ hl => hl
      · cases r with
        | error e => rfl
        | ok updated => cases updated <;> rfl
      · have hallowed : (Call.editTerminal n id terminal).protocol.allows l (.getAll .handler) := ⟨rfl, rfl, hl⟩
        refine (conforms_sendTerminalsUpdate hallowed).mono ?_
        rintro r l' rfl
        exact hl
  · rintro e l rfl
    rfl

theorem conforms_transaction {α : Type} {body : Coro α}
    (hbody : body.Conforms i.protocol {} fun _ l => l.closed = false) :
    (dbConn .own body).Conforms i.protocol {} fun r l => (∃ a, r = .ok a) → l.committed = true := by
  refine conforms_dbConn hbody ?_ ?_ fun _ _ hl => ⟨fun _ => hl, fun _ => rfl, ?_⟩
  · rintro e ⟨a, h⟩
    cases h
  · rintro e l r e' _ ⟨a, h⟩
    cases h
  · rintro e ⟨a, h⟩
    cases h

theorem conforms_deleteTerminalById (n : ℕ) (id : String) :
    (deleteTerminalById id).Conforms (Call.deleteTerminalById n id).protocol {} fun _ _ => True := by
  refine Prog.Conforms.bind (conforms_transaction ?_) (fun u l hl => ?_) fun _ _ _ => trivial
  · refine Prog.Conforms.bind (R := fun _ l => l.closed = false)
      (Prog.Conforms.perform ⟨rfl, fun _ => ⟨rfl, rfl⟩⟩ fun r => ?_)
      (fun _ _ hl => by exact hl) fun _ _ hl => hl
    cases r with
    | error e => rfl
    | ok removed => cases removed <;> rfl
  · have hallowed : (Call.deleteTerminalById n id).protocol.allows l (.getAll .handler) := ⟨rfl, rfl, hl ⟨u, rfl⟩⟩
    exact (conforms_sendTerminalsUpdate hallowed).mono fun _ _ _ => trivial

theorem conforms_addTerminal (n : ℕ) (code : String) (terminal : InputTerminal) :
    (addTerminal code terminal).Conforms (Call.addTerminal n code terminal).protocol {} fun _ _ => True := by
  refine Prog.Conforms.bind (R := fun _ l => l = {}) ?_ ?_ fun _ _ _ => trivial
  · refine Prog.Conforms.tryCatch (conforms_quiet (.redeemPairingCode code) trivial fun _ => rfl) (fun _ _ h => h) ?_
    rintro e l rfl
    rfl
  rintro u l rfl
  refine Prog.Conforms.bind (conforms_quiet (.createTerminal terminal.name) trivial fun _ => rfl) ?_
    fun _ _ _ => trivial
  rintro newTerminal l rfl
  refine Prog.Conforms.bind (conforms_transaction ?_) (fun isFirstTerminal l hl => ?_) fun _ _ _ => trivial
  · refine Prog.Conforms.bind (R := fun _ l => l.closed = false)
      (Prog.Conforms.perform ⟨rfl, fun _ => ⟨rfl, rfl⟩⟩ fun r => ?_) (fun _ l hl => ?_) fun _ _ hl => hl
    · cases r <;> rfl
    · refine Prog.Conforms.bind (conforms_quiet (.count .own) trivial fun _ => rfl) ?_ ?_
      · rintro terminals l' rfl
        exact hl
      · rintro e l' rfl
        exact hl
  · have hcommitted := hl ⟨_, rfl⟩
    refine Prog.Conforms.bind (conforms_quiet .getDefaultIdentity trivial fun _ => rfl) ?_ fun _ _ _ => trivial
    rintro u l' rfl
    refine Prog.Conforms.bind (conforms_quiet (.createTerminalJwt newTerminal.id) trivial fun _ => rfl) ?_
      fun _ _ _ => trivial
    rintro u l'' rfl
    have hallowed : (Call.addTerminal n code terminal).protocol.allows l'' (.getAll .handler) :=
      ⟨rfl, rfl, hcommitted⟩
    refine Prog.Conforms.bind (conforms_sendTerminalsUpdate hallowed) (fun _ _ _ => ?_) fun _ _ _ => trivial
    refine Prog.Conforms.bind (R := fun _ _ => True) (Prog.Conforms.perform trivial fun _ => trivial)
      (fun _ _ _ => ?_) fun _ _ _ => trivial
    split
    · exact Prog.Conforms.perform trivial fun _ => trivial
    · trivial

theorem conforms_other (n : ℕ) (statements : List Statement) :
    (dbConn .own (statements.forM Statement.run)).Conforms (Call.other n statements).protocol {} fun _ _ => True := by
  have hstatement : ∀ (statement : Statement) (l : Progress), l.closed = false →
      statement.run.Conforms (Call.other n statements).protocol l fun _ l' => l'.closed = false := by
    intro statement l hl
    cases statement with
    | insert terminal =>
      refine Prog.Conforms.perform ⟨rfl, fun h => by cases h⟩ fun r => ?_
      cases r <;> exact hl
    | update id data =>
      refine Prog.Conforms.bind (R := fun _ l => l.closed = false)
        (Prog.Conforms.perform ⟨rfl, fun h => by cases h⟩ fun r => ?_) (fun _ _ hl => by exact hl) fun _ _ hl => hl
      cases r with
      | error e => exact hl
      | ok updated => cases updated <;> exact hl
    | remove id =>
      refine Prog.Conforms.bind (R := fun _ l => l.closed = false)
        (Prog.Conforms.perform ⟨rfl, fun h => by cases h⟩ fun r => ?_) (fun _ _ hl => by exact hl) fun _ _ hl => hl
      cases r with
      | error e => exact hl
      | ok removed => cases removed <;> exact hl
  refine (conforms_transaction ?_).mono fun _ _ _ => trivial
  generalize Call.other n statements = i at hstatement ⊢
  suffices h : ∀ l : Progress, l.closed = false →
      (statements.forM Statement.run).Conforms i.protocol l fun _ l' => l'.closed = false from h {} rfl
  induction statements with
  | nil => exact fun _ hl => hl
  | cons statement statements ih =>
    intro l hl
    exact Prog.Conforms.bind (hstatement statement l hl) (fun _ l' hl' => ih l' hl') fun _ _ hl => hl

theorem conforms_program (i : Call) : i.program.Conforms i.protocol {} fun _ _ => True := by
  cases i with
  | editTerminal n id terminal => exact conforms_editTerminal n id terminal
  | deleteTerminalById n id => exact conforms_deleteTerminalById n id
  | addTerminal n code terminal => exact conforms_addTerminal n code terminal
  | other n statements => exact conforms_other n statements

end Conforms
/-! ## What an operation does to the table -/

/-- The transaction has come as far as before. -/
def Progress.Stays (p p' : Progress) : Prop :=
  p'.written = p.written ∧ p'.closed = p.closed ∧ p'.committed = p.committed

/-- What an operation of a request can do to the table, and what it means for the request's transaction. -/
inductive Does (i : Call) (w : World) : (op : Op) → Answer op → World → Prop where
  /-- Nothing is written, and the transaction goes on. -/
  | keeps {op : Op} {r : Answer op} (h : ∀ p : Progress, p.Stays (p.after op r)) : Does i w op r w
  | commits (conn : Conn) (r : Answer (.commit conn)) : Does i w (.commit conn) r (w.commit i conn)
  | gives (conn : Conn) (e : Exn) : Does i w (.commit conn) (.error e) (w.rollback i conn)
  | rolls (conn : Conn) (r : Answer (.rollback conn)) : Does i w (.rollback conn) r (w.rollback i conn)
  | inserts {conn : Conn} {row : Terminal} {r : Answer (.insert conn row)}
      (hfree : w.terminals.free (i, conn) row.id = true) : Does i w (.insert conn row) r (w.write i conn row.id (some row))
  | updates {conn : Conn} {id : String} {data : UpdateData} {row : Terminal} {r : Answer (.update conn id data)}
      (hrow : w.row i conn id = some row) (hr : r = .ok (some (data.apply row)) ∨ ∃ e, r = .error e)
      (hfree : w.terminals.free (i, conn) id = true) :
      Does i w (.update conn id data) r (w.write i conn id (some (data.apply row)))
  | removes {conn : Conn} {id : String} {r : Answer (.remove conn id)} (hr : r = .ok 1 ∨ ∃ e, r = .error e)
      (hfree : w.terminals.free (i, conn) id = true) : Does i w (.remove conn id) r (w.write i conn id none)

variable {i : Call} {w w' : World}

theorem Progress.stays_error (p : Progress) {op : Op} (e : Exn) (hcommit : ∀ conn, op ≠ .commit conn)
    (hrollback : ∀ conn, op ≠ .rollback conn) : p.Stays (p.after op (.error e)) := by
  cases op with
  | commit conn => exact absurd rfl (hcommit conn)
  | rollback conn => exact absurd rfl (hrollback conn)
  | insert conn row => cases conn <;> exact ⟨rfl, rfl, rfl⟩
  | update conn id data => cases conn <;> exact ⟨rfl, rfl, rfl⟩
  | remove conn id => cases conn <;> exact ⟨rfl, rfl, rfl⟩
  | _ => exact ⟨rfl, rfl, rfl⟩

theorem Does.of_effect {op : Op} {r r' : Answer op} (h : w.effect i op = some (r, w'))
    (hr' : r' = r ∨ ∃ e, r' = .error e) : Does i w op r' w' := by
  cases op with
  | commit conn =>
    cases h
    exact .commits conn r'
  | rollback conn =>
    cases h
    exact .rolls conn r'
  | insert conn row =>
    simp only [World.effect] at h
    split at h
    · cases h
      refine .keeps fun p => ?_
      obtain rfl | ⟨e, rfl⟩ := hr' <;> cases conn <;> exact ⟨rfl, rfl, rfl⟩
    · split at h
      · next hfree =>
        cases h
        exact .inserts hfree
      · cases h
  | update conn id data =>
    simp only [World.effect] at h
    split at h
    · cases h
      refine .keeps fun p => ?_
      obtain rfl | ⟨e, rfl⟩ := hr' <;> cases conn <;> exact ⟨rfl, rfl, rfl⟩
    · next row hrow =>
      split at h
      · next hfree =>
        cases h
        exact .updates hrow hr' hfree
      · cases h
  | remove conn id =>
    simp only [World.effect] at h
    split at h
    · cases h
      refine .keeps fun p => ?_
      obtain rfl | ⟨e, rfl⟩ := hr' <;> cases conn <;> exact ⟨rfl, rfl, rfl⟩
    · split at h
      · next hfree =>
        cases h
        exact .removes hr' hfree
      · cases h
  | createTerminal name => cases h
  | _ =>
    cases h
    exact .keeps fun p => ⟨rfl, rfl, rfl⟩

theorem Act.does {op : Op} {r : Answer op} (h : Act i w op r w') : Does i w op r w' := by
  obtain ⟨choice, h⟩ := h
  cases choice with
  | proceed => exact .of_effect h (.inl rfl)
  | raise e =>
    cases op with
    | commit conn =>
      cases h
      exact .gives conn e
    | rollback conn =>
      cases h
      exact .rolls conn _
    | _ =>
      cases h
      exact .keeps fun p => p.stays_error e (fun _ h => by cases h) fun _ h => by cases h
  | proceedRaise e =>
    obtain ⟨⟨r', w''⟩, he, heq⟩ := Option.map_eq_some_iff.mp h
    cases heq
    exact .of_effect he (.inr ⟨e, rfl⟩)
  | creates terminal =>
    cases op with
    | createTerminal name =>
      simp only [World.exec] at h
      split at h
      · cases h
        exact .keeps fun p => ⟨rfl, rfl, rfl⟩
      · cases h
    | _ => cases h

end Freeshard.Terminals

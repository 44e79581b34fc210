import Freeshard.Terminals.Progress
import Mathlib.Data.List.ReduceOption

/-! # What a broadcast shows

`edit_terminal` sends `on_terminals_update` within its transaction, and the handler reads on a connection of its own.
So the broadcast of an edit shows the row as it was before the edit. -/

namespace Freeshard.Terminals
open Coroutine Coroutine.Recorded ReadCommitted
set_option autoImplicit false

/-- How far the transaction of a request has come after the operations of a log. -/
def progress (i : Call) (log : Log) : Progress := phaseOf Call.protocol (fun _ => {}) i log

/-- The row of the key among these rows is `version`. -/
def Shows (rows : List Terminal) (k : String) (version : Option Terminal) : Prop :=
  ∀ row, row ∈ rows ∧ row.id = k ↔ version = some row

/-- The end of a transaction that has changed the committed row. -/
def Changes (e : Entry Op Ans Exn World Call) (k : String) : Prop :=
  ∃ conn, e.op = .commit conn ∧ (e.before.commit e.caller conn).committedRow k ≠ e.before.committedRow k

/-- After the commit of the request, another one has changed the row. -/
def Superseded (i : Call) (log : Log) (k : String) : Prop :=
  ∃ newer older w, log = newer ++ ⟨i, .commit .own, .ok (), w⟩ :: older ∧ ∃ e ∈ newer, Changes e k

/-- The rows contain the change that the request has made, or a later one. -/
def Contains (i : Call) (log : Log) (rows : List Terminal) : Prop :=
  ∀ k version, (progress i log).written = some (k, version) → Shows rows k version ∨ Superseded i log k

/-- The committed row already had the values that the request has given it. -/
def Unchanged (i : Call) (log : Log) : Prop :=
  ∀ id data row w, ⟨i, .update .own id data, .ok (some row), w⟩ ∈ log →
    ∃ found, w.committedRow id = some found ∧ data.apply found = found

/-! ## The locks -/

/-- The connection that an operation works on, if it can write there. -/
def Op.conn : Op → Option Conn
  | .commit conn => some conn
  | .rollback conn => some conn
  | .insert conn _ => some conn
  | .update conn _ _ => some conn
  | .remove conn _ => some conn
  | _ => none

section Locks
variable {i : Call} {w w' : World} {op : Op} {r : Answer op} {k : String} {c : Call × Conn}
  {version : Option Terminal}

theorem write_locked {conn : Conn} {id : String} {written : Option Terminal}
    (hfree : w.terminals.free (i, conn) id = true) (h : w.terminals.uncommitted k = some (c, version))
    (hc : c ≠ (i, conn)) :
    (w.write i conn id written).terminals.uncommitted k = some (c, version) ∧
      (w.write i conn id written).committedRow k = w.committedRow k := by
  refine ⟨?_, rfl⟩
  have hk : k ≠ id := by
    rintro rfl
    exact hc (Store.free_iff.mp hfree c version h)
  exact (Store.write_uncommitted_ne hk).trans h

/-- An uncommitted row stays as it is but for operations of its own connection. -/
theorem Does.locked (hdoes : Does i w op r w') (h : w.terminals.uncommitted k = some (c, version))
    (hc : ∀ conn, op.conn = some conn → c ≠ (i, conn)) :
    w'.terminals.uncommitted k = some (c, version) ∧ w'.committedRow k = w.committedRow k := by
  cases hdoes with
  | keeps hafter => exact ⟨h, rfl⟩
  | commits conn r =>
    have hne := hc conn rfl
    exact ⟨Store.commit_uncommitted.mpr ⟨h, hne⟩, congrArg Option.join (Store.commit_committed_of_locked h hne)⟩
  | gives conn e => exact ⟨Store.rollback_uncommitted.mpr ⟨h, hc conn rfl⟩, rfl⟩
  | rolls conn r => exact ⟨Store.rollback_uncommitted.mpr ⟨h, hc conn rfl⟩, rfl⟩
  | inserts hfree => exact write_locked hfree h (hc _ rfl)
  | updates hrow hr hfree => exact write_locked hfree h (hc _ rfl)
  | removes hr hfree => exact write_locked hfree h (hc _ rfl)

theorem Does.committedRow (hdoes : Does i w op r w') :
    w'.committedRow k = w.committedRow k ∨ Changes ⟨i, op, r, w⟩ k := by
  cases hdoes with
  | commits conn r =>
    by_cases h : (w.commit i conn).committedRow k = w.committedRow k
    · exact .inl h
    · exact .inr ⟨conn, rfl, h⟩
  | _ => exact .inl rfl

end Locks

/-! ## The rows carry their keys -/

/-- Every version of a row is of its key, and the handlers have written none. -/
structure Keyed (w : World) : Prop where
  committed : ∀ k row, w.committedRow k = some row → row.id = k
  uncommitted : ∀ k c row, w.terminals.uncommitted k = some (c, some row) → row.id = k

section Keyed
variable {w w' : World} {i : Call}

theorem World.row_cases (w : World) (i : Call) (conn : Conn) (k : String) :
    (∃ version, w.terminals.uncommitted k = some ((i, conn), version) ∧ w.row i conn k = version) ∨
      (∀ version, w.terminals.uncommitted k ≠ some ((i, conn), version)) ∧ w.row i conn k = w.committedRow k := by
  obtain ⟨version, h, hvisible⟩ | ⟨h, hvisible⟩ := w.terminals.visible_cases (i, conn) k
  · exact .inl ⟨version, h, congrArg Option.join hvisible⟩
  · exact .inr ⟨h, congrArg Option.join hvisible⟩

theorem Keyed.row (h : Keyed w) (conn : Conn) {k : String} {row : Terminal} (hrow : w.row i conn k = some row) :
    row.id = k := by
  obtain ⟨version, hversion, heq⟩ | ⟨-, heq⟩ := w.row_cases i conn k
  · rw [hrow] at heq
    subst heq
    exact h.uncommitted k _ row hversion
  · rw [hrow] at heq
    exact h.committed k row heq.symm

theorem Keyed.write (h : Keyed w) (conn : Conn) {id : String} {version : Option Terminal}
    (hid : ∀ row, version = some row → row.id = id) : Keyed (w.write i conn id version) where
  committed := h.committed
  uncommitted := by
    intro k c row hk
    by_cases hne : k = id
    · subst hne
      have hself : (w.write i conn k version).terminals.uncommitted k = some ((i, conn), version) :=
        Store.write_uncommitted_self
      rw [hself] at hk
      exact hid row (congrArg Prod.snd (Option.some.inj hk))
    · exact h.uncommitted k c row ((Store.write_uncommitted_ne hne).symm.trans hk)

theorem Does.keyed {op : Op} {r : Answer op} (hdoes : Does i w op r w') (h : Keyed w) : Keyed w' := by
  cases hdoes with
  | keeps hafter => exact h
  | commits conn r =>
    exact ⟨fun k row hrow => h.row conn hrow,
      fun k c row hk => h.uncommitted k c row (Store.commit_uncommitted.mp hk).1⟩
  | gives conn e => exact ⟨h.committed, fun k c row hk => h.uncommitted k c row (Store.rollback_uncommitted.mp hk).1⟩
  | rolls conn r => exact ⟨h.committed, fun k c row hk => h.uncommitted k c row (Store.rollback_uncommitted.mp hk).1⟩
  | inserts hfree =>
    refine h.write _ fun row hrow => ?_
    cases hrow
    rfl
  | updates hrow hr hfree =>
    refine h.write _ fun row' hrow' => ?_
    have hid := h.row _ hrow
    cases hrow'
    exact hid
  | removes hr hfree => exact h.write _ fun row hrow => by cases hrow

theorem World.mem_rows {conn : Conn} {row : Terminal} :
    row ∈ w.rows i conn ↔ ∃ k, w.row i conn k = some row := by
  have hrows : row ∈ w.rows i conn ↔ some row ∈ w.terminals.rows (i, conn) := List.reduceOption_mem_iff
  rw [hrows, Store.mem_rows]
  refine exists_congr fun k => ?_
  rw [World.row]
  cases w.terminals.visible (i, conn) k with
  | none => simp
  | some version => simp

theorem Keyed.shows (h : Keyed w) {conn : Conn} {k : String} (version : Option Terminal) :
    Shows (w.rows i conn) k version ↔ w.row i conn k = version := by
  have hrow : ∀ row, row ∈ w.rows i conn ∧ row.id = k ↔ w.row i conn k = some row := by
    intro row
    rw [World.mem_rows]
    constructor
    · rintro ⟨⟨k', hk'⟩, hid⟩
      have hkey := h.row conn hk'
      rw [hkey] at hid
      rwa [hid] at hk'
    · intro hk
      exact ⟨⟨k, hk⟩, h.row conn hk⟩
  simp only [Shows, hrow]
  constructor
  · intro heq
    cases hv : version with
    | some row => exact (heq row).mpr hv
    | none =>
      cases hw : w.row i conn k with
      | none => rfl
      | some row =>
        have hsome := (heq row).mp hw
        rw [hv] at hsome
        cases hsome
  · rintro rfl row
    rfl

end Keyed

/-! ## The transaction of a request of one row -/

/-- What an operation of such a request is for its transaction. -/
inductive Stage (i : Call) (p : Progress) (w : World) : (op : Op) → Answer op → World → Prop where
  /-- It does not concern the transaction, and the rows that it has locked stay as they are. -/
  | stays {op : Op} {r : Answer op} {w' : World} (hafter : ∀ p : Progress, p.Stays (p.after op r))
      (hlocked : ∀ k version, w.terminals.uncommitted k = some ((i, .own), version) →
        w'.terminals.uncommitted k = some ((i, .own), version) ∧ w'.committedRow k = w.committedRow k) :
      Stage i p w op r w'
  /-- A statement that raises. -/
  | fails {op : Op} {r : Answer op} {w' : World} (hp : p = {}) (hafter : ∀ p : Progress, p.Stays (p.after op r)) :
      Stage i p w op r w'
  | commits (hopen : p.closed = false) : Stage i p w (.commit .own) (.ok ()) (w.commit i .own)
  | breaks {w' : World} (e : Exn) : Stage i p w (.commit .own) (.error e) w'
  | rolls {w' : World} (r : Answer (.rollback .own)) : Stage i p w (.rollback .own) r w'
  | inserts (hp : p = {}) (hedit : i.isEdit = false) (row : Terminal) :
      Stage i p w (.insert .own row) (.ok ()) (w.write i .own row.id (some row))
  | updates (hp : p = {}) {id : String} (data : UpdateData) {found : Terminal}
      (hfound : w.row i .own id = some found) :
      Stage i p w (.update .own id data) (.ok (some (data.apply found)))
        (w.write i .own id (some (data.apply found)))
  | removes (hp : p = {}) (hedit : i.isEdit = false) (id : String) :
      Stage i p w (.remove .own id) (.ok 1) (w.write i .own id none)

theorem Does.stage {i : Call} {p : Progress} {w w' : World} {op : Op} {r : Answer op} (hdoes : Does i w op r w')
    (hsingle : i.isSingle = true) (hallowed : i.protocol.allows p op) : Stage i p w op r w' := by
  have hhandler : op.conn = some .handler → (∀ p : Progress, p.Stays (p.after op r)) → Stage i p w op r w' := by
    intro hconn hafter
    refine .stays hafter fun k version hk => hdoes.locked hk fun conn hop heq => ?_
    rw [hconn] at hop
    cases hop
    cases heq
  cases hdoes with
  | keeps hafter => exact .stays hafter fun k version hk => ⟨hk, rfl⟩
  | commits conn r =>
    cases conn with
    | handler => exact hhandler rfl fun p => ⟨rfl, rfl, rfl⟩
    | own =>
      cases r with
      | ok u => exact .commits (hallowed rfl)
      | error e => exact .breaks e
  | gives conn e =>
    cases conn with
    | handler => exact hhandler rfl fun p => ⟨rfl, rfl, rfl⟩
    | own => exact .breaks e
  | rolls conn r =>
    cases conn with
    | handler => exact hhandler rfl fun p => ⟨rfl, rfl, rfl⟩
    | own => exact .rolls r
  | @inserts conn row r hfree =>
    obtain ⟨rfl, hp⟩ := hallowed
    obtain ⟨hedit, rfl⟩ := hp hsingle
    cases r with
    | ok u => exact .inserts rfl hedit row
    | error e => exact .fails rfl fun p => ⟨rfl, rfl, rfl⟩
  | @updates conn id data row r hrow hr hfree =>
    obtain ⟨rfl, hp⟩ := hallowed
    obtain rfl := hp hsingle
    obtain rfl | ⟨e, rfl⟩ := hr
    · exact .updates rfl data hrow
    · exact .fails rfl fun p => ⟨rfl, rfl, rfl⟩
  | @removes conn id r hr hfree =>
    obtain ⟨rfl, hp⟩ := hallowed
    obtain ⟨hedit, rfl⟩ := hp hsingle
    obtain rfl | ⟨e, rfl⟩ := hr
    · exact .removes rfl hedit id
    · exact .fails rfl fun p => ⟨rfl, rfl, rfl⟩

/-- How the transaction of such a request stands. -/
structure Course (i : Call) (s : State) : Prop where
  committed : (progress i s.log).committed = true → ∃ w, ⟨i, .commit .own, .ok (), w⟩ ∈ s.log
  closed : ∀ w, ⟨i, .commit .own, .ok (), w⟩ ∈ s.log → (progress i s.log).closed = true
  /-- The row that it has written is locked. -/
  locked : ∀ k version, (progress i s.log).written = some (k, version) → (progress i s.log).closed = false →
    s.world.terminals.uncommitted k = some ((i, .own), version)
  /-- After the commit the row is as written, until another commit changes it. -/
  row : ∀ k version, (progress i s.log).written = some (k, version) → (progress i s.log).committed = true →
    s.world.committedRow k = version ∨ Superseded i s.log k
  /-- Until its end the committed row is as the update found it. -/
  updated : ∀ id data row w, ⟨i, .update .own id data, .ok (some row), w⟩ ∈ s.log →
    (progress i s.log).written = some (id, some row) ∧ ∃ found, w.committedRow id = some found ∧
      row = data.apply found ∧ ((progress i s.log).closed = false → s.world.committedRow id = some found)
  wrote : i.isEdit = true → ∀ k version, (progress i s.log).written = some (k, version) →
    ∃ data row w, version = some row ∧ ⟨i, .update .own k data, .ok (some row), w⟩ ∈ s.log

section Course
variable {i j : Call} {s : State} {op : Op} {r : Answer op} {w' : World} {k : String}

theorem progress_self : progress i (s.next i op r w').log = (progress i s.log).after op r :=
  phaseOf_next_self s i op r w'

theorem progress_ne (h : j ≠ i) : progress j (s.next i op r w').log = progress j s.log :=
  phaseOf_next_ne s op r w' h

theorem Superseded.cons {log : Log} (h : Superseded i log k) (e : Entry Op Ans Exn World Call) :
    Superseded i (e :: log) k := by
  obtain ⟨newer, older, w, rfl, e', he', hchanges⟩ := h
  exact ⟨e :: newer, older, w, rfl, e', List.mem_cons_of_mem _ he', hchanges⟩

theorem Changes.superseded {e : Entry Op Ans Exn World Call} (h : Changes e k) {log : Log} {w : World}
    (hw : ⟨i, .commit .own, .ok (), w⟩ ∈ log) : Superseded i (e :: log) k := by
  obtain ⟨newer, older, rfl⟩ := List.append_of_mem hw
  exact ⟨e :: newer, older, w, rfl, e, List.mem_cons_self, h⟩

theorem Course.not_superseded (h : Course i s) (hopen : (progress i s.log).closed = false) :
    ¬ Superseded i s.log k := by
  rintro ⟨newer, older, w, hlog, -⟩
  have hclosed := h.closed w (by rw [hlog]; simp)
  rw [hopen] at hclosed
  cases hclosed

theorem Course.row_step (h : Course j s) (hdoes : Does i s.world op r w') {version : Option Terminal}
    (hwritten : (progress j s.log).written = some (k, version)) (hcommitted : (progress j s.log).committed = true) :
    w'.committedRow k = version ∨ Superseded j (s.next i op r w').log k := by
  obtain hrow | hsuperseded := h.row k version hwritten hcommitted
  · obtain hsame | hchanges := hdoes.committedRow (k := k)
    · exact .inl (hsame.trans hrow)
    · obtain ⟨w, hw⟩ := h.committed hcommitted
      exact .inr (hchanges.superseded hw)
  · exact .inr (hsuperseded.cons _)

theorem Course.keeps (h : Course j s) (hdoes : Does i s.world op r w')
    (hprogress : (progress j s.log).Stays (progress j (s.next i op r w').log))
    (hcommits : ∀ w, ⟨j, .commit .own, .ok (), w⟩ ∈ (s.next i op r w').log → ⟨j, .commit .own, .ok (), w⟩ ∈ s.log)
    (hupdates : ∀ id data row w, ⟨j, .update .own id data, .ok (some row), w⟩ ∈ (s.next i op r w').log →
      ⟨j, .update .own id data, .ok (some row), w⟩ ∈ s.log)
    (hlocked : ∀ k version, (progress j s.log).written = some (k, version) →
      s.world.terminals.uncommitted k = some ((j, .own), version) →
        w'.terminals.uncommitted k = some ((j, .own), version) ∧ w'.committedRow k = s.world.committedRow k) :
    Course j (s.next i op r w') := by
  have hcons : ∀ e ∈ s.log, e ∈ (s.next i op r w').log := fun e he => List.mem_cons_of_mem _ he
  obtain ⟨hw, hclosed, hc⟩ := hprogress
  constructor <;> simp only [hw, hclosed, hc]
  · intro hcommitted
    obtain ⟨w, hw⟩ := h.committed hcommitted
    exact ⟨w, hcons _ hw⟩
  · exact fun w hw => h.closed w (hcommits w hw)
  · exact fun k version hwritten hopen => (hlocked k version hwritten (h.locked k version hwritten hopen)).1
  · exact fun k version hwritten hcommitted => h.row_step hdoes hwritten hcommitted
  · intro id data row w hw
    obtain ⟨hwritten, found, hfound, hrow, hcurrent⟩ := h.updated id data row w (hupdates id data row w hw)
    refine ⟨hwritten, found, hfound, hrow, fun hopen => ?_⟩
    exact (hlocked id _ hwritten (h.locked id _ hwritten hopen)).2.trans (hcurrent hopen)
  · intro hedit k version hwritten
    obtain ⟨data, row, w, hversion, hw⟩ := h.wrote hedit k version hwritten
    exact ⟨data, row, w, hversion, hcons _ hw⟩

theorem Course.other (h : Course j s) (hne : j ≠ i) (hdoes : Does i s.world op r w') :
    Course j (s.next i op r w') := by
  have hmem : ∀ (op' : Op) (r' : Answer op') w, ⟨j, op', r', w⟩ ∈ (s.next i op r w').log → ⟨j, op', r', w⟩ ∈ s.log := by
    intro op' r' w hw
    obtain heq | hw := List.mem_cons.mp hw
    · cases heq
      exact absurd rfl hne
    · exact hw
  refine h.keeps hdoes ?_ (fun w => hmem _ _ w) (fun id data row w => hmem _ _ w) fun k version _ hk => ?_
  · rw [progress_ne hne]
    exact ⟨rfl, rfl, rfl⟩
  · exact hdoes.locked hk fun conn _ heq => hne (congrArg Prod.fst heq)

/-- An operation that leaves the progress is no commit, and no update that has found its row. -/
theorem mem_of_stays (i : Call) (s : State) (w' : World) (hafter : ∀ p : Progress, p.Stays (p.after op r)) :
    (∀ w, ⟨i, .commit .own, .ok (), w⟩ ∈ (s.next i op r w').log → ⟨i, .commit .own, .ok (), w⟩ ∈ s.log) ∧
      ∀ id data row w, ⟨i, .update .own id data, .ok (some row), w⟩ ∈ (s.next i op r w').log →
        ⟨i, .update .own id data, .ok (some row), w⟩ ∈ s.log := by
  constructor
  · intro w hw
    obtain heq | hw := List.mem_cons.mp hw
    · cases heq
      cases (hafter {}).2.1
    · exact hw
  · intro id data row w hw
    obtain heq | hw := List.mem_cons.mp hw
    · cases heq
      cases (hafter {}).1
    · exact hw

theorem Course.stays (h : Course i s) (hafter : ∀ p : Progress, p.Stays (p.after op r))
    (hdoes : Does i s.world op r w')
    (hlocked : ∀ k version, (progress i s.log).written = some (k, version) →
      s.world.terminals.uncommitted k = some ((i, .own), version) →
        w'.terminals.uncommitted k = some ((i, .own), version) ∧ w'.committedRow k = s.world.committedRow k) :
    Course i (s.next i op r w') := by
  obtain ⟨hcommits, hupdates⟩ := mem_of_stays i s w' hafter
  refine h.keeps hdoes ?_ hcommits hupdates hlocked
  rw [progress_self]
  exact hafter _

theorem Course.ends (h : Course i s) (hdoes : Does i s.world op r w')
    (hwritten : ((progress i s.log).after op r).written = (progress i s.log).written)
    (hclosed : ((progress i s.log).after op r).closed = true)
    (hcommitted : ((progress i s.log).after op r).committed = true →
      (∃ w, ⟨i, .commit .own, .ok (), w⟩ ∈ (s.next i op r w').log) ∧ ∀ k version,
        (progress i s.log).written = some (k, version) →
          w'.committedRow k = version ∨ Superseded i (s.next i op r w').log k)
    (hupdate : ∀ id data, op ≠ .update .own id data) : Course i (s.next i op r w') := by
  constructor <;> rw [progress_self]
  · exact fun hc => (hcommitted hc).1
  · exact fun _ _ => hclosed
  · intro k version _ hopen
    rw [hclosed] at hopen
    cases hopen
  · intro k version hw hc
    exact (hcommitted hc).2 k version (hwritten.symm.trans hw)
  · intro id data row w hw
    obtain heq | hw := List.mem_cons.mp hw
    · cases heq
      exact absurd rfl (hupdate id data)
    · obtain ⟨hrow, found, hfound, heq, -⟩ := h.updated id data row w hw
      refine ⟨hwritten.trans hrow, found, hfound, heq, fun hopen => ?_⟩
      rw [hclosed] at hopen
      cases hopen
  · intro hedit k version hw
    obtain ⟨data, row, w, hversion, hmem⟩ := h.wrote hedit k version (hwritten.symm.trans hw)
    exact ⟨data, row, w, hversion, List.mem_cons_of_mem _ hmem⟩

theorem Course.writes (h : Course i s) (hp : progress i s.log = {}) {version : Option Terminal}
    (hafter : (progress i s.log).after op r = { written := some (k, version), touched := true })
    (hworld : w' = s.world.write i .own k version) (hcommit : ∀ conn, op ≠ .commit conn)
    (hedit : i.isEdit = true → ∃ data row, version = some row ∧
      ⟨i, .update .own k data, .ok (some row), s.world⟩ ∈ (s.next i op r w').log)
    (hupdate : ∀ id data row w, ⟨i, .update .own id data, .ok (some row), w⟩ ∈ (s.next i op r w').log →
      ⟨i, .update .own id data, .ok (some row), w⟩ ∈ s.log ∨ id = k ∧ version = some row ∧ w = s.world ∧
        ∃ found, s.world.committedRow k = some found ∧ row = data.apply found) :
    Course i (s.next i op r w') := by
  constructor <;> rw [progress_self, hafter]
  · exact fun hc => by cases hc
  · intro w hw
    obtain heq | hw := List.mem_cons.mp hw
    · cases heq
      exact absurd rfl (hcommit .own)
    · have hclosed := h.closed w hw
      rw [hp] at hclosed
      cases hclosed
  · intro k' version' hw _
    cases hw
    rw [hworld]
    exact Store.write_uncommitted_self
  · exact fun _ _ _ hc => by cases hc
  · intro id data row w hw
    obtain hw | ⟨rfl, rfl, rfl, found, hfound, hrow⟩ := hupdate id data row w hw
    · have hwritten := (h.updated id data row w hw).1
      rw [hp] at hwritten
      cases hwritten
    · rw [hworld]
      exact ⟨rfl, found, hfound, hrow, fun _ => hfound⟩
  · intro he k' version' hw
    cases hw
    obtain ⟨data, row, hversion, hw⟩ := hedit he
    exact ⟨data, row, s.world, hversion, hw⟩

/-- Before its first statement the request has no version. -/
def Untouched (i : Call) (s : State) : Prop :=
  (progress i s.log).touched = false → ∀ k version, s.world.terminals.uncommitted k ≠ some ((i, .own), version)

theorem Course.own (h : Course i s) (huntouched : Untouched i s) (hdoes : Does i s.world op r w')
    (hstage : Stage i (progress i s.log) s.world op r w') : Course i (s.next i op r w') := by
  cases hstage with
  | stays hafter hlocked => exact h.stays hafter hdoes fun k version _ hk => hlocked k version hk
  | fails hp hafter =>
    refine h.stays hafter hdoes fun k version hwritten _ => ?_
    rw [hp] at hwritten
    cases hwritten
  | commits hopen =>
    refine h.ends hdoes rfl rfl (fun _ => ⟨⟨s.world, List.mem_cons_self⟩, fun k version hwritten => .inl ?_⟩)
      fun _ _ hop => by cases hop
    exact congrArg Option.join (Store.visible_own (h.locked k version hwritten hopen))
  | breaks e =>
    refine h.ends hdoes rfl rfl (fun hcommitted => ⟨?_, fun k version hwritten => ?_⟩) fun _ _ hop => by cases hop
    · obtain ⟨w, hw⟩ := h.committed hcommitted
      exact ⟨w, List.mem_cons_of_mem _ hw⟩
    · exact h.row_step hdoes hwritten hcommitted
  | rolls r =>
    refine h.ends hdoes rfl rfl (fun hcommitted => ⟨?_, fun k version hwritten => ?_⟩) fun _ _ hop => by cases hop
    · obtain ⟨w, hw⟩ := h.committed hcommitted
      exact ⟨w, List.mem_cons_of_mem _ hw⟩
    · exact h.row_step hdoes hwritten hcommitted
  | inserts hp hedit row =>
    refine h.writes hp (by rw [hp]; rfl) rfl (fun _ hop => by cases hop) (fun he => ?_) fun id data row' w hw => ?_
    · rw [hedit] at he
      cases he
    · obtain heq | hw := List.mem_cons.mp hw
      · cases heq
      · exact .inl hw
  | @updates hp id data found hfound =>
    have hcommitted : s.world.committedRow id = some found := by
      obtain ⟨version, hversion, -⟩ | ⟨-, hrow⟩ := s.world.row_cases i .own id
      · exact absurd hversion (huntouched (by rw [hp]) id version)
      · exact hrow.symm.trans hfound
    refine h.writes hp (by rw [hp]; rfl) rfl (fun _ hop => by cases hop)
      (fun _ => ⟨data, _, rfl, List.mem_cons_self⟩) fun id' data' row' w hw => ?_
    obtain heq | hw := List.mem_cons.mp hw
    · cases heq
      exact .inr ⟨rfl, rfl, rfl, found, hcommitted, rfl⟩
    · exact .inl hw
  | removes hp hedit id =>
    refine h.writes hp (by rw [hp]; rfl) rfl (fun _ hop => by cases hop) (fun he => ?_) fun id' data row w hw => ?_
    · rw [hedit] at he
      cases he
    · obtain heq | hw := List.mem_cons.mp hw
      · cases heq
      · exact .inl hw

end Course

/-! ## The invariant -/

/-- The read of a handler contains what its request has done, but for an edit that changes its row. -/
def ReadsAsClaimed (log : Log) : Prop :=
  ∀ newer older i rows w, log = newer ++ ⟨i, .getAll .handler, .ok rows, w⟩ :: older →
    (Contains i older rows ↔ (i.isEdit = true → Unchanged i older))

structure Inv (s : State) : Prop where
  keyed : Keyed s.world
  /-- No handler has written. -/
  handlers : ∀ k i version, s.world.terminals.uncommitted k ≠ some ((i, .handler), version)
  untouched : ∀ i, Untouched i s
  course : ∀ i : Call, i.isSingle = true → Course i s
  reads : ReadsAsClaimed s.log

theorem Act.rows {i : Call} {w w' : World} {conn : Conn} {rows : List Terminal}
    (h : Act i w (.getAll conn) (.ok rows) w') : rows = w.rows i conn := by
  obtain ⟨choice, h⟩ := h
  cases choice with
  | proceed =>
    cases h
    rfl
  | raise e => cases h
  | proceedRaise e => cases h
  | creates terminal => cases h

section Inv
variable {i : Call} {s : State}

theorem Inv.shows (h : Inv s) (k : String) (version : Option Terminal) :
    Shows (s.world.rows i .handler) k version ↔ s.world.committedRow k = version := by
  rw [h.keyed.shows version]
  obtain ⟨version', hversion, -⟩ | ⟨-, hrow⟩ := s.world.row_cases i .handler k
  · exact absurd hversion (h.handlers k i version')
  · rw [hrow]

theorem Inv.contains_iff (h : Inv s) (hallowed : i.protocol.allows (progress i s.log) (.getAll .handler)) :
    Contains i s.log (s.world.rows i .handler) ↔ (i.isEdit = true → Unchanged i s.log) := by
  obtain ⟨-, hsingle, hphase⟩ := hallowed
  have hcourse := h.course i hsingle
  cases hedit : i.isEdit with
  | false =>
    rw [hedit, if_neg Bool.false_ne_true] at hphase
    refine ⟨fun _ he => (by cases he), fun _ k version hwritten => ?_⟩
    exact (hcourse.row k version hwritten hphase).imp_left (h.shows k version).mpr
  | true =>
    rw [hedit, if_pos rfl] at hphase
    constructor
    · intro hcontains _ id data row w hw
      obtain ⟨hwritten, found, hfound, rfl, hcurrent⟩ := hcourse.updated id data row w hw
      have hshows := (hcontains id _ hwritten).resolve_right (hcourse.not_superseded hphase)
      have heq := (hcurrent hphase).symm.trans ((h.shows id _).mp hshows)
      exact ⟨found, hfound, (Option.some.inj heq).symm⟩
    · intro hunchanged k version hwritten
      obtain ⟨data, row, w, rfl, hw⟩ := hcourse.wrote hedit k version hwritten
      obtain ⟨-, found, hfound, rfl, hcurrent⟩ := hcourse.updated k data row w hw
      obtain ⟨found', hfound', heq⟩ := hunchanged rfl k data _ w hw
      rw [hfound] at hfound'
      cases hfound'
      rw [heq]
      exact .inl ((h.shows k _).mpr (hcurrent hphase))

/-- A new version is one of the request's own connection, and of a statement. -/
theorem Does.uncommitted {op : Op} {r : Answer op} {w w' : World} {k : String} {c : Call × Conn}
    {version : Option Terminal} (hdoes : Does i w op r w') {p : Progress} (hallowed : i.protocol.allows p op)
    (h : w'.terminals.uncommitted k = some (c, version)) :
    w.terminals.uncommitted k = some (c, version) ∨ c = (i, .own) ∧ (p.after op r).touched = true := by
  have hwrite : ∀ id written, (w.write i .own id written).terminals.uncommitted k = some (c, version) →
      w.terminals.uncommitted k = some (c, version) ∨ c = (i, .own) := by
    intro id written hk
    by_cases hid : k = id
    · subst hid
      have hself : (w.write i .own k written).terminals.uncommitted k = some ((i, .own), written) :=
        Store.write_uncommitted_self
      rw [hself] at hk
      exact .inr (congrArg Prod.fst (Option.some.inj hk)).symm
    · exact .inl ((Store.write_uncommitted_ne hid).symm.trans hk)
  cases hdoes with
  | keeps hafter => exact .inl h
  | commits conn r => exact .inl (Store.commit_uncommitted.mp h).1
  | gives conn e => exact .inl (Store.rollback_uncommitted.mp h).1
  | rolls conn r => exact .inl (Store.rollback_uncommitted.mp h).1
  | @inserts conn row r hfree =>
    obtain ⟨rfl, -⟩ := hallowed
    exact (hwrite _ _ h).imp_right fun hc => ⟨hc, by cases r <;> rfl⟩
  | updates hrow hr hfree =>
    obtain ⟨rfl, -⟩ := hallowed
    refine (hwrite _ _ h).imp_right fun hc => ⟨hc, ?_⟩
    obtain rfl | ⟨e, rfl⟩ := hr <;> rfl
  | removes hr hfree =>
    obtain ⟨rfl, -⟩ := hallowed
    refine (hwrite _ _ h).imp_right fun hc => ⟨hc, ?_⟩
    obtain rfl | ⟨e, rfl⟩ := hr <;> rfl

theorem Progress.touched_after (p : Progress) (op : Op) (r : Answer op) (h : p.touched = true) :
    (p.after op r).touched = true := by
  unfold Progress.after
  split <;> first | exact h | rfl

theorem Untouched.step {j : Call} (h : Untouched j s) {op : Op} {r : Answer op} {w' : World}
    (hallowed : i.protocol.allows (progress i s.log) op) (hdoes : Does i s.world op r w') :
    Untouched j (s.next i op r w') := by
  intro htouched k version hk
  obtain hold | ⟨hc, hafter⟩ := hdoes.uncommitted hallowed hk
  · refine h ?_ k version hold
    by_cases hj : j = i
    · subst hj
      rw [progress_self] at htouched
      cases ht : (progress j s.log).touched with
      | false => rfl
      | true =>
        rw [Progress.touched_after _ op r ht] at htouched
        cases htouched
    · rwa [progress_ne hj] at htouched
  · cases hc
    rw [progress_self, hafter] at htouched
    cases htouched

theorem Inv.step (h : Inv s) {op : Op} {r : Answer op} {w' : World}
    (hallowed : i.protocol.allows (progress i s.log) op) (hact : Act i s.world op r w') :
    Inv (s.next i op r w') where
  keyed := hact.does.keyed h.keyed
  handlers := by
    intro k j version hk
    obtain hold | ⟨hc, -⟩ := hact.does.uncommitted hallowed hk
    · exact h.handlers k j version hold
    · cases hc
  untouched j := (h.untouched j).step hallowed hact.does
  course j hsingle := by
    by_cases hj : j = i
    · subst hj
      exact (h.course j hsingle).own (h.untouched j) hact.does (hact.does.stage hsingle hallowed)
    · exact (h.course j hsingle).other hj hact.does
  reads newer older j rows w hlog := by
    cases newer with
    | nil =>
      cases hlog
      rw [hact.rows]
      exact h.contains_iff hallowed
    | cons e newer =>
      exact h.reads newer older j rows w (List.cons.inj hlog).2

theorem Inv.initial (rows : List Terminal) : Inv ⟨World.ofRows rows, []⟩ where
  keyed := by
    refine ⟨fun k row hrow => ?_, fun k c row hrow => by cases hrow⟩
    have hstored : (Store.ofRows (C := Call × Conn) (fun row : Option Terminal => (row.map (·.id)).getD "")
        (rows.map some)).committed k = some (some row) := Option.join_eq_some_iff.mp hrow
    have hkey := Store.ofRows_key hstored
    exact hkey
  handlers k i version := fun hk => by cases hk
  untouched i := fun _ k version hk => by cases hk
  course i _ := {
    committed := fun hc => by cases hc
    closed := fun w hw => by cases hw
    locked := fun k version hw _ => by cases hw
    row := fun k version hw _ => by cases hw
    updated := fun id data row w hw => by cases hw
    wrote := fun _ k version hw => by cases hw }
  reads newer older i rows w hlog := by cases newer <;> cases hlog

end Inv

variable {rows₀ : List Terminal} {c : Config Op Ans Exn State Call}

theorem Inv.of_runs (hruns : Runs Act anyway Call.program (World.ofRows rows₀) c) : Inv c.state :=
  hruns.invariant conforms_program (Inv.initial rows₀) fun _ _ _ _ _ hallowed h _ hact => h.step hallowed hact

/-- A deletion's and a pairing's broadcast contains the change, an edit's only if the row already was that way. -/
theorem broadcast_contains_iff (hruns : Runs Act anyway Call.program (World.ofRows rows₀) c) {newer older : Log}
    {i : Call} {rows : List Terminal} {w : World}
    (hlog : c.state.log = newer ++ ⟨i, .getAll .handler, .ok rows, w⟩ :: older) :
    Contains i older rows ↔ (i.isEdit = true → Unchanged i older) :=
  (Inv.of_runs hruns).reads newer older i rows w hlog

/-- The latest operation, if it is the read of a handler. -/
def lastRead : Log → Option (Call × List Terminal)
  | ⟨i, .getAll .handler, .ok rows, _⟩ :: _ => some (i, rows)
  | _ => none

theorem lastRead_eq_some {log : Log} {i : Call} {rows : List Terminal} (h : lastRead log = some (i, rows)) :
    ∃ w, log = ⟨i, .getAll .handler, .ok rows, w⟩ :: log.tail := by
  unfold lastRead at h
  split at h
  · cases h
    exact ⟨_, rfl⟩
  · cases h

/-- The handler of a deletion reads the table without the row. -/
theorem broadcast_contains_deletion : ∃ (c : Config Op Ans Exn State Call) (older : Log) (w : World),
    Runs Act anyway Call.program (World.ofRows [⟨"abc123", "phone", .smartphone, none⟩]) c ∧
      c.state.log = ⟨.deleteTerminalById 0 "abc123", .getAll .handler, .ok [], w⟩ :: older ∧
        Contains (.deleteTerminalById 0 "abc123") older [] := by
  obtain ⟨c, hruns, hF, -⟩ := exists_run (World.ofRows [⟨"abc123", "phone", .smartphone, none⟩])
    (Turn.call (.deleteTerminalById 0 "abc123") [.proceed, .proceed, .proceed, .proceed, .proceed])
    (fun c => decide (lastRead c.state.log = some (.deleteTerminalById 0 "abc123", []))) (by decide +kernel)
  obtain ⟨w, hlog⟩ := lastRead_eq_some (of_decide_eq_true hF)
  refine ⟨c, c.state.log.tail, w, hruns, hlog, ?_⟩
  exact (@broadcast_contains_iff _ _ hruns [] _ _ _ w hlog).mpr fun hedit => by cases hedit

/-- The broadcast of a renaming shows the old name, and the request ends with the new one in the table. -/
theorem broadcast_of_edit_stale : ∃ (c : Config Op Ans Exn State Call) (newer older : Log) (w : World),
    Runs Act anyway Call.program (World.ofRows [⟨"abc123", "phone", .smartphone, none⟩]) c ∧
      c.state.log = newer ++ ⟨.editTerminal 0 "abc123" ⟨"my phone", .smartphone⟩, .getAll .handler,
        .ok [⟨"abc123", "phone", .smartphone, none⟩], w⟩ :: older ∧
      ¬ Contains (.editTerminal 0 "abc123" ⟨"my phone", .smartphone⟩) older
        [⟨"abc123", "phone", .smartphone, none⟩] ∧
      c.state.world.committedRow "abc123" = some ⟨"abc123", "my phone", .smartphone, none⟩ ∧ c.Quiescent := by
  let edit : Call := .editTerminal 0 "abc123" ⟨"my phone", .smartphone⟩
  obtain ⟨c, hruns, hF, hquiet⟩ := exists_run (World.ofRows [⟨"abc123", "phone", .smartphone, none⟩])
    (Turn.call edit [.proceed, .proceed, .proceed, .proceed, .proceed, .proceed, .proceed, .proceed])
    (fun c => decide (lastRead (c.state.log.drop 3) = some (edit, [⟨"abc123", "phone", .smartphone, none⟩]) ∧
      (progress edit (c.state.log.drop 4)).written =
        some ("abc123", some ⟨"abc123", "my phone", .smartphone, none⟩) ∧
      (∀ e ∈ c.state.log.drop 4, e.op ≠ .commit .own) ∧
      c.state.world.committedRow "abc123" = some ⟨"abc123", "my phone", .smartphone, none⟩ ∧
      c.ended edit = true)) (by decide +kernel)
  obtain ⟨hread, hwritten, hopen, hrow, hended⟩ := of_decide_eq_true hF
  obtain ⟨w, hlog⟩ := lastRead_eq_some hread
  rw [List.tail_drop] at hlog
  refine ⟨c, c.state.log.take 3, c.state.log.drop 4, w, hruns, ?_, ?_, hrow, hquiet ?_⟩
  · rw [← hlog]
    exact (List.take_append_drop 3 c.state.log).symm
  · intro hcontains
    obtain hshows | ⟨newer, older, w', hsplit, -⟩ := hcontains "abc123" _ hwritten
    · have hmem := (hshows ⟨"abc123", "my phone", .smartphone, none⟩).mpr rfl
      simp at hmem
    · have hcommit := List.mem_append_right newer
        (List.mem_cons_self (a := ⟨edit, .commit .own, .ok (), w'⟩) (l := older))
      rw [← hsplit] at hcommit
      exact hopen _ hcommit rfl
  · intro turn hturn
    have hname : turn.name = edit := by
      simp only [Turn.call, List.mem_cons, List.mem_map] at hturn
      obtain rfl | ⟨choice, -, rfl⟩ := hturn <;> rfl
    rw [hname]
    exact hended

end Freeshard.Terminals

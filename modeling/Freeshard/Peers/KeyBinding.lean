import Freeshard.Service.Peer

/-! # Keys belong to ids

A peer's id is a prefix of the hash id of its key. A key enters the table only through the answer of a
remote host: the answered id has to start with the stored one, and the hash id of the answered key with the
answered id. So no answer, honest or not, binds a foreign key to an id. -/

namespace Freeshard.Peers
open Coroutine Coroutine.Recorded
set_option autoImplicit false

variable {crypto : Crypto}

/-! ## Calls -/

instance : DecidableEq (Peer crypto) := fun a b =>
  decidable_of_iff (a.toRow = b.toRow) <| by
    obtain ⟨row, _, _⟩ := a
    obtain ⟨row', _, _⟩ := b
    exact ⟨fun h => by cases h; rfl, fun h => by cases h; rfl⟩

/-- The calls that write the table, any number of each kind. -/
inductive Call (crypto : Crypto) where
  | put (id : ℕ) (p : InputPeer)
  | delete (id : ℕ) (idPrefix : String)
  | updateMeta (id : ℕ) (peer : Peer crypto)
  deriving DecidableEq

def Call.program : Call crypto → Coro Unit
  | .put _ p => putPeer crypto p >>= fun _ => return ()
  | .delete _ idPrefix => deletePeer idPrefix
  | .updateMeta _ peer => updatePeerMeta crypto peer

abbrev State (crypto : Crypto) : Type := Recorded Op Ans Exn Table (Call crypto)

/-! ## What the calls write -/

/-- The key in this column hashes to something that starts with the id. -/
def BoundTo (crypto : Crypto) (id : String) (publicBytesB64 : Option String) : Prop :=
  ∀ text, publicBytesB64 = some text →
    ∃ key, crypto.load text = some key ∧ startsWith (crypto.toHashId key) id = true

theorem BoundTo.keyMatches {id : String} {column : Option String} (h : BoundTo crypto id column) :
    KeyMatches crypto id column := fun text htext _ => h text htext

/-- An operation stores no key but one bound to the id it is stored for, and no short id. -/
def Op.binds (crypto : Crypto) : Op → Prop
  | .insert row => 6 ≤ row.id.length ∧ BoundTo crypto row.id row.publicBytesB64
  | .updateById id data => ∀ column, data.publicBytesB64 = some column → BoundTo crypto id column
  | .updateByIdPrefix _ data => data.publicBytesB64 = none
  | _ => True

theorem outputIdentityToPeer_bound {identity : OutputIdentity} {peer : Peer crypto}
    (h : outputIdentityToPeer crypto identity = .ok peer) :
    BoundTo crypto identity.id peer.publicBytesB64 := by
  unfold outputIdentityToPeer at h
  split at h
  · cases h
  · next pubkey _ =>
    have hrow := toRow_of_toPeer h
    have hbytes : peer.publicBytesB64 = some (crypto.toBytes pubkey) := by rw [hrow]
    have hid : peer.id = identity.id := by rw [hrow]
    intro text htext
    have hne : text ≠ "" := by
      rw [hbytes] at htext
      exact Option.some.inj htext ▸ crypto.toBytes_ne_empty pubkey
    rw [← hid]
    exact peer.public_bytes_must_match_id text htext hne

theorem BoundTo.shorter {id id' : String} {column : Option String} (h : BoundTo crypto id column)
    (hid : startsWith id id' = true) : BoundTo crypto id' column := by
  intro text htext
  obtain ⟨key, hload, hstart⟩ := h text htext
  exact ⟨key, hload, startsWith_trans hstart hid⟩

theorem uses_updatePeerMeta (peer : Peer crypto) :
    (updatePeerMeta crypto peer).Uses (Op.binds crypto) := by
  refine updatePeerMeta_uses crypto trivial (fun _ hcolumn => by cases hcolumn) ?_
  intro identity updated hid hpeer column hcolumn
  obtain rfl : updated.publicBytesB64 = column := Option.some.inj hcolumn
  exact (outputIdentityToPeer_bound hpeer).shorter hid

theorem uses_program (i : Call crypto) : i.program.Uses (Op.binds crypto) := by
  cases i with
  | put id p =>
    refine Prog.Uses.bind (Prog.Uses.bind ((Prog.uses_perform _).mpr trivial) fun existing => ?_)
      fun _ => trivial
    have hmeta := uses_updatePeerMeta (p.toPeer crypto)
    cases existing with
    | none =>
      refine Prog.Uses.bind ((Prog.uses_perform _).mpr ⟨p.must_be_long_enough, nofun⟩) fun _ => ?_
      exact hmeta.bind fun _ => trivial
    | some row =>
      refine Prog.Uses.bind ((Prog.uses_perform _).mpr rfl) fun _ => ?_
      exact hmeta.bind fun _ => trivial
  | delete id idPrefix => exact Prog.Uses.bind ((Prog.uses_perform _).mpr trivial) fun _ => trivial
  | updateMeta id peer => exact uses_updatePeerMeta peer

/-! ## What the table holds -/

/-- A row with a long enough id, and no key but one bound to it. -/
structure Row.Bound (crypto : Crypto) (row : Row) : Prop where
  long : 6 ≤ row.id.length
  key : BoundTo crypto row.id row.publicBytesB64

theorem Row.Bound.apply {row : Row} (h : row.Bound crypto) {data : UpdateData}
    (hdata : ∀ column, data.publicBytesB64 = some column → BoundTo crypto row.id column) :
    (data.apply row).Bound crypto := by
  refine ⟨h.long, ?_⟩
  change BoundTo crypto row.id (data.publicBytesB64.getD row.publicBytesB64)
  cases hcolumn : data.publicBytesB64 with
  | none => exact h.key
  | some column => exact hdata column hcolumn

theorem bound_effect {t t' : Table} {op : Op} {r : Answer op} (hop : op.binds crypto)
    (ht : ∀ row ∈ t.rows, row.Bound crypto) (h : t.effect op = some (r, t')) :
    ∀ row ∈ t'.rows, row.Bound crypto := by
  intro row hrow
  cases op with
  | insert new =>
    simp only [Table.effect] at h
    split at h
    · next t'' hinsert =>
      cases h
      obtain hold | rfl := (Table.mem_insert hinsert).mp hrow
      · exact ht row hold
      · exact ⟨hop.1, hop.2⟩
    · cases h
      exact ht row hrow
  | updateById id data =>
    cases h
    obtain ⟨old, hold, rfl⟩ := Table.mem_update.mp hrow
    split
    · next hid =>
      refine (ht old hold).apply fun column hcolumn => ?_
      rw [beq_iff_eq.mp hid]
      exact hop column hcolumn
    · exact ht old hold
  | updateByIdPrefix idPrefix data =>
    cases h
    obtain ⟨old, hold, rfl⟩ := Table.mem_update.mp hrow
    split
    · refine (ht old hold).apply fun column hcolumn => ?_
      rw [hop] at hcolumn
      cases hcolumn
    · exact ht old hold
  | removeByIdPrefix idPrefix =>
    cases h
    exact ht row (Table.mem_removeByIdPrefix hrow)
  | _ => cases h

/-! ## Main result -/

/-- Whatever the remote hosts answer and however the calls interleave, every row of every table reached
from the empty one has no key or one whose hash id starts with the row's id, and it can be loaded. -/
theorem keys_bound {c : Config Op Ans Exn (State crypto) (Call crypto)}
    (h : Recorded.Runs (fun _ => Act) anyway Call.program .empty c) :
    ∀ row ∈ c.state.world.rows,
      (row.publicBytesB64 = none ∨ ∃ text key, row.publicBytesB64 = some text ∧
        crypto.load text = some key ∧ startsWith (crypto.toHashId key) row.id = true) ∧
      ∃ peer, row.toPeer crypto = .ok peer ∧ peer.toRow = row := by
  have hinv : ∀ row ∈ c.state.world.rows, row.Bound crypto := by
    refine h.invariant_of_uses (I := fun s => ∀ row ∈ s.world.rows, row.Bound crypto) uses_program
      (fun row hrow => absurd hrow List.not_mem_nil) fun i s op r t' hop hs _ ha => ?_
    obtain rfl | ⟨r', he⟩ := ha.cases
    · exact hs
    · exact bound_effect hop hs he
  intro row hrow
  have hbound := hinv row hrow
  refine ⟨?_, ?_⟩
  · cases hkey : row.publicBytesB64 with
    | none => exact .inl rfl
    | some text =>
      obtain ⟨key, hload, hstart⟩ := hbound.key text hkey
      exact .inr ⟨text, key, rfl, hload, hstart⟩
  · obtain ⟨peer, hpeer⟩ := exists_toPeer crypto hbound.long hbound.key.keyMatches
    exact ⟨peer, hpeer, toRow_of_toPeer hpeer⟩

/-- A peer that is added by the start of its id, and answers. -/
theorem keys_bound_run : ∃ c, Recorded.Runs (fun _ => Act) anyway
    (Call.program : Call Crypto.symbolic → Coro Unit) .empty c ∧
    c.state.world.rows = [⟨"abcdef", some "peer", some "kabcdefgh", some true⟩] ∧
    ∀ row ∈ c.state.world.rows,
      (row.publicBytesB64 = none ∨ ∃ text key, row.publicBytesB64 = some text ∧
        Crypto.symbolic.load text = some key ∧
        startsWith (Crypto.symbolic.toHashId key) row.id = true) ∧
      ∃ peer, row.toPeer Crypto.symbolic = .ok peer ∧ peer.toRow = row := by
  have hact : ∀ (i : Call Crypto.symbolic) t op choice r t',
      Table.exec t op choice = some (r, t') → Act t op r t' := fun _ _ _ choice _ _ he => ⟨choice, he⟩
  obtain ⟨c, hrun, hrows, -⟩ := Recorded.Runs.exists (fun _ => Table.exec) anyway Call.program hact
    .empty
    (Turn.call (.put 0 ⟨"abcdef", none, by decide⟩) [.picked none, .proceed,
      .responds (.identity ⟨"abcdefgh", "peer", "kabcdefgh"⟩), .proceed])
    (fun c => c.state.world.rows == [⟨"abcdef", some "peer", some "kabcdefgh", some true⟩])
    (by decide)
  exact ⟨c, hrun, by simpa using hrows, keys_bound hrun⟩

end Freeshard.Peers

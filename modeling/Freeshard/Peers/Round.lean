import Freeshard.Coroutine.Outline
import Freeshard.Peers.Verification

/-! # One round of `update_all_peer_pubkeys`

Every peer with a key is asked who it is, all at once. An answer and a refused connection are recorded; an error status
is not, since `requests` raises `HTTPError` where the handler expects an exception of `httpx`. -/

namespace Freeshard.Peers
open Coroutine
set_option autoImplicit false

/-! ## The round -/

section Round
variable (crypto : Crypto)

/-- What comes of the request to a peer: no connection, an error status, or the identity that it should be. -/
inductive Outcome (id : String) where
  | connectionError (text : String)
  | httpError (status : ℕ)
  | answers (identity : OutputIdentity) (key : crypto.PublicKey) (id_starts : startsWith identity.id id = true)
      (key_loads : crypto.load identity.publicKeyPem = some key)
      (key_matches : startsWith (crypto.toHashId key) identity.id = true)

variable {crypto}

def Outcome.answer {id : String} : Outcome crypto id → Answer (.whoareyou (shortId id))
  | .connectionError text => .error (.connectionError text)
  | .httpError status => .ok (.httpError status)
  | .answers identity _ _ _ _ => .ok (.identity identity)

/-- The row shows what has come of the request. -/
def Outcome.Shown {id : String} : Outcome crypto id → Row → Prop
  | .answers identity key _ _ _, row =>
    row.isReachable = some true ∧ row.name = some identity.name ∧ row.publicBytesB64 = some (crypto.toBytes key)
  | _, row => row.isReachable = some false

/-- `p.get("public_bytes_b64")` is true. -/
def Row.hasPubkey (row : Row) : Bool := row.publicBytesB64.any (· ≠ "")

variable (crypto) in
/-- `peers_with_pubkey`. -/
def peersWithPubkey (allPeers : List Row) : Except Exn (List (Peer crypto)) :=
  (allPeers.filter Row.hasPubkey).mapM (Row.toPeer crypto)

/-- The calls are told apart by the ids of their peers. -/
def callName (peers : List (Peer crypto)) (k : ℕ) : String := (peers[k]?.map fun peer => peer.id).getD ""

variable (outcomes : ∀ id, Outcome crypto id)

/-- The call for the peer with this id is told what has come of its request; the database does its work. -/
def RoundAct (id : String) (t : Table) (op : Op) (r : Answer op) (t' : Table) : Prop :=
  match op, r with
  | .whoareyou _, r => r = (outcomes id).answer ∧ t' = t
  | op, r => t.effect op = some (r, t')

/-- `update_all_peer_pubkeys`, until all its calls have ended. -/
inductive Round (t : Table) : Table → Prop where
  /-- A row cannot be loaded, and nothing is asked. -/
  | raises {allPeers : List Row} {e : Exn} (hall : allPeers.Perm t.rows)
      (hraises : peersWithPubkey crypto allPeers = .error e) : Round t t
  | asks {allPeers : List Row} {peers : List (Peer crypto)} {t' : Table} (hall : allPeers.Perm t.rows)
      (hpeers : peersWithPubkey crypto allPeers = .ok peers)
      (hgather : Gathers (RoundAct outcomes) (peers.map (updatePeerMeta crypto)) (callName peers) t t') : Round t t'

end Round

/-! ## Rows by id -/

def Table.rowOf (t : Table) (id : String) : Option Row := t.rows.find? fun row => row.id == id

section Rows
variable {t : Table} {id id' : String} {row : Row}

theorem Table.rowOf_updateById (data : UpdateData) :
    (t.updateById id data).rowOf id' = (t.rowOf id').map fun row => if id' = id then data.apply row else row := by
  have hfind : ∀ rows : List Row,
      (rows.map fun row => if row.id == id then data.apply row else row).find? (fun row => row.id == id') =
        (rows.find? fun row => row.id == id').map fun row => if id' = id then data.apply row else row := by
    intro rows
    induction rows with
    | nil => rfl
    | cons row rows ih =>
      have hid : (if row.id == id then data.apply row else row).id = row.id := by
        split <;> rfl
      rw [List.map_cons, List.find?_cons, List.find?_cons, hid, ih]
      by_cases heq : row.id = id'
      · subst heq
        simp
      · have hne : (row.id == id') = false := beq_eq_false_iff_ne.mpr heq
        rw [hne]
  exact hfind t.rows

end Rows

section Call
variable {crypto : Crypto} {outcomes : ∀ id, Outcome crypto id}

/-- The row after its call has ended. -/
def Outcome.record {id : String} : Outcome crypto id → Row → Row
  | .connectionError _, row => { row with isReachable := some false }
  | .httpError _, row => row
  | .answers identity key _ _ _, row =>
    { row with name := some identity.name, publicBytesB64 := some (crypto.toBytes key), isReachable := some true }

/-- A call writes no row but its own. -/
def OwnRow (id : String) (t : Table) : (op : Op) → Answer op → Table → Prop :=
  fun _ _ t' => ∀ id', id' ≠ id → t'.rowOf id' = t.rowOf id'

theorem OwnRow.updateById (id : String) (t : Table) (data : UpdateData) (r : Answer (.updateById id data)) :
    OwnRow id t (.updateById id data) r (t.updateById id data) := by
  intro id' hne
  rw [Table.rowOf_updateById]
  simp [hne]

end Call

/-! ## All calls -/

section Calls
variable {crypto : Crypto} {outcomes : ∀ id, Outcome crypto id} {t t' : Table}

end Calls

/-! ## A table of one peer -/

def refused : ∀ id, Outcome Crypto.symbolic id := fun _ => .connectionError "refused"

end Freeshard.Peers

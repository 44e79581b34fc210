import Freeshard.Coroutine.Recorded
import Freeshard.Database.Peers

/-! # Peers

`data_model/peer.py`, `service/peer.py` and the two endpoints of `web/protected/peers.py` that write the
`peers` table. Whatever a remote host answers is an answer of the operation that asks it. -/

namespace Freeshard.Peers
open Coroutine
set_option autoImplicit false

/-! ## Public keys -/

/-- What `service/crypto.py` needs of the `cryptography` package: RSA keys with their PEM texts, and
the hash ids of keys. -/
structure Crypto where
  PublicKey : Type
  /-- `PublicKey(text)`. -/
  load : String → Option PublicKey
  /-- `to_bytes().decode()`. -/
  toBytes : PublicKey → String
  toHashId : PublicKey → String
  load_toBytes : ∀ key, load (toBytes key) = some key
  toBytes_ne_empty : ∀ key, toBytes key ≠ ""

/-- Keys that are their own hash ids. -/
def Crypto.symbolic : Crypto where
  PublicKey := String
  load text :=
    match text.toList with
    | 'k' :: id => some (String.ofList id)
    | _ => none
  toBytes id := String.ofList ('k' :: id.toList)
  toHashId id := id
  load_toBytes id := by simp
  toBytes_ne_empty id h := by simpa using congrArg String.toList h

inductive Exn where
  | cancelled
  | keyError (key : String)
  | validationError (text : String)
  | valueError (text : String)
  | connectionError (text : String)
  | httpError (status : ℕ)
  | invalidSignature (text : String)
  | uniqueViolation (id : String)
  | other (text : String)
  deriving DecidableEq, Repr

variable (crypto : Crypto)

/-! ## Rows and peers -/

/-- The key in a column, if there is one, has a hash id that starts with the id. -/
def KeyMatches (id : String) (publicBytesB64 : Option String) : Prop :=
  ∀ text, publicBytesB64 = some text → text ≠ "" →
    ∃ key, crypto.load text = some key ∧ startsWith (crypto.toHashId key) id = true

/-- `Peer`: a row that has passed both validators. -/
structure Peer extends Row where
  must_be_long_enough : 6 ≤ id.length
  public_bytes_must_match_id : KeyMatches crypto id publicBytesB64

/-- `Peer(**row)`. -/
def Row.toPeer (row : Row) : Except Exn (Peer crypto) :=
  if hlong : 6 ≤ row.id.length then
    match hkey : row.publicBytesB64 with
    | none => .ok ⟨row, hlong, by rw [hkey]; exact nofun⟩
    | some text =>
      if hempty : text = "" then
        .ok ⟨row, hlong, fun _ h hne => by
          rw [hkey] at h
          exact absurd (Option.some.inj h ▸ hempty) hne⟩
      else
        match hload : crypto.load text with
        | none => .error (.validationError "could not deserialize key data")
        | some key =>
          if hstart : startsWith (crypto.toHashId key) row.id = true then
            .ok ⟨row, hlong, fun _ h _ => by
              rw [hkey] at h
              exact ⟨key, Option.some.inj h ▸ hload, hstart⟩⟩
          else .error (.validationError "public key and id do not match")
  else .error (.validationError s!"{row.id} is too short, must be at least 6 characters")

variable {crypto} in
theorem toRow_of_toPeer {row : Row} {peer : Peer crypto} (h : row.toPeer crypto = .ok peer) :
    peer.toRow = row := by
  unfold Row.toPeer at h
  split at h
  · split at h
    · cases h
      rfl
    · split at h
      · cases h
        rfl
      · split at h
        · cases h
        · split at h <;> cases h
          rfl
  · cases h

theorem exists_toPeer {row : Row} (hlong : 6 ≤ row.id.length)
    (hkey : KeyMatches crypto row.id row.publicBytesB64) :
    ∃ peer, row.toPeer crypto = .ok peer := by
  unfold Row.toPeer
  rw [dif_pos hlong]
  split
  · exact ⟨_, rfl⟩
  · next text htext =>
    split
    · exact ⟨_, rfl⟩
    · next hempty =>
      obtain ⟨key, hload, hstart⟩ := hkey text htext hempty
      split
      · next hnone =>
        rw [hload] at hnone
        cases hnone
      · next key' hload' =>
        obtain rfl : key = key' := Option.some.inj (hload.symm.trans hload')
        rw [dif_pos hstart]
        exact ⟨_, rfl⟩

/-- `short_id`. -/
def shortId (id : String) : String := String.ofList (id.toList.take 6)

/-- `InputPeer`. -/
structure InputPeer where
  id : String
  name : Option String
  must_be_long_enough : 6 ≤ id.length
  deriving DecidableEq

/-- The part of `OutputIdentity` that is read here. -/
structure OutputIdentity where
  id : String
  name : String
  publicKeyPem : String
  deriving DecidableEq, Repr

/-- What a remote host answers: an error status, no `OutputIdentity`, or one. -/
inductive Response where
  | httpError (status : ℕ)
  | malformed (text : String)
  | identity (identity : OutputIdentity)
  deriving DecidableEq, Repr

/-! ## Operations -/

inductive Op where
  -- `database/peers.py`
  | getAll
  | getByIdPrefix (idPrefix : String)
  | insert (row : Row)
  | updateById (id : String) (data : UpdateData)
  | updateByIdPrefix (idPrefix : String) (data : UpdateData)
  | removeByIdPrefix (idPrefix : String)
  -- `requests.get` of `…/core/public/meta/whoareyou`
  | whoareyou (shortId : String)
  deriving DecidableEq

@[reducible] def Ans : Op → Type
  | .getAll => List Row
  | .getByIdPrefix _ => Option Row
  | .insert _ => Unit
  | .updateById _ _ => Unit
  | .updateByIdPrefix _ _ => Unit
  | .removeByIdPrefix _ => ℕ
  | .whoareyou _ => Response

abbrev Answer (op : Op) : Type := Except Exn (Ans op)

abbrev Coro (α : Type) : Type := Prog Op Ans Exn α

abbrev awaitOp (op : Op) : Coro (Ans op) := Prog.perform op

def getAll : Coro (List Row) := awaitOp .getAll

def getByIdPrefix (idPrefix : String) : Coro (Option Row) := awaitOp (.getByIdPrefix idPrefix)

def insert (row : Row) : Coro Unit := awaitOp (.insert row)

def updateById (id : String) (data : UpdateData) : Coro Unit := awaitOp (.updateById id data)

def updateByIdPrefix (idPrefix : String) (data : UpdateData) : Coro Unit :=
  awaitOp (.updateByIdPrefix idPrefix data)

def whoareyou (shortId : String) : Coro Response := awaitOp (.whoareyou shortId)

/-- A `raise` or a value. -/
def ofExcept {α : Type} : Except Exn α → Coro α
  | .ok a => pure a
  | .error e => throw e

/-! ## Peer metadata -/

/-- `output_identity_to_peer`. -/
def outputIdentityToPeer (identity : OutputIdentity) : Except Exn (Peer crypto) :=
  match crypto.load identity.publicKeyPem with
  | none => .error (.valueError "could not deserialize key data")
  | some pubkey =>
    Row.toPeer crypto ⟨identity.id, some identity.name, some (crypto.toBytes pubkey), some true⟩

/-- `model_dump(exclude={"id"})`. -/
def Row.dump (row : Row) : UpdateData :=
  ⟨some row.name, some row.publicBytesB64, some row.isReachable⟩

/-- `update_peer_meta`. The handler of `httpx.HTTPStatusError` does not catch what `requests` raises for
an error status. -/
def updatePeerMeta (peer : Peer crypto) : Coro Unit := do
  let response ← tryCatch (some <$> whoareyou (shortId peer.id)) fun
    | .connectionError _ => do
      updateById peer.id { isReachable := some (some false) }
      return none
    | e => throw e
  match response with
  | none => return ()
  | some (.httpError status) => throw (.httpError status)
  | some (.malformed text) => throw (.validationError text)
  | some (.identity identity) =>
    if startsWith identity.id peer.id then
      let updated ← ofExcept (outputIdentityToPeer crypto identity)
      updateById peer.id updated.toRow.dump
    else
      throw (.keyError
        s!"Portal {shortId peer.id} responded with wrong identity {identity.id}")

/-- The handler asks the remote host and updates the row with the peer's id. -/
theorem updatePeerMeta_uses {φ : Op → Prop} {peer : Peer crypto}
    (hask : φ (.whoareyou (shortId peer.id)))
    (hunreachable : φ (.updateById peer.id { isReachable := some (some false) }))
    (hupdate : ∀ identity updated, startsWith identity.id peer.id = true →
      outputIdentityToPeer crypto identity = .ok updated →
      φ (.updateById peer.id updated.toRow.dump)) : (updatePeerMeta crypto peer).Uses φ := by
  have hwhoareyou : (whoareyou (shortId peer.id)).Uses φ := (Prog.uses_perform _).mpr hask
  refine Prog.Uses.bind (Prog.Uses.tryCatch (hwhoareyou.bind fun _ => trivial) fun e => ?_)
    fun response => ?_
  · cases e with
    | connectionError text =>
      have hwrite : (updateById peer.id { isReachable := some (some false) }).Uses φ :=
        (Prog.uses_perform _).mpr hunreachable
      exact hwrite.bind fun _ => trivial
    | _ => trivial
  · cases response with
    | none => trivial
    | some response =>
      cases response with
      | httpError status => trivial
      | malformed text => trivial
      | identity identity =>
        dsimp only
        by_cases hid : startsWith identity.id peer.id = true
        · rw [if_pos hid]
          cases hpeer : outputIdentityToPeer crypto identity with
          | error e => trivial
          | ok updated => exact (Prog.uses_perform _).mpr (hupdate identity updated hid hpeer)
        · rw [if_neg hid]
          trivial

/-- `Peer(id=p.id, name=p.name)`. -/
def InputPeer.toPeer (p : InputPeer) : Peer crypto :=
  ⟨⟨p.id, p.name, none, some true⟩, p.must_be_long_enough, nofun⟩

/-- `put_peer`, with `_on_peer_write`, the receiver of the signal it ends with. -/
def putPeer (p : InputPeer) : Coro (Peer crypto) := do
  let existing ← getByIdPrefix p.id
  match existing with
  | some _ => updateByIdPrefix p.id { name := some p.name }
  | none => insert ⟨p.id, p.name, none, some true⟩
  let peer := p.toPeer crypto
  updatePeerMeta crypto peer
  return peer

/-- `delete_peer`. -/
def deletePeer (id : String) : Coro Unit := do
  let _ ← awaitOp (.removeByIdPrefix id)

/-- `get_peer_by_id`. -/
def getPeerById (id : String) : Coro (Peer crypto) := do
  match ← getByIdPrefix id with
  | some p => ofExcept (p.toPeer crypto)
  | none => throw (.keyError id)

/-! ## Signatures -/

/-- What `verify_peer_auth` needs of `requests_http_signature`: it accepts a request exactly if the
request names a key id, that key id is resolved, and the signature was made for the resolved key. -/
structure HTTPSignatureAuth where
  Request : Type
  PreparedRequest : Type
  /-- `request.headers[name]`. -/
  header : Request → String → Except Exn String
  /-- `requests.Request(method, url, …).prepare()`. -/
  prepare : String → String → Request → Except Exn PreparedRequest
  keyid : PreparedRequest → Option String
  signedBy : PreparedRequest → String → Prop
  /-- `HTTPSignatureAuth.verify`, with a key resolver; the verified key id. -/
  verify : PreparedRequest → (String → Except Exn String) → Except Exn String
  verify_eq_ok : ∀ prepared resolve id, verify prepared resolve = .ok id ↔
    keyid prepared = some id ∧ ∃ text, resolve id = .ok text ∧ signedBy prepared text

/-- `peers_by_prefix`: of several peers with one short id the last one stays. -/
def peersByPrefix {crypto : Crypto} (peers : List (Peer crypto)) : String → Option (Peer crypto) :=
  peers.foldl (fun found peer => Function.update found (shortId peer.id) (some peer)) fun _ => none

/-- `_PreloadedKR.resolve_public_key`. -/
def resolvePublicKey {crypto : Crypto} (peers : String → Option (Peer crypto)) (keyId : String) :
    Except Exn String :=
  match (peers keyId).bind (·.publicBytesB64) with
  | some text =>
    if text = "" then .error (.keyError s!"No public key known for peer id {keyId}") else .ok text
  | none => .error (.keyError s!"No public key known for peer id {keyId}")

/-- `verify_peer_auth`. -/
def verifyPeerAuth (auth : HTTPSignatureAuth) (request : auth.Request) : Coro (Peer crypto) := do
  let method ← ofExcept (auth.header request "X-Forwarded-Method")
  let proto ← ofExcept (auth.header request "X-Forwarded-proto")
  let host ← ofExcept (auth.header request "X-Forwarded-host")
  let uri ← ofExcept (auth.header request "X-Forwarded-uri")
  let allPeers ← getAll
  let peers ← ofExcept (allPeers.mapM (Row.toPeer crypto))
  let prepared ← ofExcept (auth.prepare method s!"{proto}://{host}{uri}" request)
  let keyid ← ofExcept (auth.verify prepared (resolvePublicKey (peersByPrefix peers)))
  getPeerById crypto keyid

/-! ## What the operations do -/

inductive Choice where
  | proceed
  /-- An exception surfaces and the operation has no effect. -/
  | raise (e : Exn)
  /-- The operation takes effect, then an exception surfaces. -/
  | proceedRaise (e : Exn)
  /-- The rows in the order in which the database returns them. -/
  | ordered (rows : List Row)
  /-- The row it picks among the matching ones. -/
  | picked (row : Option Row)
  /-- What the remote host answers. -/
  | responds (response : Response)
  deriving DecidableEq

namespace Table

/-- What an operation that changes the table does. -/
def effect (t : Table) : (op : Op) → Option (Answer op × Table)
  | .insert row =>
    match t.insert row with
    | some t' => some (.ok (), t')
    | none => some (.error (.uniqueViolation row.id), t)
  | .updateById id data => some (.ok (), t.updateById id data)
  | .updateByIdPrefix idPrefix data => some (.ok (), t.updateByIdPrefix idPrefix data)
  | .removeByIdPrefix idPrefix =>
    let t' := t.removeByIdPrefix idPrefix
    some (.ok (t.rows.length - t'.rows.length), t')
  | _ => none

/-- `SELECT … WHERE id LIKE '<idPrefix>%' LIMIT 1` may answer any matching row. -/
def picks (t : Table) (idPrefix : String) : Option Row → Bool
  | none => t.rows.all fun row => !matchesPrefix idPrefix row.id
  | some row => t.rows.contains row && matchesPrefix idPrefix row.id

/-- One operation under a choice of the environment; `none` if the choice does not fit. -/
def exec (t : Table) (op : Op) : Choice → Option (Answer op × Table)
  | .proceed => t.effect op
  | .raise e => some (.error e, t)
  | .proceedRaise e => (t.effect op).map fun rw => (.error e, rw.2)
  | .ordered rows =>
    match op with
    | .getAll => if rows.isPerm t.rows then some (.ok rows, t) else none
    | _ => none
  | .picked row =>
    match op with
    | .getByIdPrefix idPrefix => if t.picks idPrefix row then some (.ok row, t) else none
    | _ => none
  | .responds response =>
    match op with
    | .whoareyou _ => some (.ok response, t)
    | _ => none

end Table

/-- What an operation may answer and leave. -/
def Act (t : Table) (op : Op) (r : Answer op) (t' : Table) : Prop :=
  ∃ choice, t.exec op choice = some (r, t')

/-- The table an operation leaves is the one it was performed on, or the one after its effect. -/
theorem Act.cases {t t' : Table} {op : Op} {r : Answer op} (h : Act t op r t') :
    t' = t ∨ ∃ r', t.effect op = some (r', t') := by
  obtain ⟨choice, h⟩ := h
  cases choice with
  | proceed => exact .inr ⟨r, h⟩
  | raise e =>
    cases h
    exact .inl rfl
  | proceedRaise e =>
    obtain ⟨⟨r', t''⟩, he, hr⟩ := Option.map_eq_some_iff.mp h
    cases hr
    exact .inr ⟨r', he⟩
  | ordered rows =>
    cases op with
    | getAll =>
      simp only [Table.exec] at h
      split at h <;> cases h
      exact .inl rfl
    | _ => cases h
  | picked row =>
    cases op with
    | getByIdPrefix idPrefix =>
      simp only [Table.exec] at h
      split at h <;> cases h
      exact .inl rfl
    | _ => cases h
  | responds response =>
    cases op with
    | whoareyou shortId =>
      cases h
      exact .inl rfl
    | _ => cases h

end Freeshard.Peers

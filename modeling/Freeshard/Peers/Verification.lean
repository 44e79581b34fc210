import Freeshard.Service.Peer

/-! # Whose key verified a request

`verify_peer_auth` finds the key by six-character short id, in a table of its own, and then the peer by an
SQL prefix match on the same key id. The two agree on every table order exactly if the signature
that is good for some peer with this short id is good for every row that the prefix match may pick. -/

namespace Freeshard.Peers
open Coroutine
set_option autoImplicit false

variable {crypto : Crypto}

/-! ## Lookups -/

theorem mem_of_peersByPrefix {peers : List (Peer crypto)} {keyId : String} {peer : Peer crypto}
    (h : peersByPrefix peers keyId = some peer) : peer ∈ peers ∧ shortId peer.id = keyId := by
  have key : ∀ (peers : List (Peer crypto)) (found : String → Option (Peer crypto)),
      peers.foldl (fun found peer => Function.update found (shortId peer.id) (some peer)) found
        keyId = some peer → (peer ∈ peers ∧ shortId peer.id = keyId) ∨ found keyId = some peer := by
    intro peers
    induction peers with
    | nil => exact fun found h => .inr h
    | cons p peers ih =>
      intro found h
      obtain ⟨hmem, hid⟩ | hfound := ih _ h
      · exact .inl ⟨List.mem_cons_of_mem _ hmem, hid⟩
      · dsimp only at hfound
        by_cases hp : keyId = shortId p.id
        · subst hp
          rw [Function.update_self] at hfound
          obtain rfl : p = peer := Option.some.inj hfound
          exact .inl ⟨List.mem_cons_self, rfl⟩
        · rw [Function.update_of_ne hp] at hfound
          exact .inr hfound
  obtain hmem | hnone := key peers _ h
  · exact hmem
  · cases hnone

theorem peersByPrefix_append (peers : List (Peer crypto)) (peer : Peer crypto) :
    peersByPrefix (peers ++ [peer]) (shortId peer.id) = some peer := by
  rw [peersByPrefix, List.foldl_append]
  exact Function.update_self ..

theorem resolvePublicKey_eq_ok {peers : String → Option (Peer crypto)} {keyId text : String} :
    resolvePublicKey peers keyId = .ok text ↔
      ∃ peer, peers keyId = some peer ∧ peer.publicBytesB64 = some text ∧ text ≠ "" := by
  unfold resolvePublicKey
  cases hpeer : peers keyId with
  | none => simp
  | some peer =>
    cases htext : peer.publicBytesB64 with
    | none => simp [htext]
    | some text' =>
      by_cases hempty : text' = ""
      · simp only [Option.bind_some, htext, hempty, if_pos]
        constructor
        · exact nofun
        · rintro ⟨peer', hpeer', htext', hne⟩
          obtain rfl := Option.some.inj hpeer'
          rw [htext] at htext'
          exact absurd ((Option.some.inj htext').symm.trans hempty) hne
      · simp only [Option.bind_some, htext, if_neg hempty, Except.ok.injEq]
        constructor
        · rintro rfl
          exact ⟨peer, rfl, htext, hempty⟩
        · rintro ⟨peer', hpeer', htext', -⟩
          obtain rfl := Option.some.inj hpeer'
          exact Option.some.inj (htext.symm.trans htext')

/-! ## Loading rows -/

theorem mapM_toPeer {rows : List Row} (h : ∀ row ∈ rows, ∃ peer, row.toPeer crypto = .ok peer) :
    ∃ peers, rows.mapM (Row.toPeer crypto) = .ok peers := by
  induction rows with
  | nil => exact ⟨[], rfl⟩
  | cons row rows ih =>
    obtain ⟨peer, hpeer⟩ := h row List.mem_cons_self
    obtain ⟨peers, hpeers⟩ := ih fun row hrow => h row (List.mem_cons_of_mem _ hrow)
    exact ⟨peer :: peers, by rw [List.mapM_cons, hpeer, hpeers]; rfl⟩

theorem of_mapM_toPeer {rows : List Row} {peers : List (Peer crypto)}
    (h : rows.mapM (Row.toPeer crypto) = .ok peers) :
    peers.map (·.toRow) = rows ∧ ∀ row ∈ rows, ∃ peer, row.toPeer crypto = .ok peer := by
  induction rows generalizing peers with
  | nil =>
    cases h
    exact ⟨rfl, nofun⟩
  | cons row rows ih =>
    rw [List.mapM_cons] at h
    cases hrow : row.toPeer crypto with
    | error e =>
      rw [hrow] at h
      cases h
    | ok p =>
      rw [hrow] at h
      cases hrows : rows.mapM (Row.toPeer crypto) with
      | error e =>
        rw [hrows] at h
        cases h
      | ok ps =>
        rw [hrows] at h
        cases h
        obtain ⟨hmap, hall⟩ := ih hrows
        exact ⟨by rw [List.map_cons, toRow_of_toPeer hrow, hmap],
          List.forall_mem_cons.mpr ⟨⟨p, hrow⟩, hall⟩⟩

/-! ## Runs of the verification -/

theorem exec_ofExcept {α : Type} {x : Except Exn α} {t t' : Table} {r : Except Exn α}
    (h : Prog.Exec Act (ofExcept x) t r t') : r = x ∧ t' = t := by
  cases x <;> cases h <;> exact ⟨rfl, rfl⟩

theorem Act.getAll_ok {t t' : Table} {rows : List Row} (h : Act t .getAll (.ok rows) t') :
    rows.Perm t.rows ∧ t' = t := by
  obtain ⟨choice, h⟩ := h
  cases choice with
  | ordered rows' =>
    simp only [Table.exec] at h
    split at h
    · next hperm =>
      cases h
      exact ⟨List.isPerm_iff.mp hperm, rfl⟩
    · cases h
  | _ => cases h

theorem Act.getByIdPrefix_ok {t t' : Table} {idPrefix : String} {row : Row}
    (h : Act t (.getByIdPrefix idPrefix) (.ok (some row)) t') :
    row ∈ t.rows ∧ matchesPrefix idPrefix row.id = true ∧ t' = t := by
  obtain ⟨choice, h⟩ := h
  cases choice with
  | picked row' =>
    simp only [Table.exec] at h
    split at h
    · next hpicks =>
      cases h
      simpa [Table.picks] using hpicks
    · cases h
  | _ => cases h

theorem exec_getPeerById {keyid : String} {t t' : Table} {peer : Peer crypto}
    (h : Prog.Exec Act (getPeerById crypto keyid) t (.ok peer) t') :
    peer.toRow ∈ t.rows ∧ matchesPrefix keyid peer.id = true := by
  obtain ⟨row, t₁, hget, hload⟩ | ⟨e, he, -⟩ := h.bind_inv
  · cases row with
    | none => cases hload
    | some row =>
      obtain ⟨hmem, hmatch, -⟩ := (Prog.exec_perform.mp hget).getByIdPrefix_ok
      have hrow := toRow_of_toPeer (exec_ofExcept hload).1.symm
      rw [hrow]
      exact ⟨hmem, hmatch⟩
  · cases he

theorem exec_ofExcept_bind {α β : Type} {x : Except Exn α} {f : α → Coro β} {t t' : Table} {b : β}
    (h : Prog.Exec Act (ofExcept x >>= f) t (.ok b) t') :
    ∃ a, x = .ok a ∧ Prog.Exec Act (f a) t (.ok b) t' := by
  cases x with
  | error e => cases h
  | ok a => exact ⟨a, rfl, h⟩

section Verification
variable {auth : HTTPSignatureAuth} {request : auth.Request} {t t' : Table}

/-- The request that is verified, if it can be put together. -/
def preparedRequest (auth : HTTPSignatureAuth) (request : auth.Request) :
    Except Exn auth.PreparedRequest := do
  let method ← auth.header request "X-Forwarded-Method"
  let proto ← auth.header request "X-Forwarded-proto"
  let host ← auth.header request "X-Forwarded-host"
  let uri ← auth.header request "X-Forwarded-uri"
  auth.prepare method s!"{proto}://{host}{uri}" request

/-- A verification that returns a peer has loaded all rows in some order, has found the key id's key
among them, and has looked the key id up again. -/
theorem exec_verifyPeerAuth {peer : Peer crypto}
    (h : Prog.Exec Act (verifyPeerAuth crypto auth request) t (.ok peer) t') :
    ∃ (prepared : auth.PreparedRequest) (rows : List Row) (peers : List (Peer crypto))
      (keyid : String), preparedRequest auth request = .ok prepared ∧
      rows.Perm t.rows ∧ rows.mapM (Row.toPeer crypto) = .ok peers ∧
      auth.verify prepared (resolvePublicKey (peersByPrefix peers)) = .ok keyid ∧
      peer.toRow ∈ t.rows ∧ matchesPrefix keyid peer.id = true := by
  obtain ⟨method, hmethod, h⟩ := exec_ofExcept_bind h
  obtain ⟨proto, hproto, h⟩ := exec_ofExcept_bind h
  obtain ⟨host, hhost, h⟩ := exec_ofExcept_bind h
  obtain ⟨uri, huri, h⟩ := exec_ofExcept_bind h
  obtain ⟨rows, t₁, hrows, hload⟩ | ⟨e, he, -⟩ := h.bind_inv
  · obtain ⟨hperm, rfl⟩ := (Prog.exec_perform.mp hrows).getAll_ok
    obtain ⟨peers, hpeers, hprepare⟩ := exec_ofExcept_bind hload
    obtain ⟨prepared, hprepared, hverify⟩ := exec_ofExcept_bind hprepare
    obtain ⟨keyid, hkeyid, hreturn⟩ := exec_ofExcept_bind hverify
    obtain ⟨hmem, hmatch⟩ := exec_getPeerById hreturn
    refine ⟨prepared, rows, peers, keyid, ?_, hperm, hpeers, hkeyid, hmem, hmatch⟩
    rw [preparedRequest, hmethod, hproto, hhost, huri]
    exact hprepared
  · cases he

/-- The same the other way round: whatever order the rows come in and whichever matching row is
picked, there is such a run. -/
theorem exec_verifyPeerAuth_of {prepared : auth.PreparedRequest} {rows : List Row}
    {peers : List (Peer crypto)} {keyid : String} {peer : Peer crypto}
    (hprepared : preparedRequest auth request = .ok prepared) (hperm : rows.Perm t.rows)
    (hpeers : rows.mapM (Row.toPeer crypto) = .ok peers)
    (hkeyid : auth.verify prepared (resolvePublicKey (peersByPrefix peers)) = .ok keyid)
    {row : Row} (hrow : row ∈ t.rows) (hmatch : matchesPrefix keyid row.id = true)
    (hpeer : row.toPeer crypto = .ok peer) :
    Prog.Exec Act (verifyPeerAuth crypto auth request) t (.ok peer) t := by
  unfold preparedRequest at hprepared
  unfold verifyPeerAuth
  cases hmethod : auth.header request "X-Forwarded-Method" with
  | error e =>
    rw [hmethod] at hprepared
    cases hprepared
  | ok method =>
  rw [hmethod] at hprepared
  cases hproto : auth.header request "X-Forwarded-proto" with
  | error e =>
    rw [hproto] at hprepared
    cases hprepared
  | ok proto =>
  rw [hproto] at hprepared
  cases hhost : auth.header request "X-Forwarded-host" with
  | error e =>
    rw [hhost] at hprepared
    cases hprepared
  | ok host =>
  rw [hhost] at hprepared
  cases huri : auth.header request "X-Forwarded-uri" with
  | error e =>
    rw [huri] at hprepared
    cases hprepared
  | ok uri =>
  rw [huri] at hprepared
  change auth.prepare method s!"{proto}://{host}{uri}" request = .ok prepared at hprepared
  have hall : Act t .getAll (.ok rows) t :=
    ⟨.ordered rows, by rw [Table.exec, if_pos (List.isPerm_iff.mpr hperm)]⟩
  have hget : Act t (.getByIdPrefix keyid) (.ok (some row)) t := by
    refine ⟨.picked (some row), ?_⟩
    have hpicks : t.picks keyid (some row) = true := by simp [Table.picks, hrow, hmatch]
    rw [Table.exec, if_pos hpicks]
  refine .await hall ?_
  change Prog.Exec Act (ofExcept (rows.mapM (Row.toPeer crypto)) >>= fun peers =>
    ofExcept (auth.prepare method s!"{proto}://{host}{uri}" request) >>= fun prepared =>
      ofExcept (auth.verify prepared (resolvePublicKey (peersByPrefix peers))) >>= fun keyid =>
        getPeerById crypto keyid) t (.ok peer) t
  rw [hpeers, hprepared]
  change Prog.Exec Act (ofExcept (auth.verify prepared (resolvePublicKey (peersByPrefix peers))) >>=
    fun keyid => getPeerById crypto keyid) t (.ok peer) t
  rw [hkeyid]
  refine .await hget ?_
  change Prog.Exec Act (ofExcept (row.toPeer crypto)) t (.ok peer) t
  rw [hpeer]
  exact .ret peer t

/-! ## Main result -/

variable (crypto auth request t) in
/-- Whenever a peer is returned, the signature was made for that peer's stored key. -/
def Authentic : Prop :=
  ∀ peer t', Prog.Exec Act (verifyPeerAuth crypto auth request) t (.ok peer) t' →
    ∃ prepared text, preparedRequest auth request = .ok prepared ∧
      peer.publicBytesB64 = some text ∧ auth.signedBy prepared text

variable (crypto auth request t) in
/-- If the signature is good for some peer whose short id is the key id, it is good for every row that
the key id matches. A request that cannot be put together and a table with a row that cannot be loaded
are no exceptions: nothing is verified then. -/
def Unambiguous : Prop :=
  ∀ prepared keyid, preparedRequest auth request = .ok prepared →
    auth.keyid prepared = some keyid → (∀ row ∈ t.rows, ∃ peer, row.toPeer crypto = .ok peer) →
    ∀ known ∈ t.rows, shortId known.id = keyid →
      (∃ text, known.publicBytesB64 = some text ∧ text ≠ "" ∧ auth.signedBy prepared text) →
      ∀ row ∈ t.rows, matchesPrefix keyid row.id = true →
        ∃ text, row.publicBytesB64 = some text ∧ auth.signedBy prepared text

theorem unambiguous_of_unique (h : ∀ known ∈ t.rows, ∀ row ∈ t.rows,
      matchesPrefix (shortId known.id) row.id = true → row = known) :
    Unambiguous crypto auth request t := by
  rintro prepared keyid - - - known hknown rfl ⟨text, htext, -, hsigned⟩ row hrow hmatch
  obtain rfl := h known hknown row hrow hmatch
  exact ⟨text, htext, hsigned⟩

/-- `verify_peer_auth` returns only peers whose own key has verified the request, exactly if the key id is
unambiguous. -/
theorem authentic_iff : Authentic crypto auth request t ↔ Unambiguous crypto auth request t := by
  constructor
  · intro h prepared keyid hprepared hkeyid hload known hknown hshort hsigned row hrow hmatch
    obtain ⟨text, htext, hempty, hsigned⟩ := hsigned
    -- the order in which `known` is loaded last, and stays under its short id
    have hload' : ∀ row ∈ t.rows.erase known, ∃ peer, row.toPeer crypto = .ok peer :=
      fun row hrow => hload row (List.mem_of_mem_erase hrow)
    obtain ⟨others, hothers⟩ := mapM_toPeer hload'
    obtain ⟨peer, hpeer⟩ := hload known hknown
    obtain ⟨returned, hreturned⟩ := hload row hrow
    have hpeers : (t.rows.erase known ++ [known]).mapM (Row.toPeer crypto) =
        .ok (others ++ [peer]) := by
      rw [List.mapM_append, hothers, List.mapM_cons, hpeer]
      rfl
    have hperm : (t.rows.erase known ++ [known]).Perm t.rows :=
      (List.perm_append_singleton _ _).trans (List.perm_cons_erase hknown).symm
    have hid : shortId peer.id = keyid := by rw [toRow_of_toPeer hpeer, hshort]
    have hresolve : resolvePublicKey (peersByPrefix (others ++ [peer])) keyid = .ok text := by
      refine resolvePublicKey_eq_ok.mpr ⟨peer, ?_, ?_, hempty⟩
      · rw [← hid]
        exact peersByPrefix_append others peer
      · rw [toRow_of_toPeer hpeer, htext]
    have hverify := (auth.verify_eq_ok prepared (resolvePublicKey (peersByPrefix (others ++ [peer])))
      keyid).mpr ⟨hkeyid, text, hresolve, hsigned⟩
    obtain ⟨prepared', text', hprepared', htext', hsigned'⟩ :=
      h returned t (exec_verifyPeerAuth_of hprepared hperm hpeers hverify hrow hmatch hreturned)
    obtain rfl : prepared = prepared' := Except.ok.inj (hprepared.symm.trans hprepared')
    rw [toRow_of_toPeer hreturned] at htext'
    exact ⟨text', htext', hsigned'⟩
  · intro h peer t' hrun
    obtain ⟨prepared, rows, peers, keyid, hprepared, hperm, hpeers, hverify, hmem, hmatch⟩ :=
      exec_verifyPeerAuth hrun
    obtain ⟨hkeyid, text, hresolve, hsigned⟩ := (auth.verify_eq_ok _ _ _).mp hverify
    obtain ⟨known, hknown, htext, hempty⟩ := resolvePublicKey_eq_ok.mp hresolve
    obtain ⟨hmap, hload⟩ := of_mapM_toPeer hpeers
    obtain ⟨hknown, hshort⟩ := mem_of_peersByPrefix hknown
    have hknown' : known.toRow ∈ t.rows := by
      refine hperm.mem_iff.mp ?_
      rw [← hmap]
      exact List.mem_map_of_mem hknown
    obtain ⟨text', htext', hsigned'⟩ := h prepared keyid hprepared hkeyid
      (fun row hrow => hload row (hperm.mem_iff.mpr hrow)) known.toRow hknown' hshort
      ⟨text, htext, hempty, hsigned⟩ peer.toRow hmem hmatch
    exact ⟨prepared, text', hprepared, htext', hsigned'⟩

end Verification

/-! ## Two peers with one short id -/

/-- Requests that consist of a key id and the key they are signed for. -/
def HTTPSignatureAuth.symbolic : HTTPSignatureAuth where
  Request := String × String
  PreparedRequest := String × String
  header _ _ := .ok ""
  prepare _ _ request := .ok request
  keyid prepared := some prepared.1
  signedBy prepared text := prepared.2 = text
  verify prepared resolve :=
    match resolve prepared.1 with
    | .ok text => if prepared.2 = text then .ok prepared.1 else .error (.invalidSignature "")
    | .error e => .error e
  verify_eq_ok prepared resolve id := by
    cases hresolve : resolve prepared.1 with
    | error e =>
      refine ⟨nofun, ?_⟩
      rintro ⟨hid, text, htext, -⟩
      obtain rfl := Option.some.inj hid
      rw [hresolve] at htext
      cases htext
    | ok text =>
      dsimp only
      by_cases hsigned : prepared.2 = text
      · rw [if_pos hsigned]
        constructor
        · rintro ⟨⟩
          exact ⟨rfl, text, hresolve, hsigned⟩
        · rintro ⟨hid, -⟩
          rw [Option.some.inj hid]
      · rw [if_neg hsigned]
        refine ⟨nofun, ?_⟩
        rintro ⟨hid, text', htext', hsigned'⟩
        obtain rfl := Option.some.inj hid
        rw [hresolve] at htext'
        exact absurd (hsigned'.trans (Except.ok.inj htext').symm) hsigned

/-- Two peers whose ids differ after the first six characters. -/
def twins : Table where
  rows := [⟨"abcdefX", none, some "kabcdefX", some true⟩,
    ⟨"abcdefY", none, some "kabcdefY", some true⟩]
  nodup := by decide

/-- A request that the second one has signed is taken for the first one's. -/
theorem impersonated :
    ¬Authentic Crypto.symbolic HTTPSignatureAuth.symbolic ("abcdef", "kabcdefY") twins := by
  intro h
  have hexec : ∀ t op choice r t', Table.exec t op choice = some (r, t') → Act t op r t' :=
    fun _ _ choice _ _ he => ⟨choice, he⟩
  obtain ⟨r, t', hrun, hr⟩ := Prog.exists_exec hexec
    (verifyPeerAuth Crypto.symbolic HTTPSignatureAuth.symbolic ("abcdef", "kabcdefY")) twins
    [.ordered twins.rows, .picked twins.rows.head?]
    (fun r _ => r.toOption.map (·.publicBytesB64) == some (some "kabcdefX")) (by decide)
  cases r with
  | error e => cases hr
  | ok peer =>
    obtain ⟨prepared, text, hprepared, htext, hsigned⟩ := h peer t' hrun
    obtain rfl : ("abcdef", "kabcdefY") = prepared := Except.ok.inj hprepared
    have hkey : some peer.publicBytesB64 = some (some "kabcdefX") := beq_iff_eq.mp hr
    rw [htext] at hkey
    have hsame : "kabcdefY" = "kabcdefX" :=
      hsigned.trans (Option.some.inj (Option.some.inj hkey))
    exact absurd hsame (by decide)

end Freeshard.Peers

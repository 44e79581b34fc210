import Freeshard.Identities.DefaultIdentity

/-! # Rows that can be loaded

A row is validated when it is read, not when it is written. `put_identity` writes a name that is explicitly null, and
`enrich_identity_from_profile` an address that nobody has validated, and both are committed before anything is loaded.
Without such an update every row can be loaded, so the default identity can be read by every later request and at
every later start, as long as `validate_email` then accepts the addresses that have been stored. -/

namespace Freeshard.Identities
open Coroutine Coroutine.Recorded ReadCommitted
set_option autoImplicit false

variable {toHashId : String → String} {accepts : String → Bool}

/-! ## Loading -/

/-- An update that validation would let pass. -/
def UpdateData.Valid (accepts : String → Bool) (data : UpdateData) : Prop :=
  data.name ≠ some none ∧ data.privateKey ≠ some none ∧ data.email.all (emailOk accepts) = true

instance (data : UpdateData) : Decidable (data.Valid accepts) := inferInstanceAs (Decidable (_ ∧ _ ∧ _))

theorem loadable_apply {row : IdentityRow} {data : UpdateData} (h : row.Loadable accepts)
    (hdata : data.Valid accepts) : (data.apply row).Loadable accepts := by
  obtain ⟨⟨hname, hkey⟩, hemail⟩ := IdentityRow.loadable_iff.mp h
  obtain ⟨hname', hkey', hemail'⟩ := hdata
  refine IdentityRow.loadable_iff.mpr ⟨⟨?_, ?_⟩, ?_⟩
  · unfold UpdateData.apply
    cases hd : data.name with
    | none => exact hname
    | some name =>
      rintro rfl
      exact hname' hd
  · unfold UpdateData.apply
    cases hd : data.privateKey with
    | none => exact hkey
    | some key =>
      rintro rfl
      exact hkey' hd
  · unfold UpdateData.apply
    cases hd : data.email with
    | none => exact hemail
    | some email =>
      rw [hd] at hemail'
      exact hemail'

/-! ## The invariant -/

variable (accepts) in
/-- Every update is one that validation would let pass, every address that is stored is one of these, and only
`make_default` writes the flag. -/
def writesValid : Condition Op Ans Exn World Call := fun _ i op =>
  match op with
  | .update _ _ data =>
    data.Valid accepts ∧ match i with
      | .updateIdentity _ _ _ => data.isDefault = none
      | _ => True
  | .insert _ row => emailOk accepts row.email = true
  | _ => True

instance (s : State) (i : Call) (op : Op) : Decidable (writesValid accepts s i op) :=
  match op, i with
  | .update _ _ data, .updateIdentity _ _ _ =>
    inferInstanceAs (Decidable (data.Valid accepts ∧ data.isDefault = none))
  | .update _ _ data, .putIdentity _ _ => inferInstanceAs (Decidable (data.Valid accepts ∧ True))
  | .update _ _ data, .enrichIdentity _ => inferInstanceAs (Decidable (data.Valid accepts ∧ True))
  | .update _ _ data, .makeDefault _ _ => inferInstanceAs (Decidable (data.Valid accepts ∧ True))
  | .insert _ row, _ => inferInstanceAs (Decidable (emailOk accepts row.email = true))
  | .connect _, _ | .commit _, _ | .rollback _, _ | .getDefault _, _ | .getById _ _, _
  | .count _, _ | .validateEmail _, _ | .refreshProfile, _ | .generatePrivateKey, _
  | .onIdentityUpdate, _ => .isTrue trivial

theorem keepsFlags_of_writesValid {s : State} {i : Call} {op : Op}
    (h : writesValid accepts s i op) : keepsFlags s i op := by
  unfold keepsFlags
  split
  · exact h.2
  · trivial

variable (accepts) in
/-- All rows can be loaded, the uncommitted ones too, and there is a default identity. -/
structure Sound (w : World) : Prop where
  committed : ∀ id row, w.identities.committed id = some row → row.Loadable accepts
  versions : ∀ i conn id row, w.Wrote i conn id row → row.Loadable accepts
  default : ∃ id, w.IsDefault id

section Step
variable {s : State} {i : Call} {op : Op} {r : Answer op} {w' : World}

theorem Sound.visible {w : World} (h : Sound accepts w) {conn : Conn} {id : String} {row : IdentityRow}
    (hrow : w.visible i conn id = some row) : row.Loadable accepts := by
  obtain ⟨v, hv, heq⟩ | ⟨-, heq⟩ := w.identities.visible_cases (i, conn) id
  · obtain rfl : v = row := Option.some.inj (heq.symm.trans hrow)
    exact h.versions i conn id v hv
  · exact h.committed id row (heq.symm.trans hrow)

theorem Sound.committed_step (h : Sound accepts s.world) (ha : Act i s.world op r w') (id : String)
    (row : IdentityRow) (hrow : w'.identities.committed id = some row) : row.Loadable accepts := by
  obtain hsame | ⟨c, -, rfl⟩ := ha.committed
  · rw [hsame] at hrow
    exact h.committed id row hrow
  · exact h.visible (i := i) hrow

theorem Sound.versions_step (h : Sound accepts s.world) (hallowed : i.protocol.allows (phase i s) op)
    (hC : writesValid accepts s i op) (ha : Act i s.world op r w') (j : Call) (conn : Conn) (id : String)
    (row : IdentityRow) (hwrote : w'.Wrote j conn id row) : row.Loadable accepts := by
  by_cases hj : j = i
  · subst hj
    cases ha with
    | commit c _ => exact h.versions j conn id row (Store.commit_uncommitted.mp hwrote).1
    | commitFails c e => exact h.versions j conn id row (Store.rollback_uncommitted.mp hwrote).1
    | rollback c _ => exact h.versions j conn id row (Store.rollback_uncommitted.mp hwrote).1
    | update data hrow _ _ =>
      obtain ⟨rfl, rfl, -⟩ | ⟨-, hbefore⟩ := wrote_write hwrote
      · exact loadable_apply (h.visible hrow) hC.1
      · exact h.versions j conn id row hbefore
    | insert hrow _ _ =>
      obtain ⟨rfl, rfl, -⟩ | ⟨-, hbefore⟩ := wrote_write hwrote
      · cases j with
        | makeDefault n target => exact hallowed.elim
        | putIdentity n input => exact IdentityRow.loadable_iff.mpr ⟨hallowed.2, hC⟩
        | updateIdentity n id updateData => exact IdentityRow.loadable_iff.mpr ⟨hallowed.2, hC⟩
        | enrichIdentity n => exact IdentityRow.loadable_iff.mpr ⟨hallowed.2, hC⟩
      · exact h.versions j conn id row hbefore
    | _ => exact h.versions j conn id row hwrote
  · exact h.versions j conn id row ((ha.wrote_other hj).mp hwrote)

theorem Sound.step (h : Sound accepts s.world) (ht : Tracked s)
    (hallowed : i.protocol.allows (phase i s) op) (hC : writesValid accepts s i op)
    (ha : Act i s.world op r w') : Sound accepts w' where
  committed := h.committed_step ha
  versions := h.versions_step hallowed hC ha
  default := by
    obtain ⟨default, hdefault⟩ := h.default
    obtain hsame | ⟨n, target, last, -, -, -, hmoved⟩ := ht.isDefault_step hallowed ha
    · exact ⟨default, (hsame default).mpr hdefault⟩
    · exact ⟨target, (hmoved target).mpr (.inl rfl)⟩

end Step

/-! ## Reading the default identity -/

/-- Nothing is uncommitted on the call's connection. -/
def Clean (i : Call) (w : World) : Prop := ∀ id row, ¬ w.Wrote i .own id row

/-- The coroutine has returned a value with this property. -/
def Returns {α : Type} (P : α → Prop) (r : Except Exn α) (_ : World) : Prop :=
  ∃ a, r = .ok a ∧ P a

/-- `validate_email` accepts these addresses. -/
def Judged (accepts : String → Bool) : (op : Op) → Answer op → Prop
  | .validateEmail address, r => accepts address = true → r = .ok true
  | _, _ => True

variable (accepts) in
/-- The operations do not fail, and `validate_email` accepts these addresses. -/
def Undisturbed (i : Call) (w : World) (op : Op) (r : Answer op) (w' : World) : Prop :=
  Act i w op r w' ∧ (∃ a, r = .ok a) ∧ Judged accepts op r

variable (accepts) in
/-- Run undisturbed, the coroutine returns an identity. -/
def Succeeds (i : Call) (p : Coro Identity) (w : World) : Prop :=
  (∃ r w', Prog.Exec (Undisturbed accepts i) p w r w') ∧
    ∀ r w', Prog.Exec (Undisturbed accepts i) p w r w' → ∃ identity, r = .ok identity

section Reading
variable {i : Call} {w : World}

theorem Sound.default_row (h : Sound accepts w) (hclean : Clean i w) :
    ∃ row ∈ w.identities.rows (i, .own), row.isDefault = true := by
  obtain ⟨id, hid⟩ := h.default
  obtain ⟨row, hrow, hflag⟩ := (Option.any_eq_true _ _).mp hid
  exact ⟨row, Store.mem_rows.mpr ⟨id, (visible_of_not_wrote hclean id).trans hrow⟩, hflag⟩

theorem Sound.loads (h : Sound accepts w) {row : IdentityRow} (hmem : row ∈ w.identities.rows (i, .own)) :
    row.Loadable accepts := by
  obtain ⟨id, hid⟩ := Store.mem_rows.mp hmem
  exact h.visible hid

/-- A row that can be loaded can be loaded where all addresses are accepted. -/
theorem load_accepted {row : IdentityRow} (h : row.Loadable accepts) :
    ∃ identity, (row.load fun _ => true) = .ok identity := by
  refine IdentityRow.loadable_iff.mpr ⟨(IdentityRow.loadable_iff.mp h).1, ?_⟩
  unfold emailOk
  cases truthyText row.email <;> rfl

theorem exec_validateEmail (email : Option String) :
    Prog.Exec (Undisturbed accepts i) (validateEmail email) w (.ok true) w := by
  unfold validateEmail
  split
  · exact .ret _ _
  · next address _ =>
    exact Prog.exec_perform.mpr ⟨.validateEmail address true, ⟨true, rfl⟩, fun _ => rfl⟩

theorem wp_validateEmail {email : Option String} (h : emailOk accepts email = true) :
    (validateEmail email).wp (Undisturbed accepts i) (Returns (· = true)) w := by
  unfold validateEmail
  unfold emailOk at h
  split
  · exact ⟨true, rfl, rfl⟩
  · next address haddress =>
    rw [haddress] at h
    refine (Prog.wp_perform _ _ _).mpr ?_
    rintro r w' ⟨-, -, hjudged⟩
    exact ⟨true, hjudged h, rfl⟩

theorem exec_loadRow {row : IdentityRow} (h : row.Loadable accepts) :
    ∃ identity, Prog.Exec (Undisturbed accepts i) (loadRow row) w (.ok identity) w := by
  obtain ⟨identity, hload⟩ := load_accepted h
  refine ⟨identity, (exec_validateEmail row.email).bind ?_⟩
  rw [hload]
  exact .ret _ _

theorem wp_loadRow {row : IdentityRow} (h : row.Loadable accepts) :
    (loadRow row).wp (Undisturbed accepts i) (Returns fun _ => True) w := by
  obtain ⟨identity, hload⟩ := load_accepted h
  refine Prog.wp_bind_of (wp_validateEmail (IdentityRow.loadable_iff.mp h).2) ?_ ?_
  · rintro accepted w' ⟨_, haccepted, rfl⟩
    obtain rfl := Except.ok.inj haccepted
    rw [hload]
    exact ⟨identity, rfl, trivial⟩
  · rintro e w' ⟨_, he, -⟩
    cases he

theorem exec_dbConn {α : Type} {body : Coro α} {a : α} {w₁ : World} (conn : Conn)
    (h : Prog.Exec (Undisturbed accepts i) body w (.ok a) w₁) :
    Prog.Exec (Undisturbed accepts i) (dbConn conn body) w (.ok a) (w₁.commit i conn) := by
  have hconnect : Undisturbed accepts i w (.connect conn) (.ok ()) w := ⟨.connect conn, ⟨(), rfl⟩, trivial⟩
  have hcommit : Undisturbed accepts i w₁ (.commit conn) (.ok ()) (w₁.commit i conn) :=
    ⟨.commit conn (.inl rfl), ⟨(), rfl⟩, trivial⟩
  refine (Prog.exec_perform.mpr hconnect).bind ?_
  exact h.tryCatch.bind ((Prog.exec_perform.mpr hcommit).bind (.ret _ _))

theorem wp_dbConn {α : Type} {body : Coro α} {P : α → Prop} {conn : Conn}
    (h : body.wp (Undisturbed accepts i) (Returns P) w) :
    (dbConn conn body).wp (Undisturbed accepts i) (Returns P) w := by
  refine (Prog.wp_bind _ _ _ _).mpr ((Prog.wp_perform _ _ _).mpr ?_)
  rintro r w₁ ⟨ha, ⟨u, rfl⟩, -⟩
  cases ha
  have hbody : (MonadExcept.tryCatch body fun e => do
      awaitOp (.rollback conn)
      throw e).wp (Undisturbed accepts i) (Returns P) w := by
    refine Prog.wp_tryCatch_of h (fun _ _ h => h) ?_
    rintro e w₂ ⟨a, ha, -⟩
    cases ha
  refine Prog.wp_bind_of hbody ?_ ?_
  · rintro a w₂ ⟨a', ha, hP⟩ r w₃ ⟨-, ⟨u, rfl⟩, -⟩
    obtain rfl := Except.ok.inj ha
    exact ⟨a, rfl, hP⟩
  · rintro e w₂ ⟨a, ha, -⟩
    cases ha

theorem Sound.exec_getDefault (h : Sound accepts w) (hclean : Clean i w) :
    ∃ row, row.Loadable accepts ∧
      Prog.Exec (Undisturbed accepts i) (getDefault .own) w (.ok (some row)) w := by
  obtain ⟨default, hmem, hflag⟩ := h.default_row hclean
  exact ⟨default, h.loads hmem, Prog.exec_perform.mpr ⟨.getDefault hmem hflag, ⟨_, rfl⟩, trivial⟩⟩

theorem Sound.wp_getDefault (h : Sound accepts w) (hclean : Clean i w) :
    (getDefault .own).wp (Undisturbed accepts i)
      (Returns fun row => ∃ found, row = some found ∧ found.Loadable accepts) w := by
  obtain ⟨default, hmem, hflag⟩ := h.default_row hclean
  refine (Prog.wp_perform _ _ _).mpr ?_
  rintro r w₁ ⟨ha, ⟨found, rfl⟩, -⟩
  cases ha with
  | getDefaultNone hnone =>
    have hfalse := hnone default hmem
    rw [hflag] at hfalse
    cases hfalse
  | getDefault hmem' hflag' => exact ⟨_, rfl, _, rfl, h.loads hmem'⟩

theorem Sound.succeeds_getDefaultIdentity (h : Sound accepts w) (hclean : Clean i w) :
    Succeeds accepts i getDefaultIdentity w := by
  constructor
  · obtain ⟨row, hrow, hread⟩ := h.exec_getDefault hclean
    obtain ⟨identity, hload⟩ := exec_loadRow (i := i) (w := w.commit i .own) hrow
    exact ⟨.ok identity, w.commit i .own, (exec_dbConn .own hread).bind hload⟩
  · have hwp : getDefaultIdentity.wp (Undisturbed accepts i) (Returns fun _ => True) w := by
      refine Prog.wp_bind_of (wp_dbConn (h.wp_getDefault hclean)) ?_ ?_
      · rintro row w₁ ⟨_, hrow, found, rfl, hfound⟩
        obtain rfl := Except.ok.inj hrow
        exact wp_loadRow hfound
      · rintro e w₁ ⟨_, he, -⟩
        cases he
    intro r w' hrun
    obtain ⟨identity, hidentity, -⟩ := hrun.wp hwp
    exact ⟨identity, hidentity⟩

theorem Sound.succeeds_initDefaultIdentity (toHashId : String → String) (h : Sound accepts w) (hclean : Clean i w) :
    Succeeds accepts i (initDefaultIdentity toHashId) w := by
  have hcount : w.identities.count (i, .own) ≠ 0 := by
    obtain ⟨default, hmem, -⟩ := h.default_row hclean
    intro hzero
    obtain ⟨id, hid⟩ := Store.mem_rows.mp hmem
    rw [Store.count_eq_zero.mp hzero id] at hid
    cases hid
  constructor
  · obtain ⟨row, hrow, hread⟩ := h.exec_getDefault hclean
    obtain ⟨identity, hload⟩ := exec_loadRow (i := i) (w := w) hrow
    have hcounted : Undisturbed accepts i w (.count .own) (.ok (w.identities.count (i, .own))) w :=
      ⟨.count .own, ⟨_, rfl⟩, trivial⟩
    refine ⟨.ok identity, w.commit i .own,
      exec_dbConn .own ((Prog.exec_perform.mpr hcounted).bind ?_)⟩
    rw [if_neg hcount]
    exact hread.bind hload
  · have hwp : (initDefaultIdentity toHashId).wp (Undisturbed accepts i) (Returns fun _ => True) w := by
      refine wp_dbConn ((Prog.wp_bind _ _ _ _).mpr ((Prog.wp_perform _ _ _).mpr ?_))
      rintro r w₁ ⟨ha, ⟨n, rfl⟩, -⟩
      cases ha
      dsimp only
      rw [if_neg hcount]
      refine Prog.wp_bind_of (h.wp_getDefault hclean) ?_ ?_
      · rintro row w₁ ⟨_, hrow, found, rfl, hfound⟩
        obtain rfl := Except.ok.inj hrow
        exact wp_loadRow hfound
      · rintro e w₁ ⟨_, he, -⟩
        cases he
    intro r w' hrun
    obtain ⟨identity, hidentity, -⟩ := hrun.wp hwp
    exact ⟨identity, hidentity⟩

end Reading

/-! ## Main results -/

/-- Every row can be loaded, and both ways to read the default identity succeed, where `validate_email` accepts these
addresses. -/
def Healthy (toHashId : String → String) (accepts : String → Bool) (w : World) : Prop :=
  (∀ id row, w.identities.committed id = some row → row.Loadable accepts) ∧
    ∀ i, Clean i w →
      Succeeds accepts i getDefaultIdentity w ∧ Succeeds accepts i (initDefaultIdentity toHashId) w

theorem Sound.healthy {w : World} (h : Sound accepts w) : Healthy toHashId accepts w :=
  ⟨h.committed, fun _ hclean =>
    ⟨h.succeeds_getDefaultIdentity hclean, h.succeeds_initDefaultIdentity toHashId hclean⟩⟩

theorem Sound.restart {w : World} (h : Sound accepts w) : Sound accepts w.restart where
  committed := h.committed
  versions i conn id row hwrote := by
    have hnone : (none : Option ((Call × Conn) × IdentityRow)) = some ((i, conn), row) := hwrote
    cases hnone
  default := h.default

/-- Whatever `validate_email` answers while the calls run: if no update removes a name or a key, then in every state
reached, and after a restart in it, all rows can be loaded and the default identity can be read whenever `validate_email`
accepts the addresses that have been stored. -/
theorem rows_loadable (toHashId : String → String) (accepts : String → Bool) (rows : List IdentityRow)
    (hrows : ∀ row ∈ rows, row.Loadable accepts) (hdefault : ∃ id, (World.ofRows rows).IsDefault id)
    {c : Config Op Ans Exn State Call}
    (h : Recorded.Runs Act (writesValid accepts) (Call.program toHashId) (World.ofRows rows) c) :
    Healthy toHashId accepts c.state.world ∧ Healthy toHashId accepts c.state.world.restart := by
  have h₀ : Sound accepts (World.ofRows rows) := {
    committed := fun id row hrow => hrows row (List.mem_of_find?_eq_some hrow)
    versions := fun i conn id row hwrote => absurd hwrote (not_wrote_ofRows rows i conn id row)
    default := hdefault }
  have hinv : Tracked c.state ∧ Sound accepts c.state.world := by
    refine h.invariant conforms_program (I := fun s => Tracked s ∧ Sound accepts s.world)
      ⟨Tracked.start rows, h₀⟩ ?_
    intro i s op r w' hallowed hs hC ha
    exact ⟨hs.1.step hallowed (keepsFlags_of_writesValid hC) ha, hs.2.step hs.1 hallowed hC ha⟩
  exact ⟨hinv.2.healthy, hinv.2.restart.healthy⟩

/-- The one address that is accepted. -/
def ownersAddress (address : String) : Bool := address == "owner@example.org"

theorem World.three_loadable : ∀ row ∈ World.threeRows, row.Loadable ownersAddress := by
  intro row hrow
  refine IdentityRow.loadable_iff.mpr ?_
  unfold IdentityRow.Complete
  revert row
  decide

/-- The default identity gets another name and an address. -/
theorem rows_loadable_run : ∃ c,
    Recorded.Runs Act (writesValid ownersAddress) (Call.program id) (World.ofRows World.threeRows) c ∧
    c.state.world.identities.committed "A" =
      some ⟨"A", some "Owner", some "owner@example.org", none, some "key A", true⟩ ∧
    Healthy id ownersAddress c.state.world ∧ Healthy id ownersAddress c.state.world.restart := by
  let rename : InputIdentity :=
    { id := some (some "A")
      name := some (some "Owner")
      email := some (some "owner@example.org") }
  obtain ⟨c, hrun, hc, -⟩ := exists_run id (writesValid ownersAddress) (World.ofRows World.threeRows)
    (Turn.call (.putIdentity 0 rename) (.judges true :: List.replicate 7 .proceed ++ [.judges true]))
    (fun c => c.state.world.identities.committed "A" ==
      some ⟨"A", some "Owner", some "owner@example.org", none, some "key A", true⟩) (by decide)
  exact ⟨c, hrun, eq_of_beq hc, rows_loadable id _ _ World.three_loadable ⟨"A", by decide⟩ hrun⟩

/-- A name that is explicitly null, and a profile with an address that is not valid. -/
theorem rows_not_loadable : ∃ c,
    Recorded.Runs Act anyway (Call.program id) (World.ofRows World.threeRows) c ∧ c.Quiescent ∧
    (∀ accepts, ¬ Healthy id accepts c.state.world) ∧
    ∀ accepts, accepts "nobody" = false → ∃ row,
      c.state.world.identities.committed "A" = some row ∧ ¬ row.Loadable accepts := by
  let rename : Call := .putIdentity 0 { id := some (some "B"), name := some none }
  let enrich : Call := .enrichIdentity 1
  obtain ⟨c, hrun, hc, hq⟩ := exists_run id anyway (World.ofRows World.threeRows)
    (Turn.call rename (List.replicate 7 Choice.proceed) ++
      Turn.call enrich (Choice.profile (some ⟨none, some "nobody"⟩) :: List.replicate 6 Choice.proceed ++
        [Choice.judges false, .proceed]))
    (fun c => c.ended rename && c.ended enrich && c.state.world.identities.committed "A" ==
        some ⟨"A", some "Shard Owner", some "nobody", none, some "key A", true⟩ &&
      c.state.world.identities.committed "B" ==
        some ⟨"B", none, none, none, some "key B", false⟩) (by decide)
  simp only [Bool.and_eq_true, beq_iff_eq] at hc
  obtain ⟨⟨⟨hrename, henrich⟩, hA⟩, hB⟩ := hc
  refine ⟨c, hrun, hq ?_, fun accepts hhealthy => ?_, fun accepts hnobody => ⟨_, hA, fun hloadable => ?_⟩⟩
  · simp [Turn.call, Turn.name, hrename, henrich]
  · exact (IdentityRow.loadable_iff.mp (hhealthy.1 "B" _ hB)).1.1 rfl
  · have hemail := (IdentityRow.loadable_iff.mp hloadable).2
    change accepts "nobody" = true at hemail
    rw [hnobody] at hemail
    cases hemail

end Freeshard.Identities

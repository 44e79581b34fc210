import Freeshard.Coroutine.Recorded
import Freeshard.Service.Identity

/-! # The default identity

`make_default` reads the default identity and then, still in one transaction, takes the flag from it and gives it to
another one. Under READ COMMITTED the row it has read need not be the default any more when it commits. If it is, or
if the new default is the one that others have made the default meanwhile, exactly one identity stays the default. -/

namespace Freeshard.Identities
open Coroutine Coroutine.Recorded ReadCommitted
set_option autoImplicit false

variable {toHashId : String → String}

/-! ## What a call may do next -/

/-- How far a `make_default` has come, with the id of the default it has read. -/
inductive Phase where
  | start
  | read (last : String)
  | found (last : String)
  | cleared (last : String)
  | set (last : String)
  /-- An `update` has failed. -/
  | failed
  | closed
  deriving DecidableEq

/-- `make_default(target)`. -/
def makeDefaultProtocol (target : String) : Protocol Op Ans Exn Phase where
  allows l op :=
    match op with
    | .connect .own => l = .start
    | .getDefault .own => l = .start
    | .getById .own id => id = target ∧ ∃ last, l = .read last
    | .update .own id data =>
      (l = .found id ∧ data = { isDefault := some false }) ∨
        (id = target ∧ data = { isDefault := some true } ∧ ∃ last, l = .cleared last)
    | .commit .own => ∃ last, l = .set last
    | .rollback .own => True
    | .onIdentityUpdate => l = .closed
    | _ => False
  after l op r :=
    match op, r with
    | .getDefault _, .ok (some row) => .read row.id
    | .getById _ _, .ok (some _) =>
      match l with
      | .read last => .found last
      | l => l
    | .update _ _ _, .ok _ =>
      match l with
      | .found last => .cleared last
      | .cleared last => .set last
      | l => l
    | .update _ _ _, .error _ => .failed
    | .commit _, _ => .closed
    | .rollback _, _ => .closed
    | _, _ => l

/-- The other calls, which write these columns and insert complete identities that are not the default. -/
def editProtocol (writes : UpdateData → Prop) : Protocol Op Ans Exn Phase where
  allows _ op :=
    match op with
    | .update _ _ data => writes data
    | .insert _ row => row.isDefault = false ∧ row.Complete
    | _ => True
  after l _ _ := l

def Call.protocol : Call → Protocol Op Ans Exn Phase
  | .makeDefault _ target => makeDefaultProtocol target
  | .updateIdentity _ _ updateData => editProtocol fun data => data = updateData
  | .enrichIdentity _ => editProtocol fun data => ∃ profile : Profile, data = profile.updateData
  | .putIdentity _ i => editProtocol fun data => data = i.updateData

theorem update_isDefault (conn : Conn) (id : String) (flag : Bool) :
    update conn id { isDefault := some flag } = awaitOp (.update conn id { isDefault := some flag }) :=
  if_neg nofun

theorem conforms_makeDefault (target : String) :
    (makeDefault target).Conforms (makeDefaultProtocol target) .start fun _ _ => True := by
  unfold makeDefault
  simp only [update_isDefault]
  refine Prog.Conforms.bind (R := fun r l => r = .ok () → l = .closed) ?_ ?_ fun _ _ _ => trivial
  · refine ⟨rfl, fun r => ?_⟩
    cases r with
    | error e => exact nofun
    | ok u =>
      refine ⟨rfl, fun r => ?_⟩
      cases r with
      | error e => exact ⟨trivial, fun r => by cases r <;> exact nofun⟩
      | ok row =>
        cases row with
        | none => exact ⟨trivial, fun r => by cases r <;> exact nofun⟩
        | some last =>
          refine ⟨⟨rfl, last.id, rfl⟩, fun r => ?_⟩
          cases r with
          | error e => exact ⟨trivial, fun r => by cases r <;> exact nofun⟩
          | ok found =>
            cases found with
            | none => exact ⟨trivial, fun r => by cases r <;> exact nofun⟩
            | some found =>
              refine ⟨.inl ⟨rfl, rfl⟩, fun r => ?_⟩
              cases r with
              | error e => exact ⟨trivial, fun r => by cases r <;> exact nofun⟩
              | ok cleared =>
                refine ⟨.inr ⟨rfl, rfl, last.id, rfl⟩, fun r => ?_⟩
                cases r with
                | error e => exact ⟨trivial, fun r => by cases r <;> exact nofun⟩
                | ok set =>
                  refine ⟨⟨last.id, rfl⟩, fun r => ?_⟩
                  cases r with
                  | error e => exact nofun
                  | ok u => exact fun _ => rfl
  · rintro u l hl
    obtain rfl := hl rfl
    exact ⟨rfl, fun r => by cases r <;> trivial⟩

section Edits
variable {writes : UpdateData → Prop}

theorem uses_dbConn {α : Type} {conn : Conn} {body : Coro α}
    (h : body.Uses ((editProtocol writes).allows .start)) :
    (dbConn conn body).Uses ((editProtocol writes).allows .start) := by
  refine Prog.Uses.bind ((Prog.uses_perform _).mpr trivial) fun _ => ?_
  refine Prog.Uses.bind (Prog.Uses.tryCatch h fun e => ?_) fun a => ?_
  · exact Prog.Uses.bind ((Prog.uses_perform _).mpr trivial) fun _ => trivial
  · exact Prog.Uses.bind ((Prog.uses_perform _).mpr trivial) fun _ => trivial

theorem uses_validateEmail {φ : Op → Prop} (h : ∀ address, φ (.validateEmail address)) (email : Option String) :
    (validateEmail email).Uses φ := by
  unfold validateEmail
  split
  · trivial
  · exact (Prog.uses_perform _).mpr (h _)

/-- What is done with an identity that has been loaded is done with a complete one with the same flag. -/
theorem uses_loadRow {α : Type} {φ : Op → Prop} {row : IdentityRow} {f : Identity → Coro α}
    (hemail : ∀ address, φ (.validateEmail address))
    (h : ∀ identity : Identity, identity.isDefault = row.isDefault → (f identity).Uses φ) :
    (loadRow row >>= f).Uses φ := by
  rw [loadRow, bind_assoc]
  refine Prog.Uses.bind (uses_validateEmail hemail _) fun accepted => ?_
  split
  · next identity hload => exact h identity (IdentityRow.of_load hload).2
  · trivial

theorem uses_loadRow_alone {φ : Op → Prop} (row : IdentityRow) (hemail : ∀ address, φ (.validateEmail address)) :
    (loadRow row).Uses φ := by
  rw [← bind_pure (loadRow row)]
  exact uses_loadRow hemail fun _ _ => trivial

theorem uses_updateIdentity {conn : Conn} {id : String} {data : UpdateData} (h : writes data) :
    (updateIdentity conn id data).Uses ((editProtocol writes).allows .start) := by
  refine Prog.Uses.bind (uses_dbConn ?_) fun updated => ?_
  · unfold update
    split
    · exact (Prog.uses_perform _).mpr trivial
    · exact (Prog.uses_perform _).mpr h
  · refine Prog.Uses.bind ((Prog.uses_perform _).mpr trivial) fun _ => ?_
    cases updated with
    | none => trivial
    | some row => exact uses_loadRow_alone row fun _ => trivial

theorem uses_putIdentity (i : InputIdentity) : (putIdentity toHashId i).Uses
    ((editProtocol fun data => data = i.updateData).allows .start) := by
  unfold putIdentity
  split
  · refine Prog.Uses.bind (uses_dbConn ((Prog.uses_perform _).mpr trivial)) fun existing => ?_
    split
    · trivial
    · exact uses_updateIdentity rfl
  · refine uses_dbConn ?_
    split
    · rw [create, bind_assoc]
      refine Prog.Uses.bind ((Prog.uses_perform _).mpr trivial) fun privateKey => ?_
      refine uses_loadRow (fun _ => trivial) fun identity hdefault => ?_
      exact Prog.Uses.bind ((Prog.uses_perform _).mpr ⟨hdefault, nofun, nofun⟩) fun _ => trivial
    · trivial
    · trivial

theorem uses_validate (i : InputIdentity) : i.validate.Uses ((editProtocol writes).allows .start) := by
  refine Prog.Uses.bind (uses_validateEmail (fun _ => trivial) _) fun accepted => ?_
  split <;> trivial

theorem uses_enrichIdentityFromProfile : enrichIdentityFromProfile.Uses
    ((editProtocol fun data => ∃ profile : Profile, data = profile.updateData).allows .start) := by
  refine Prog.Uses.bind ((Prog.uses_perform _).mpr trivial) fun profile => ?_
  cases profile with
  | none => trivial
  | some profile =>
    refine uses_dbConn (Prog.Uses.bind ((Prog.uses_perform _).mpr trivial) fun row => ?_)
    cases row with
    | none => trivial
    | some row =>
      dsimp only
      split
      · trivial
      · exact Prog.Uses.bind (uses_updateIdentity ⟨profile, rfl⟩) fun _ => trivial

theorem conforms_edit {p : Coro Unit} (h : p.Uses ((editProtocol writes).allows .start)) :
    p.Conforms (editProtocol writes) .start fun _ _ => True := by
  refine Prog.Conforms.mono (Prog.Conforms.of_uses (I := fun l => l = .start) h ?_ rfl)
    fun _ _ _ => trivial
  rintro op hop l rfl
  exact ⟨hop, fun r => rfl⟩

end Edits

theorem conforms_program (i : Call) :
    (i.program toHashId).Conforms i.protocol .start fun _ _ => True := by
  cases i with
  | putIdentity n i =>
    exact conforms_edit (Prog.Uses.bind (uses_validate i) fun _ => Prog.Uses.bind (uses_putIdentity i) fun _ => trivial)
  | updateIdentity n id updateData =>
    exact conforms_edit (Prog.Uses.bind (uses_updateIdentity rfl) fun _ => trivial)
  | enrichIdentity n => exact conforms_edit uses_enrichIdentityFromProfile
  | makeDefault n target => exact conforms_makeDefault target

/-! ## What the operations leave -/

namespace World

/-- The committed row has the flag. -/
def IsDefault (w : World) (id : String) : Prop :=
  (w.identities.committed id).any (·.isDefault) = true

instance (w : World) (id : String) : Decidable (w.IsDefault id) :=
  inferInstanceAs (Decidable (_ = true))

/-- There is a committed row. -/
def Exists (w : World) (id : String) : Prop := w.identities.committed id ≠ none

/-- This is the uncommitted version of the row, by this connection. -/
def Wrote (w : World) (i : Call) (conn : Conn) (id : String) (row : IdentityRow) : Prop :=
  w.identities.uncommitted id = some ((i, conn), row)

theorem isDefault_iff {w : World} {id : String} {row : IdentityRow}
    (h : w.identities.committed id = some row) : w.IsDefault id ↔ row.isDefault = true := by
  rw [IsDefault, h]
  rfl

theorem IsDefault.exists {w : World} {id : String} (h : w.IsDefault id) : w.Exists id := by
  intro hnone
  rw [IsDefault, hnone] at h
  cases h

end World

section Frame
variable {i j : Call} {w w' : World} {op : Op} {r : Answer op} {conn : Conn} {id : String}
  {row : IdentityRow}

theorem Act.wrote_other (ha : Act i w op r w') (hj : j ≠ i) :
    w'.Wrote j conn id row ↔ w.Wrote j conn id row := by
  have hne : ∀ conn', (j, conn) ≠ (i, conn') := fun _ h => hj (congrArg Prod.fst h)
  have hwrite : ∀ {conn' id' row'}, w.identities.free (i, conn') id' = true →
      ((w.write i conn' id' row').Wrote j conn id row ↔ w.Wrote j conn id row) := by
    intro conn' id' row' hfree
    by_cases hid : id = id'
    · subst hid
      constructor
      · intro h
        have heq := Option.some.inj (Store.write_uncommitted_self.symm.trans h)
        exact absurd (congrArg Prod.fst heq).symm (hne conn')
      · intro h
        exact absurd (Store.free_iff.mp hfree _ _ h) (hne conn')
    · unfold World.Wrote World.write
      rw [Store.write_uncommitted_ne hid]
  cases ha with
  | commit c _ => exact Store.commit_uncommitted.trans (and_iff_left (hne c))
  | commitFails c e => exact Store.rollback_uncommitted.trans (and_iff_left (hne c))
  | rollback c _ => exact Store.rollback_uncommitted.trans (and_iff_left (hne c))
  | update data hrow hfree _ => exact hwrite hfree
  | insert hrow hfree _ => exact hwrite hfree
  | _ => rfl

theorem Act.committed (ha : Act i w op r w') :
    w'.identities.committed = w.identities.committed ∨
      ∃ c, op = .commit c ∧ w' = w.commit i c := by
  cases ha with
  | commit c _ => exact .inr ⟨c, rfl, rfl⟩
  | _ => exact .inl rfl

theorem Act.exists (ha : Act i w op r w') (h : w.Exists id) : w'.Exists id := by
  obtain hsame | ⟨c, -, rfl⟩ := ha.committed
  · unfold World.Exists
    rw [hsame]
    exact h
  · change w.identities.visible (i, c) id ≠ none
    obtain ⟨v, -, hv⟩ | ⟨-, hv⟩ := w.identities.visible_cases (i, c) id
    · rw [hv]
      exact nofun
    · rw [hv]
      exact h

theorem Act.isDefault_locked (ha : Act i w op r w') (hwrote : w.Wrote j conn id row)
    (hop : op = .commit conn → j ≠ i) : w'.IsDefault id ↔ w.IsDefault id := by
  unfold World.IsDefault
  obtain hsame | ⟨c, rfl, rfl⟩ := ha.committed
  · rw [hsame]
  · have hne : (j, conn) ≠ (i, c) := by
      intro h
      obtain ⟨rfl, rfl⟩ := Prod.mk.inj h
      exact hop rfl rfl
    rw [World.commit, Store.commit_committed_of_locked hwrote hne]

end Frame

/-! ## What a call has written -/

/-- What a `make_default` in this phase has written, on its one connection, and which rows it knows to exist. -/
def Written (w : World) (n : ℕ) (target : String) : Phase → Prop
  | .start | .closed => ∀ id row, ¬ w.Wrote (.makeDefault n target) .own id row
  | .read last =>
    w.Exists last ∧ ∀ id row, ¬ w.Wrote (.makeDefault n target) .own id row
  | .found last => w.Exists last ∧ w.Exists target ∧
    ∀ id row, ¬ w.Wrote (.makeDefault n target) .own id row
  | .cleared last => w.Exists target ∧ (∃ row, w.Wrote (.makeDefault n target) .own last row) ∧
    ∀ id row, w.Wrote (.makeDefault n target) .own id row → id = last ∧ row.isDefault = false
  | .set last =>
    (∃ row, w.Wrote (.makeDefault n target) .own target row) ∧
    (∃ row, w.Wrote (.makeDefault n target) .own last row) ∧
    ∀ id row, w.Wrote (.makeDefault n target) .own id row →
      (id = target ∧ row.isDefault = true) ∨ (id = last ∧ id ≠ target ∧ row.isDefault = false)
  | .failed => True

/-- The other calls write versions that keep the flag. -/
def KeepsFlag (w : World) (i : Call) : Prop :=
  ∀ conn id row, w.Wrote i conn id row → (row.isDefault = true ↔ w.IsDefault id)

/-- What a call in this phase has written. -/
def CallTracked (w : World) (l : Phase) : Call → Prop
  | .makeDefault n target => (∀ id row, ¬ w.Wrote (.makeDefault n target) .nested id row) ∧
    Written w n target l
  | i => KeepsFlag w i

section CallStep
variable {i : Call} {w w' : World} {op : Op} {r : Answer op} {l : Phase}

theorem CallTracked.other {j : Call} (h : CallTracked w l j) (ha : Act i w op r w')
    (hj : j ≠ i) : CallTracked w' l j := by
  have hwrote : ∀ {conn id row}, w'.Wrote j conn id row ↔ w.Wrote j conn id row :=
    ha.wrote_other hj
  have hkeeps : KeepsFlag w j → KeepsFlag w' j := by
    intro h conn id row hrow
    rw [hwrote] at hrow
    exact (h conn id row hrow).trans (ha.isDefault_locked hrow fun _ => hj).symm
  cases j with
  | makeDefault n target =>
    refine ⟨fun id row hrow => h.1 id row (hwrote.mp hrow), ?_⟩
    have hnone : (∀ id row, ¬ w.Wrote (.makeDefault n target) .own id row) →
        ∀ id row, ¬ w'.Wrote (.makeDefault n target) .own id row :=
      fun hn id row hrow => hn id row (hwrote.mp hrow)
    cases l with
    | start => exact hnone h.2
    | closed => exact hnone h.2
    | read last => exact ⟨ha.exists h.2.1, hnone h.2.2⟩
    | found last => exact ⟨ha.exists h.2.1, ha.exists h.2.2.1, hnone h.2.2.2⟩
    | cleared last =>
      obtain ⟨-, htarget, ⟨row, hlast⟩, honly⟩ := h
      exact ⟨ha.exists htarget, ⟨row, hwrote.mpr hlast⟩,
        fun id row hrow => honly id row (hwrote.mp hrow)⟩
    | set last =>
      obtain ⟨-, ⟨row, htarget⟩, ⟨row', hlast⟩, honly⟩ := h
      exact ⟨⟨row, hwrote.mpr htarget⟩, ⟨row', hwrote.mpr hlast⟩,
        fun id row hrow => honly id row (hwrote.mp hrow)⟩
    | failed => trivial
  | putIdentity n i => exact hkeeps h
  | updateIdentity n id updateData => exact hkeeps h
  | enrichIdentity n => exact hkeeps h

/-- The flag of the row that a connection sees is that of the committed row. -/
theorem KeepsFlag.visible (h : KeepsFlag w i) {conn : Conn} {id : String} {row : IdentityRow}
    (hrow : w.visible i conn id = some row) : row.isDefault = true ↔ w.IsDefault id := by
  obtain ⟨v, hv, heq⟩ | ⟨-, heq⟩ := w.identities.visible_cases (i, conn) id
  · obtain rfl : v = row := Option.some.inj (heq.symm.trans hrow)
    exact h conn id v hv
  · exact (World.isDefault_iff (heq.symm.trans hrow)).symm

theorem World.Exists.visible {id : String} (h : w.Exists id) (conn : Conn) :
    ∃ row, w.visible i conn id = some row := by
  obtain ⟨v, -, heq⟩ | ⟨-, heq⟩ := w.identities.visible_cases (i, conn) id
  · exact ⟨v, heq⟩
  · rw [World.Exists, ← heq] at h
    exact Option.ne_none_iff_exists'.mp h

theorem wrote_write {conn conn' : Conn} {id id' : String} {row row' : IdentityRow}
    (h : (w.write i conn id row).Wrote i conn' id' row') :
    (id' = id ∧ row' = row ∧ conn' = conn) ∨ (id' ≠ id ∧ w.Wrote i conn' id' row') := by
  by_cases hid : id' = id
  · subst hid
    have heq := Option.some.inj (Store.write_uncommitted_self.symm.trans h)
    obtain ⟨hconn, rfl⟩ := Prod.mk.inj heq
    exact .inl ⟨rfl, rfl, (congrArg Prod.snd hconn).symm⟩
  · unfold World.Wrote World.write at h
    rw [Store.write_uncommitted_ne hid] at h
    exact .inr ⟨hid, h⟩

theorem wrote_still {conn : Conn} {id id' : String} {row row' : IdentityRow}
    (h : w.Wrote i conn id row) : ∃ row'', (w.write i conn id' row').Wrote i conn id row'' := by
  by_cases hid : id = id'
  · subst hid
    exact ⟨row', Store.write_uncommitted_self⟩
  · exact ⟨row, (Store.write_uncommitted_ne hid).trans h⟩

theorem KeepsFlag.step (h : KeepsFlag w i) (ha : Act i w op r w')
    (hupdate : ∀ conn id data, op = .update conn id data → data.isDefault = none)
    (hinsert : ∀ conn row, op = .insert conn row → row.isDefault = false) : KeepsFlag w' i := by
  intro conn id row hwrote
  cases ha with
  | commit c hr =>
    obtain ⟨hbefore, hconn⟩ := Store.commit_uncommitted.mp hwrote
    refine (h conn id row hbefore).trans (Act.isDefault_locked (.commit c hr) hbefore ?_).symm
    intro hop
    obtain rfl : c = conn := by simpa using hop
    exact absurd rfl hconn
  | commitFails c e => exact h conn id row (Store.rollback_uncommitted.mp hwrote).1
  | rollback c _ => exact h conn id row (Store.rollback_uncommitted.mp hwrote).1
  | @update c id' data row' hrow _ _ _ =>
    obtain ⟨rfl, rfl, -⟩ | ⟨-, hbefore⟩ := wrote_write hwrote
    · have hflag : (data.apply row').isDefault = row'.isDefault := by
        rw [UpdateData.apply, hupdate _ _ _ rfl]
        rfl
      rw [hflag]
      exact h.visible hrow
    · exact h conn id row hbefore
  | @insert c row' hrow _ _ _ =>
    obtain ⟨rfl, rfl, -⟩ | ⟨-, hbefore⟩ := wrote_write hwrote
    · have hnot : ¬ w.IsDefault row.id := by
        intro hd
        obtain ⟨found, hfound⟩ := hd.exists.visible (i := i) c
        cases hfound.symm.trans hrow
      rw [hinsert _ _ rfl]
      exact ⟨nofun, fun hd => absurd hd hnot⟩
    · exact h conn id row hbefore
  | _ => exact h conn id row hwrote

end CallStep

/-! ## One `make_default` -/

section MakeDefault
variable {n : ℕ} {target : String} {w w' : World} {op : Op} {r : Answer op} {l : Phase}

/-- Rows are stored under their ids. -/
def Keyed (w : World) : Prop := ∀ id row, w.identities.committed id = some row → row.id = id

theorem visible_of_not_wrote {i : Call} {conn : Conn} (h : ∀ id row, ¬ w.Wrote i conn id row)
    (id : String) : w.visible i conn id = w.identities.committed id :=
  Store.visible_others fun row => h id row

theorem CallTracked.makeDefault (h : CallTracked w l (.makeDefault n target)) (hkeyed : Keyed w)
    (hallowed : (makeDefaultProtocol target).allows l op)
    (ha : Act (.makeDefault n target) w op r w') :
    CallTracked w' ((makeDefaultProtocol target).after l op r) (.makeDefault n target) := by
  obtain ⟨hnested, hwritten⟩ := h
  have hcommit : ∀ id conn row, (w.commit (.makeDefault n target) .own).Wrote
      (.makeDefault n target) conn id row → False := by
    intro id conn row hrow
    obtain ⟨hbefore, hconn⟩ := Store.commit_uncommitted.mp hrow
    cases conn with
    | own => exact hconn rfl
    | nested => exact hnested id row hbefore
  have hrollback : ∀ id conn row, (w.rollback (.makeDefault n target) .own).Wrote
      (.makeDefault n target) conn id row → False := by
    intro id conn row hrow
    obtain ⟨hbefore, hconn⟩ := Store.rollback_uncommitted.mp hrow
    cases conn with
    | own => exact hconn rfl
    | nested => exact hnested id row hbefore
  have hwrite : ∀ id row, ∀ id' row', ¬ (w.write (.makeDefault n target) .own id row).Wrote
      (.makeDefault n target) .nested id' row' := by
    intro id row id' row' hrow
    obtain ⟨-, -, hconn⟩ | ⟨-, hbefore⟩ := wrote_write hrow
    · cases hconn
    · exact hnested id' row' hbefore
  cases ha with
  | fails e hends =>
    cases op with
    | update conn id data => exact ⟨hnested, trivial⟩
    | commit conn => cases hends
    | rollback conn => cases hends
    | _ => exact ⟨hnested, hwritten⟩
  | connect conn => exact ⟨hnested, hwritten⟩
  | commit conn _ =>
    cases conn with
    | own => exact ⟨fun id row => hcommit id .nested row, fun id row => hcommit id .own row⟩
    | nested => exact hallowed.elim
  | commitFails conn e =>
    cases conn with
    | own => exact ⟨fun id row => hrollback id .nested row, fun id row => hrollback id .own row⟩
    | nested => exact hallowed.elim
  | rollback conn _ =>
    cases conn with
    | own => exact ⟨fun id row => hrollback id .nested row, fun id row => hrollback id .own row⟩
    | nested => exact hallowed.elim
  | @getDefault conn row hrow hdefault =>
    cases conn with
    | nested => exact hallowed.elim
    | own =>
      obtain rfl : l = .start := hallowed
      obtain ⟨id, hid⟩ := Store.mem_rows.mp hrow
      have hcommitted := (visible_of_not_wrote hwritten id).symm.trans hid
      refine ⟨hnested, ?_, hwritten⟩
      rw [hkeyed id row hcommitted, World.Exists, hcommitted]
      exact nofun
  | getDefaultNone _ => exact ⟨hnested, hwritten⟩
  | getById conn id =>
    cases conn with
    | nested => exact hallowed.elim
    | own =>
      obtain ⟨rfl, last, rfl⟩ := hallowed
      obtain ⟨hlast, hnone⟩ := hwritten
      have hvisible := visible_of_not_wrote hnone id
      cases hrow : w.visible (.makeDefault n id) .own id with
      | none => exact ⟨hnested, hlast, hnone⟩
      | some row =>
        refine ⟨hnested, hlast, ?_, hnone⟩
        rw [World.Exists, ← hvisible, hrow]
        exact nofun
  | @update conn id data row hrow hfree _ hr =>
    cases conn with
    | nested => exact hallowed.elim
    | own =>
      obtain rfl | ⟨e, rfl⟩ := hr
      · refine ⟨hwrite id _, ?_⟩
        obtain ⟨rfl, rfl⟩ | ⟨rfl, rfl, last, rfl⟩ := hallowed
        · obtain ⟨-, htarget, hnone⟩ := hwritten
          refine ⟨htarget, ⟨_, Store.write_uncommitted_self⟩, fun id' row' hrow' => ?_⟩
          obtain ⟨rfl, rfl, -⟩ | ⟨-, hbefore⟩ := wrote_write hrow'
          · exact ⟨rfl, rfl⟩
          · exact absurd hbefore (hnone id' row')
        · obtain ⟨-, ⟨lastRow, hlast⟩, hcleared⟩ := hwritten
          refine ⟨⟨_, Store.write_uncommitted_self⟩, wrote_still hlast, fun id' row' hrow' => ?_⟩
          obtain ⟨rfl, rfl, -⟩ | ⟨hne, hbefore⟩ := wrote_write hrow'
          · exact .inl ⟨rfl, rfl⟩
          · obtain ⟨hlast, hflag⟩ := hcleared id' row' hbefore
            exact .inr ⟨hlast, hne, hflag⟩
      · exact ⟨hwrite id _, trivial⟩
  | @updateNone conn id data hrow =>
    have hexists : w.Exists id := by
      cases conn with
      | nested => exact hallowed.elim
      | own =>
        obtain ⟨rfl, -⟩ | ⟨rfl, -, last, rfl⟩ := hallowed
        · exact hwritten.1
        · exact hwritten.1
    obtain ⟨row, hfound⟩ := hexists.visible (i := .makeDefault n target) conn
    cases hfound.symm.trans hrow
  | insert => exact hallowed.elim
  | count => exact hallowed.elim
  | validateEmail => exact hallowed.elim
  | refreshProfile => exact hallowed.elim
  | generatePrivateKey => exact hallowed.elim
  | onIdentityUpdate => exact ⟨hnested, hwritten⟩

/-- A `make_default` that commits takes the flag from the row it has read and gives it to its target. -/
theorem CallTracked.commit_makeDefault {last : String}
    (h : CallTracked w (.set last) (.makeDefault n target)) (id : String) :
    (w.commit (.makeDefault n target) .own).IsDefault id ↔
      id = target ∨ (w.IsDefault id ∧ id ≠ last) := by
  obtain ⟨-, ⟨targetRow, htarget⟩, ⟨lastRow, hlast⟩, honly⟩ := h
  have hcommitted : ∀ {id row}, w.Wrote (.makeDefault n target) .own id row →
      ((w.commit (.makeDefault n target) .own).IsDefault id ↔ row.isDefault = true) :=
    fun hrow => World.isDefault_iff (Store.visible_own hrow)
  by_cases htarget' : id = target
  · subst htarget'
    have hflag : targetRow.isDefault = true := by
      obtain ⟨-, hflag⟩ | ⟨-, hne, -⟩ := honly _ _ htarget
      · exact hflag
      · exact absurd rfl hne
    exact ⟨fun _ => .inl rfl, fun _ => (hcommitted htarget).mpr hflag⟩
  by_cases hlast' : id = last
  · subst hlast'
    have hflag : lastRow.isDefault = false := by
      obtain ⟨heq, -⟩ | ⟨-, -, hflag⟩ := honly _ _ hlast
      · exact absurd heq htarget'
      · exact hflag
    rw [hcommitted hlast, hflag]
    simp [htarget']
  · have hnot : ∀ row, ¬ w.Wrote (.makeDefault n target) .own id row := by
      intro row hrow
      obtain ⟨heq, -⟩ | ⟨heq, -⟩ := honly _ _ hrow
      · exact htarget' heq
      · exact hlast' heq
    have hsame : (w.commit (.makeDefault n target) .own).IsDefault id ↔ w.IsDefault id := by
      unfold World.IsDefault
      rw [World.commit, Store.commit_committed, Store.visible_others hnot]
    simp [hsame, htarget', hlast']

end MakeDefault

theorem KeepsFlag.commit {w : World} {i : Call} (h : KeepsFlag w i) (conn : Conn) (id : String) :
    (w.commit i conn).IsDefault id ↔ w.IsDefault id := by
  obtain ⟨v, hv, heq⟩ | ⟨-, heq⟩ := w.identities.visible_cases (i, conn) id
  · exact (World.isDefault_iff heq).trans (h conn id v hv)
  · unfold World.IsDefault
    rw [World.commit, Store.commit_committed, heq]

/-! ## All calls -/

abbrev State : Type := Recorded Op Ans Exn World Call

abbrev phase (i : Call) (s : State) : Phase := Recorded.phaseOf Call.protocol (fun _ => .start) i s.log

/-- Everything that is uncommitted is known by the phases of the calls. -/
structure Tracked (s : State) : Prop where
  keyed : Keyed s.world
  versions : ∀ id i conn row, s.world.Wrote i conn id row → row.id = id
  calls : ∀ i, CallTracked s.world (phase i s) i

section Step
variable {s : State} {i : Call} {op : Op} {r : Answer op} {w' : World}

theorem Tracked.visible (h : Tracked s) {conn : Conn} {id : String} {row : IdentityRow}
    (hrow : s.world.visible i conn id = some row) : row.id = id := by
  obtain ⟨v, hv, heq⟩ | ⟨-, heq⟩ := s.world.identities.visible_cases (i, conn) id
  · obtain rfl : v = row := Option.some.inj (heq.symm.trans hrow)
    exact h.versions id i conn v hv
  · exact h.keyed id row (heq.symm.trans hrow)

theorem Tracked.keyed_step (h : Tracked s) (ha : Act i s.world op r w') : Keyed w' := by
  intro id row hrow
  obtain hsame | ⟨c, -, rfl⟩ := ha.committed
  · rw [hsame] at hrow
    exact h.keyed id row hrow
  · exact h.visible (i := i) hrow

theorem Tracked.versions_step (h : Tracked s) (ha : Act i s.world op r w') {id : String}
    {j : Call} {conn : Conn} {row : IdentityRow} (hwrote : w'.Wrote j conn id row) :
    row.id = id := by
  by_cases hj : j = i
  · subst hj
    cases ha with
    | commit c _ => exact h.versions id j conn row (Store.commit_uncommitted.mp hwrote).1
    | commitFails c e => exact h.versions id j conn row (Store.rollback_uncommitted.mp hwrote).1
    | rollback c _ => exact h.versions id j conn row (Store.rollback_uncommitted.mp hwrote).1
    | update data hrow _ _ =>
      obtain ⟨rfl, rfl, -⟩ | ⟨-, hbefore⟩ := wrote_write hwrote
      · have hid := h.visible hrow
        exact hid
      · exact h.versions id j conn row hbefore
    | insert hrow _ _ =>
      obtain ⟨rfl, rfl, -⟩ | ⟨-, hbefore⟩ := wrote_write hwrote
      · rfl
      · exact h.versions id j conn row hbefore
    | _ => exact h.versions id j conn row hwrote
  · exact h.versions id j conn row ((ha.wrote_other hj).mp hwrote)

/-- Only `make_default` writes the flag. -/
def keepsFlags : Condition Op Ans Exn World Call := fun _ i op =>
  match i, op with
  | .updateIdentity _ _ _, .update _ _ data => data.isDefault = none
  | _, _ => True

theorem KeepsFlag.step_allowed (h : KeepsFlag s.world i) (hi : ∀ n target, i ≠ .makeDefault n target)
    {l : Phase} (hallowed : i.protocol.allows l op) (hC : keepsFlags s i op)
    (ha : Act i s.world op r w') : KeepsFlag w' i := by
  refine h.step ha ?_ ?_
  · rintro conn id data rfl
    cases i with
    | putIdentity n input =>
      obtain rfl : data = input.updateData := hallowed
      rfl
    | updateIdentity n id' updateData => exact hC
    | enrichIdentity n =>
      obtain ⟨profile, rfl⟩ := hallowed
      rfl
    | makeDefault n target => exact absurd rfl (hi n target)
  · rintro conn row rfl
    cases i with
    | putIdentity n input => exact hallowed.1
    | updateIdentity n id' updateData => exact hallowed.1
    | enrichIdentity n => exact hallowed.1
    | makeDefault n target => exact absurd rfl (hi n target)

theorem Tracked.step (h : Tracked s) (hallowed : i.protocol.allows (phase i s) op)
    (hC : keepsFlags s i op) (ha : Act i s.world op r w') : Tracked (s.next i op r w') where
  keyed := h.keyed_step ha
  versions id j conn row hwrote := h.versions_step ha hwrote
  calls j := by
    by_cases hj : j = i
    · subst hj
      rw [phase, phaseOf_next_self]
      have hcall := h.calls j
      cases j with
      | makeDefault n target => exact hcall.makeDefault h.keyed hallowed ha
      | putIdentity n input => exact hcall.step_allowed nofun hallowed hC ha
      | updateIdentity n id updateData => exact hcall.step_allowed nofun hallowed hC ha
      | enrichIdentity n => exact hcall.step_allowed nofun hallowed hC ha
    · rw [phase, phaseOf_next_ne _ _ _ _ hj]
      exact (h.calls j).other ha hj

/-- Only the commit of a `make_default` moves the flag. -/
theorem Tracked.isDefault_step (h : Tracked s) (hallowed : i.protocol.allows (phase i s) op)
    (ha : Act i s.world op r w') :
    (∀ id, w'.IsDefault id ↔ s.world.IsDefault id) ∨
    ∃ n target last, i = .makeDefault n target ∧ (∃ conn, op = .commit conn) ∧
      phase i s = .set last ∧
      ∀ id, w'.IsDefault id ↔ id = target ∨ (s.world.IsDefault id ∧ id ≠ last) := by
  obtain hsame | ⟨conn, rfl, rfl⟩ := ha.committed
  · left
    intro id
    unfold World.IsDefault
    rw [hsame]
  · have hcall := h.calls i
    cases i with
    | makeDefault n target =>
      right
      cases conn with
      | nested => exact hallowed.elim
      | own =>
        obtain ⟨last, hset⟩ := hallowed
        rw [hset] at hcall
        exact ⟨n, target, last, rfl, ⟨.own, rfl⟩, hset, hcall.commit_makeDefault⟩
    | putIdentity n input => exact .inl (hcall.commit conn)
    | updateIdentity n id updateData => exact .inl (hcall.commit conn)
    | enrichIdentity n => exact .inl (hcall.commit conn)

end Step

theorem not_wrote_ofRows (rows : List IdentityRow) (i : Call) (conn : Conn) (id : String)
    (row : IdentityRow) : ¬ (World.ofRows rows).Wrote i conn id row := by
  intro h
  have hnone : (none : Option ((Call × Conn) × IdentityRow)) = some ((i, conn), row) := h
  cases hnone

theorem Tracked.start (rows : List IdentityRow) : Tracked (⟨World.ofRows rows, []⟩ : State) where
  keyed id row hrow := Store.ofRows_key hrow
  versions id i conn row hwrote := absurd hwrote (not_wrote_ofRows rows i conn id row)
  calls i := by
    have hkeeps : KeepsFlag (World.ofRows rows) i :=
      fun conn id row hwrote => absurd hwrote (not_wrote_ofRows rows i conn id row)
    cases i with
    | makeDefault n target => exact ⟨not_wrote_ofRows rows _ _, not_wrote_ofRows rows _ _⟩
    | putIdentity n input => exact hkeeps
    | updateIdentity n id updateData => exact hkeeps
    | enrichIdentity n => exact hkeeps

/-! ## Main results -/

/-- Exactly one identity is the default. -/
def OneDefault (w : World) : Prop := ∃! id, w.IsDefault id

/-- When a `make_default` commits, the row it has read is still the default, or its target is the default by now;
and nothing else writes the flag. -/
def commitsCurrent : Condition Op Ans Exn World Call := fun s i op =>
  match i, op with
  | .makeDefault _ target, .commit _ =>
    match phase i s with
    | .set last => s.world.IsDefault last ∨ s.world.IsDefault target
    | _ => True
  | .updateIdentity _ _ _, .update _ _ data => data.isDefault = none
  | _, _ => True

instance (s : State) (i : Call) (op : Op) : Decidable (commitsCurrent s i op) := by
  unfold commitsCurrent
  split
  · split <;> infer_instance
  · infer_instance
  · infer_instance

theorem keepsFlags_of_commitsCurrent {s : State} {i : Call} {op : Op}
    (h : commitsCurrent s i op) : keepsFlags s i op := by
  unfold keepsFlags
  split
  · exact h
  · trivial

theorem OneDefault.step {s : State} {i : Call} {op : Op} {r : Answer op} {w' : World}
    (h : OneDefault s.world) (ht : Tracked s) (hallowed : i.protocol.allows (phase i s) op)
    (hC : commitsCurrent s i op) (ha : Act i s.world op r w') : OneDefault w' := by
  obtain ⟨default, hdefault, hunique⟩ := h
  obtain hsame | ⟨n, target, last, rfl, ⟨conn, rfl⟩, hset, hmoved⟩ := ht.isDefault_step hallowed ha
  · exact ⟨default, (hsame default).mpr hdefault, fun id hid => hunique id ((hsame id).mp hid)⟩
  · have hcurrent : s.world.IsDefault last ∨ s.world.IsDefault target := by
      simpa only [commitsCurrent, hset] using hC
    refine ⟨target, (hmoved target).mpr (.inl rfl), fun id hid => ?_⟩
    obtain htarget | ⟨hid, hne⟩ := (hmoved id).mp hid
    · exact htarget
    · obtain hlast | htarget := hcurrent
      · exact absurd ((hunique id hid).trans (hunique last hlast).symm) hne
      · exact (hunique id hid).trans (hunique target htarget).symm

/-- If every `make_default` commits while the row it has read is still the default, or its target already is, then
in every state reached exactly one identity is the default. -/
theorem one_default (toHashId : String → String) (rows : List IdentityRow)
    (h₀ : OneDefault (World.ofRows rows))
    {c : Config Op Ans Exn State Call}
    (h : Recorded.Runs Act commitsCurrent (Call.program toHashId) (World.ofRows rows) c) :
    OneDefault c.state.world := by
  have hinv : Tracked c.state ∧ OneDefault c.state.world := by
    refine h.invariant conforms_program (I := fun s => Tracked s ∧ OneDefault s.world)
      ⟨Tracked.start rows, h₀⟩ ?_
    intro i s op r w' hallowed hs hC ha
    exact ⟨hs.1.step hallowed (keepsFlags_of_commitsCurrent hC) ha,
      hs.2.step hs.1 hallowed hC ha⟩
  exact hinv.2

/-- Three identities, the first one the default. -/
def World.threeRows : List IdentityRow :=
  [⟨"A", some "Shard Owner", none, none, some "key A", true⟩,
    ⟨"B", some "Second", none, none, some "key B", false⟩,
    ⟨"C", some "Third", none, none, some "key C", false⟩]

theorem World.three_oneDefault : OneDefault (World.ofRows World.threeRows) := by
  refine ⟨"A", by decide, fun id hid => ?_⟩
  obtain ⟨row, hrow, hflag⟩ := (Option.any_eq_true _ _).mp hid
  have hmem := List.mem_of_find?_eq_some hrow
  have hid' := Store.ofRows_key hrow
  simp only [World.threeRows, List.mem_cons, List.not_mem_nil, or_false] at hmem
  obtain rfl | rfl | rfl := hmem
  · exact hid'.symm
  · cases hflag
  · cases hflag

/-- The default is moved from A to B. -/
theorem one_default_run : ∃ c, Recorded.Runs Act commitsCurrent (Call.program id)
    (World.ofRows World.threeRows) c ∧ c.state.world.IsDefault "B" ∧ OneDefault c.state.world := by
  obtain ⟨c, hrun, hc, -⟩ := exists_run id commitsCurrent (World.ofRows World.threeRows)
    (Turn.call (.makeDefault 0 "B") (List.replicate 7 .proceed))
    (fun c => decide (c.state.world.IsDefault "B")) (by decide)
  exact ⟨c, hrun, of_decide_eq_true hc, one_default id _ World.three_oneDefault hrun⟩

/-- Two calls read the same default; the first one moves the flag to B, and then the second one gives it to C. -/
theorem two_defaults : ∃ c, Recorded.Runs Act anyway (Call.program id)
    (World.ofRows World.threeRows) c ∧ c.Quiescent ∧ ¬ OneDefault c.state.world := by
  let first : Call := .makeDefault 0 "B"
  let second : Call := .makeDefault 1 "C"
  obtain ⟨c, hrun, hc, hq⟩ := exists_run id anyway (World.ofRows World.threeRows)
    ([Turn.start first, .start second, .fire first .proceed, .fire second .proceed,
      .fire first .proceed, .fire second .proceed] ++ List.replicate 5 (.fire first .proceed) ++
      List.replicate 5 (.fire second .proceed))
    (fun c => c.ended first && c.ended second && decide (c.state.world.IsDefault "B") &&
      decide (c.state.world.IsDefault "C")) (by decide)
  simp only [Bool.and_eq_true, decide_eq_true_eq] at hc
  obtain ⟨⟨⟨hfirst, hsecond⟩, hB⟩, hC⟩ := hc
  refine ⟨c, hrun, hq ?_, fun hone => ?_⟩
  · simp [Turn.name, hfirst, hsecond]
  · have heq : ("B" : String) = "C" := hone.unique hB hC
    exact absurd heq (by decide)

end Freeshard.Identities

import Freeshard.Coroutine.Execution
import Freeshard.Service.Peer
import Mathlib.Data.List.Infix

/-! # Ids of any length

Ids of one shard may be entered at any length. `put_peer` looks for stored ids that start with the given
one, but not for stored ids that the given one starts with, so an id put after its own start is stored
beside it; and an update or delete by a start reaches every id with that start. As long as no request does
either, no stored id is a proper prefix of another, and every request concerns one row. -/

namespace Freeshard.Peers
open Coroutine
set_option autoImplicit false

variable {crypto : Crypto} {t t' : Table} {start : String}

/-! ## Patterns without wildcards -/

/-- At least 6 characters, none of which means anything special in a pattern, as letters and digits. -/
structure Plain (id : String) : Prop where
  long : 6 ≤ id.length
  plain : ∀ c ∈ id.toList, c ≠ '%' ∧ c ≠ '_' ∧ c ≠ '\\'

instance (id : String) : Decidable (Plain id) :=
  have : Decidable (∀ c ∈ id.toList, c ≠ '%' ∧ c ≠ '_' ∧ c ≠ '\\') := List.decidableBAll _ _
  decidable_of_iff (6 ≤ id.length ∧ ∀ c ∈ id.toList, c ≠ '%' ∧ c ≠ '_' ∧ c ≠ '\\')
    ⟨fun h => ⟨h.1, h.2⟩, fun h => ⟨h.1, h.2⟩⟩

theorem like_plain {pattern text : List Char}
    (h : ∀ c ∈ pattern, c ≠ '%' ∧ c ≠ '_' ∧ c ≠ '\\') :
    like (pattern ++ ['%']) text = true ↔ pattern <+: text := by
  induction pattern generalizing text with
  | nil => simp [like, List.mem_tails]
  | cons c pattern ih =>
    obtain ⟨hpercent, hunderscore, hbackslash⟩ := h c List.mem_cons_self
    have hrest := fun d hd => h d (List.mem_cons_of_mem c hd)
    cases text with
    | nil => simp [like]
    | cons d text =>
      rw [List.cons_append, like, Bool.and_eq_true, beq_iff_eq, ih hrest, List.cons_prefix_cons]
      all_goals simp_all

theorem matchesPrefix_iff (h : Plain start) {other : String} :
    matchesPrefix start other = true ↔ startsWith other start = true := by
  rw [matchesPrefix, like_plain h.plain, startsWith, List.isPrefixOf_iff_prefix]

theorem matchesPrefix_self (h : Plain start) : matchesPrefix start start = true := by
  rw [matchesPrefix_iff h, startsWith, List.isPrefixOf_iff_prefix]

/-! ## Requests -/

inductive Request where
  | put (p : InputPeer)
  | delete (id : String)

def Request.id : Request → String
  | .put p => p.id
  | .delete id => id

/-- The request puts an id that starts with this one and is longer. -/
def Request.putsLonger : Request → String → Bool
  | .put p, id => startsWith p.id id && id != p.id
  | .delete _, _ => false

def Request.serve (crypto : Crypto) : Request → Coro Unit
  | .put p => do
    let _ ← putPeer crypto p
  | .delete id => deletePeer id

/-- The tables reached from the empty one by requests one after the other, each of which may end in any
way, if `condition` holds of each before it is served. -/
inductive Served (crypto : Crypto) (condition : Table → Request → Prop) : Table → Prop where
  | empty : Served crypto condition .empty
  | request {t t' : Table} {request : Request} {res : Except Exn Unit}
      (h : Served crypto condition t) (hid : Plain request.id) (hcondition : condition t request)
      (hexec : Prog.Exec Act (request.serve crypto) t res t') : Served crypto condition t'

/-- No stored id is a proper prefix of another one. -/
def Table.PrefixFree (t : Table) : Prop :=
  ∀ row ∈ t.rows, ∀ other ∈ t.rows, startsWith other.id row.id = true → row.id = other.id

/-- At most one row of `t` is changed or removed, and at most one of `t'` is changed or new. -/
def Table.OneRow (t t' : Table) : Prop :=
  (t.rows.filter fun row => row ∉ t'.rows).length ≤ 1 ∧
    (t'.rows.filter fun row => row ∉ t.rows).length ≤ 1

/-- No stored id is a proper prefix of another, and every request concerns at most one row. -/
def Table.Sound (crypto : Crypto) (condition : Table → Request → Prop) (t : Table) : Prop :=
  t.PrefixFree ∧ ∀ (request : Request) (res : Except Exn Unit) (t' : Table), Plain request.id →
    condition t request → Prog.Exec Act (request.serve crypto) t res t' → t.OneRow t'

/-- No id is put that properly extends a stored one, and no request has an id with which two stored
ids start. -/
structure Separated (t : Table) (request : Request) : Prop where
  longer_none : ∀ row ∈ t.rows, request.putsLonger row.id = false
  starts_one : ∀ row ∈ t.rows, ∀ other ∈ t.rows, startsWith row.id request.id = true →
    startsWith other.id request.id = true → row.id = other.id

instance (t : Table) (request : Request) : Decidable (Separated t request) :=
  decidable_of_iff ((∀ row ∈ t.rows, request.putsLonger row.id = false) ∧
      ∀ row ∈ t.rows, ∀ other ∈ t.rows, startsWith row.id request.id = true →
        startsWith other.id request.id = true → row.id = other.id)
    ⟨fun h => ⟨h.1, h.2⟩, fun h => ⟨h.1, h.2⟩⟩

/-! ## What a request does -/

/-- Rows whose ids do not start with `start` stay, and no new ids appear. -/
structure Keeps (start : String) (t t' : Table) : Prop where
  others : ∀ row, matchesPrefix start row.id = false → (row ∈ t'.rows ↔ row ∈ t.rows)
  ids : ∀ row ∈ t'.rows, ∃ old ∈ t.rows, old.id = row.id

/-- The only new id is `start`, and it appears only if no stored one starts with it. -/
structure Touches (start : String) (t t' : Table) : Prop where
  others : ∀ row, matchesPrefix start row.id = false → (row ∈ t'.rows ↔ row ∈ t.rows)
  ids : ∀ row ∈ t'.rows, (∃ old ∈ t.rows, old.id = row.id) ∨
    (row.id = start ∧ ∀ old ∈ t.rows, matchesPrefix start old.id = false)

theorem Keeps.refl (start : String) (t : Table) : Keeps start t t :=
  ⟨fun _ _ => Iff.rfl, fun row hrow => ⟨row, hrow, rfl⟩⟩

theorem Keeps.touches (h : Keeps start t t') : Touches start t t' :=
  ⟨h.others, fun row hrow => .inl (h.ids row hrow)⟩

theorem Touches.trans {t'' : Table} (h : Touches start t t') (h' : Keeps start t' t'') :
    Touches start t t'' where
  others row hrow := (h'.others row hrow).trans (h.others row hrow)
  ids row hrow := by
    obtain ⟨old, hold, hid⟩ := h'.ids row hrow
    rw [← hid]
    exact h.ids old hold

theorem keeps_update {condition : String → Bool} {data : UpdateData}
    (h : ∀ other, condition other = true → matchesPrefix start other = true) :
    Keeps start t (t.update condition data) where
  others row hrow := by
    have hid : ∀ old : Row, (if condition old.id then data.apply old else old).id = old.id := by
      intro old
      split <;> rfl
    have hsame : ∀ old : Row, matchesPrefix start old.id = false →
        (if condition old.id then data.apply old else old) = old := by
      intro old hold
      refine if_neg fun hc => ?_
      rw [h _ hc] at hold
      cases hold
    rw [Table.mem_update]
    constructor
    · rintro ⟨old, hold, rfl⟩
      rw [hid] at hrow
      rwa [hsame old hrow]
    · intro hmem
      exact ⟨row, hmem, (hsame row hrow).symm⟩
  ids row hrow := by
    obtain ⟨old, hold, rfl⟩ := Table.mem_update.mp hrow
    refine ⟨old, hold, ?_⟩
    split <;> rfl

theorem keeps_remove : Keeps start t (t.removeByIdPrefix start) where
  others row hrow := by
    unfold Table.removeByIdPrefix
    rw [List.mem_filter, hrow]
    exact and_iff_left rfl
  ids row hrow := ⟨row, Table.mem_removeByIdPrefix hrow, rfl⟩

theorem touches_insert {new : Row} (hid : Plain new.id)
    (hnone : ∀ old ∈ t.rows, matchesPrefix new.id old.id = false) (h : t.insert new = some t') :
    Touches new.id t t' where
  others row hrow := by
    rw [Table.mem_insert h]
    refine or_iff_left ?_
    rintro rfl
    rw [matchesPrefix_self hid] at hrow
    cases hrow
  ids row hrow := by
    obtain hold | rfl := (Table.mem_insert h).mp hrow
    · exact .inl ⟨row, hold, rfl⟩
    · exact .inr ⟨rfl, hnone⟩

/-- Reading, and writing rows whose ids start with `start`. -/
def Op.isFor (start : String) : Op → Prop
  | .insert _ => False
  | .updateById other _ => other = start
  | .updateByIdPrefix other _ => other = start
  | .removeByIdPrefix other => other = start
  | _ => True

theorem Act.keeps {op : Op} {r : Answer op} (hid : Plain start) (hop : op.isFor start)
    (h : Act t op r t') : Keeps start t t' := by
  obtain rfl | ⟨r', he⟩ := h.cases
  · exact .refl start t'
  · cases op with
    | insert row => exact hop.elim
    | updateById other data =>
      obtain rfl := hop
      cases he
      refine keeps_update fun other hother => ?_
      obtain rfl := beq_iff_eq.mp hother
      exact matchesPrefix_self hid
    | updateByIdPrefix other data =>
      obtain rfl := hop
      cases he
      exact keeps_update fun _ h => h
    | removeByIdPrefix other =>
      obtain rfl := hop
      cases he
      exact keeps_remove
    | _ => cases he

theorem Act.picked {row : Option Row} (h : Act t (.getByIdPrefix start) (.ok row) t') :
    t' = t ∧ t.picks start row = true := by
  obtain ⟨choice, h⟩ := h
  cases choice with
  | picked row' =>
    simp only [Table.exec] at h
    split at h
    · next hpicks =>
      cases h
      exact ⟨rfl, hpicks⟩
    · cases h
  | _ => cases h

/-- `put_peer` inserts its id only if no stored one starts with it. -/
theorem wp_putPeer (t : Table) (p : InputPeer) (hid : Plain p.id) :
    (putPeer crypto p).wp Act (fun _ t' => Touches p.id t t') t := by
  have hmeta : ∀ t₁, Touches p.id t t₁ → (do
      updatePeerMeta crypto (p.toPeer crypto)
      return p.toPeer crypto : Coro (Peer crypto)).wp Act (fun _ t' => Touches p.id t t') t₁ := by
    intro t₁ h₁
    have huses : (updatePeerMeta crypto (p.toPeer crypto)).Uses (Op.isFor p.id) :=
      updatePeerMeta_uses crypto trivial rfl fun _ _ _ _ => rfl
    have hwp : (updatePeerMeta crypto (p.toPeer crypto)).wp Act (fun _ => Touches p.id t) t₁ :=
      huses.wp (fun op hop t₂ r t₃ h₂ ha => h₂.trans (ha.keeps hid hop)) h₁
    refine Prog.wp_bind_of hwp (fun _ _ h => ?_) fun _ _ h => h
    exact h
  have hget : (getByIdPrefix p.id).wp Act (fun r t' => t' = t ∧ ∀ row, r = .ok row →
      t.picks p.id row = true) t := by
    refine (Prog.wp_perform _ _ _).mpr fun r t' ha => ?_
    cases r with
    | ok row =>
      obtain ⟨rfl, hpicks⟩ := ha.picked
      refine ⟨rfl, fun row' hrow => ?_⟩
      rwa [← Except.ok.inj hrow]
    | error e =>
      obtain rfl | ⟨r', he⟩ := ha.cases
      · exact ⟨rfl, fun row hrow => by cases hrow⟩
      · cases he
  refine Prog.wp_bind_of hget ?_ ?_
  · rintro existing t₁ ⟨ht, hpicks⟩
    obtain rfl : t = t₁ := ht.symm
    have hpicked := hpicks existing rfl
    cases existing with
    | some row =>
      have hupdate : (updateByIdPrefix p.id { name := some p.name }).wp Act
          (fun _ t' => Touches p.id t t') t :=
        (Prog.wp_perform _ _ _).mpr fun _ _ ha => (ha.keeps hid (by rfl)).touches
      exact Prog.wp_bind_of hupdate (fun _ _ h => hmeta _ h) fun _ _ h => h
    | none =>
      have hnone : ∀ old ∈ t.rows, matchesPrefix p.id old.id = false := by
        intro old hold
        have hall := List.all_eq_true.mp hpicked old hold
        simpa using hall
      have hinsert : (insert ⟨p.id, p.name, none, some true⟩).wp Act
          (fun _ t' => Touches p.id t t') t := by
        refine (Prog.wp_perform _ _ _).mpr fun r t' ha => ?_
        obtain rfl | ⟨r', he⟩ := ha.cases
        · exact (Keeps.refl _ _).touches
        · simp only [Table.effect] at he
          split at he
          · next hins =>
            cases he
            exact touches_insert hid hnone hins
          · cases he
            exact (Keeps.refl _ _).touches
      exact Prog.wp_bind_of hinsert (fun _ _ h => hmeta _ h) fun _ _ h => h
  · rintro e t₁ ⟨ht, -⟩
    obtain rfl : t = t₁ := ht.symm
    exact (Keeps.refl _ _).touches

theorem touches_of_put {p : InputPeer} {res : Except Exn Unit} (hid : Plain p.id)
    (h : Prog.Exec Act ((Request.put p).serve crypto) t res t') : Touches p.id t t' := by
  have hwp : ((Request.put p).serve crypto).wp Act (fun _ t' => Touches p.id t t') t := by
    refine Prog.wp_bind_of (wp_putPeer t p hid) (fun _ _ h => ?_) fun _ _ h => h
    exact h
  exact h.wp hwp

theorem keeps_of_delete {res : Except Exn Unit} (hid : Plain start)
    (h : Prog.Exec Act ((Request.delete start).serve crypto) t res t') : Keeps start t t' := by
  have hremove : (awaitOp (.removeByIdPrefix start)).wp Act (fun _ t' => Keeps start t t') t :=
    (Prog.wp_perform _ _ _).mpr fun _ _ ha => ha.keeps hid (by rfl)
  have hwp : ((Request.delete start).serve crypto).wp Act (fun _ t' => Keeps start t t') t := by
    refine Prog.wp_bind_of hremove (fun _ _ h => ?_) fun _ _ h => h
    exact h
  exact h.wp hwp

/-! ## What the condition is good for -/

theorem Touches.prefixFree (hid : Plain start) (ht : t.PrefixFree)
    (hnone : ∀ old ∈ t.rows, startsWith start old.id = true → old.id = start)
    (h : Touches start t t') : t'.PrefixFree := by
  intro row hrow other hother hstarts
  obtain ⟨old, hold, hrowid⟩ | ⟨hrowid, hnew⟩ := h.ids row hrow <;>
    obtain ⟨old', hold', hotherid⟩ | ⟨hotherid, -⟩ := h.ids other hother
  · rw [← hrowid, ← hotherid] at hstarts ⊢
    exact ht old hold old' hold' hstarts
  · rw [← hrowid, hotherid] at hstarts
    rw [← hrowid, hotherid]
    exact hnone old hold hstarts
  · rw [hrowid, ← hotherid, ← matchesPrefix_iff hid, hnew old' hold'] at hstarts
    cases hstarts
  · rw [hrowid, hotherid]

theorem Keeps.prefixFree (ht : t.PrefixFree) (h : Keeps start t t') : t'.PrefixFree := by
  intro row hrow other hother hstarts
  obtain ⟨old, hold, hrowid⟩ := h.ids row hrow
  obtain ⟨old', hold', hotherid⟩ := h.ids other hother
  rw [← hrowid, ← hotherid] at hstarts ⊢
  exact ht old hold old' hold' hstarts

theorem Table.eq_of_id {row other : Row} (hrow : row ∈ t.rows) (hother : other ∈ t.rows)
    (h : row.id = other.id) : row = other := List.inj_on_of_nodup_map t.nodup hrow hother h

theorem Table.filter_length_le_one {p : Row → Bool}
    (h : ∀ row ∈ t.rows, ∀ other ∈ t.rows, p row = true → p other = true → row.id = other.id) :
    (t.rows.filter p).length ≤ 1 := by
  have hnodup : (t.rows.filter p).Nodup := t.nodup.of_map.filter _
  match hfilter : t.rows.filter p with
  | [] => exact Nat.zero_le _
  | [row] => exact le_rfl
  | row :: other :: rows =>
    have hrow : row ∈ t.rows.filter p := by
      rw [hfilter]
      exact List.mem_cons_self
    have hother : other ∈ t.rows.filter p := by
      rw [hfilter]
      exact List.mem_cons_of_mem _ List.mem_cons_self
    obtain ⟨hrow, hp⟩ := List.mem_filter.mp hrow
    obtain ⟨hother, hp'⟩ := List.mem_filter.mp hother
    obtain rfl := Table.eq_of_id hrow hother (h row hrow other hother hp hp')
    rw [hfilter, List.nodup_cons] at hnodup
    exact absurd List.mem_cons_self hnodup.1

theorem Touches.oneRow (hid : Plain start) (hone : ∀ row ∈ t.rows, ∀ other ∈ t.rows,
      startsWith row.id start = true → startsWith other.id start = true → row.id = other.id)
    (h : Touches start t t') : t.OneRow t' := by
  have hstarts : ∀ row, (row ∈ t.rows ↔ row ∉ t'.rows) → startsWith row.id start = true := by
    intro row hrow
    rw [← matchesPrefix_iff hid]
    by_contra hnot
    have hiff := h.others row (Bool.not_eq_true _ ▸ hnot)
    rw [hiff] at hrow
    exact iff_not_self hrow
  constructor
  · refine Table.filter_length_le_one fun row hrow other hother hlost hlost' => ?_
    rw [decide_eq_true_eq] at hlost hlost'
    exact hone row hrow other hother (hstarts row (iff_of_true hrow hlost))
      (hstarts other (iff_of_true hother hlost'))
  · refine Table.filter_length_le_one fun row hrow other hother hnew hnew' => ?_
    rw [decide_eq_true_eq] at hnew hnew'
    have hrow' := hstarts row (iff_of_false hnew (not_not_intro hrow))
    have hother' := hstarts other (iff_of_false hnew' (not_not_intro hother))
    obtain ⟨old, hold, hoid⟩ | ⟨hoid, hnone⟩ := h.ids row hrow <;>
      obtain ⟨old', hold', hoid'⟩ | ⟨hoid', hnone'⟩ := h.ids other hother
    · rw [← hoid] at hrow' ⊢
      rw [← hoid'] at hother' ⊢
      exact hone old hold old' hold' hrow' hother'
    · rw [← hoid, ← matchesPrefix_iff hid, hnone' old hold] at hrow'
      cases hrow'
    · rw [← hoid', ← matchesPrefix_iff hid, hnone old' hold'] at hother'
      cases hother'
    · rw [hoid, hoid']

/-! ## Main result -/

theorem Served.prefixFree (h : Served crypto Separated t) : t.PrefixFree := by
  induction h with
  | empty => exact fun row hrow => absurd hrow List.not_mem_nil
  | @request t t' request res h hid hcondition hexec ih =>
    cases request with
    | put p =>
      refine (touches_of_put hid hexec).prefixFree hid ih fun old hold hstarts => ?_
      have hlonger := hcondition.longer_none old hold
      change startsWith p.id old.id = true at hstarts
      rw [Request.putsLonger, hstarts, Bool.true_and, bne_eq_false_iff_eq] at hlonger
      exact hlonger
    | delete id => exact (keeps_of_delete hid hexec).prefixFree ih

/-- If no request puts an id that properly extends a stored one, nor has an id with which two stored
ids start, then no stored id is a proper prefix of another, and every such request concerns one row. -/
theorem stored_ids_sound (h : Served crypto Separated t) : t.Sound crypto Separated := by
  refine ⟨h.prefixFree, fun request res t' hid hcondition hexec => ?_⟩
  cases request with
  | put p => exact (touches_of_put hid hexec).oneRow hid hcondition.starts_one
  | delete id => exact (keeps_of_delete hid hexec).touches.oneRow hid hcondition.starts_one

/-! ## Two runs -/

/-- Requests on scripts, one after the other; `none` if a script does not fit. -/
def play (crypto : Crypto) (condition : Table → Request → Prop)
    [∀ t request, Decidable (condition t request)] :
    Table → List (Request × List Choice) → Option Table
  | t, [] => some t
  | t, (request, choices) :: requests =>
    if Plain request.id ∧ condition t request then
      match (request.serve crypto).follow Table.exec t choices with
      | some run => play crypto condition run.2 requests
      | none => none
    else none

theorem Served.play {condition : Table → Request → Prop}
    [∀ t request, Decidable (condition t request)] {requests : List (Request × List Choice)}
    (h : Served crypto condition t) (hplay : play crypto condition t requests = some t') :
    Served crypto condition t' := by
  have hact : ∀ t op choice r t', Table.exec t op choice = some (r, t') → Act t op r t' :=
    fun _ _ choice _ _ he => ⟨choice, he⟩
  induction requests generalizing t with
  | nil =>
    cases hplay
    exact h
  | cons request requests ih =>
    obtain ⟨request, choices⟩ := request
    simp only [Peers.play] at hplay
    split at hplay
    · next hcondition =>
      split at hplay
      · next run hfollow =>
        exact ih (h.request hcondition.1 hcondition.2 (Prog.follow_exec hact hfollow)) hplay
      · cases hplay
    · cases hplay

theorem Served.exists {condition : Table → Request → Prop}
    [∀ t request, Decidable (condition t request)] (requests : List (Request × List Choice))
    (P : Table → Bool) (h : (Peers.play crypto condition .empty requests).any P = true) :
    ∃ t, Served crypto condition t ∧ P t = true := by
  obtain ⟨t, hplay, hP⟩ := (Option.any_eq_true _ _).mp h
  exact ⟨t, Served.empty.play hplay, hP⟩

/-- A peer is added under a long id and renamed under the start of it. -/
theorem stored_ids_sound_run : ∃ t, Served Crypto.symbolic Separated t ∧
    t.rows = [⟨"abcdefgh", some "peer", none, some false⟩] ∧
    t.Sound Crypto.symbolic Separated := by
  have hscript : (play Crypto.symbolic Separated .empty
      [(.put ⟨"abcdefgh", none, by decide⟩,
        [.picked none, .proceed, .raise (.connectionError ""), .proceed]),
      (.put ⟨"abcdef", some "peer", by decide⟩,
        [.picked (some ⟨"abcdefgh", none, none, some false⟩), .proceed,
          .raise (.connectionError ""), .proceed])]).any
      (fun t => t.rows == [⟨"abcdefgh", some "peer", none, some false⟩]) = true := by
    decide
  obtain ⟨t, ht, hrows⟩ := Served.exists _ _ hscript
  exact ⟨t, ht, by simpa using hrows, stored_ids_sound ht⟩

instance Request.decidableTrue (t : Table) (request : Request) :
    Decidable ((fun _ _ => True : Table → Request → Prop) t request) :=
  inferInstanceAs (Decidable True)

/-- A peer added under an id and then under a longer one is stored twice. -/
theorem stored_ids_unsound : ¬ ∀ t, Served Crypto.symbolic (fun _ _ => True) t →
    t.Sound Crypto.symbolic fun _ _ => True := by
  intro h
  have hscript : (play Crypto.symbolic (fun _ _ => True) .empty
      [(.put ⟨"abcdef", none, by decide⟩,
        [.picked none, .proceed, .raise (.connectionError ""), .proceed]),
      (.put ⟨"abcdefgh", none, by decide⟩,
        [.picked none, .proceed, .raise (.connectionError ""), .proceed])]).any
      (fun t => t.rows == [⟨"abcdef", none, none, some false⟩,
        ⟨"abcdefgh", none, none, some false⟩]) = true := by
    decide
  obtain ⟨t, ht, hrows⟩ := Served.exists _ _ hscript
  rw [beq_iff_eq] at hrows
  have hshort : (⟨"abcdef", none, none, some false⟩ : Row) ∈ t.rows := by
    rw [hrows]
    exact List.mem_cons_self
  have hlong : (⟨"abcdefgh", none, none, some false⟩ : Row) ∈ t.rows := by
    rw [hrows]
    exact List.mem_cons_of_mem _ List.mem_cons_self
  have hsame := (h t ht).1 _ hshort _ hlong (by decide)
  exact absurd hsame (by decide)

end Freeshard.Peers

import Freeshard.Peers.PrefixFree

/-! # Prefixes as patterns

`get_by_id_prefix`, `update_by_id_prefix` and `remove_by_id_prefix` put an id in front of a `%` without escaping it.
They do what `startswith` would do for every table exactly if the id has no character that is special in a pattern. -/

namespace Freeshard.Peers
set_option autoImplicit false

/-! ## The operations -/

/-- psycopg takes no text with a NUL. -/
def Storable (text : String) : Prop := Char.ofNat 0 ∉ text.toList

instance (text : String) : Decidable (Storable text) := inferInstanceAs (Decidable (_ ∉ _))

def UpdateData.Storable (data : UpdateData) : Prop :=
  (∀ text, data.name = some (some text) → Peers.Storable text) ∧
    ∀ text, data.publicBytesB64 = some (some text) → Peers.Storable text

/-- A text parameter of a statement. -/
def textParameter (text : String) : Except Exn String :=
  if Storable text then .ok text
  else .error (.other "DataError: PostgreSQL text fields cannot contain NUL (0x00) bytes")

/-- What `get_by_id_prefix` may do: with `LIMIT 1` any matching row is returned. -/
def Gets (t : Table) (idPrefix : String) (r : Except Exn (Option Row)) : Prop :=
  match textParameter idPrefix with
  | .error e => r = .error e
  | .ok idPrefix => ∃ row, r = .ok row ∧ t.picks idPrefix row = true

/-- `update_by_id_prefix`, for data that can be stored; without a clause there is no statement. -/
def updateRows (t : Table) (idPrefix : String) (data : UpdateData) : Except Exn Table :=
  if data = {} then .ok t
  else
    match textParameter idPrefix with
    | .error e => .error e
    | .ok idPrefix => .ok (t.updateByIdPrefix idPrefix data)

/-- `remove_by_id_prefix`. -/
def removeRows (t : Table) (idPrefix : String) : Except Exn Table :=
  match textParameter idPrefix with
  | .error e => .error e
  | .ok idPrefix => .ok (t.removeByIdPrefix idPrefix)

/-! ## What they are to do -/

/-- Without the rows whose ids start with a text. -/
def Table.without (t : Table) (start : String) : Table where
  rows := t.rows.filter fun row => !startsWith row.id start
  nodup := t.nodup.sublist (List.filter_sublist.map _)

/-- The operations do to the table what literal prefix matching would do. -/
structure Agrees (t : Table) (idPrefix : String) : Prop where
  get : ∀ r, Gets t idPrefix r → (∃ row ∈ t.rows, r = .ok (some row) ∧ startsWith row.id idPrefix = true) ∨
    r = .ok none ∧ ∀ row ∈ t.rows, startsWith row.id idPrefix = false
  update : ∀ data : UpdateData, data.Storable →
    updateRows t idPrefix data = .ok (t.update (startsWith · idPrefix) data)
  remove : removeRows t idPrefix = .ok (t.without idPrefix)

/-- The pattern matches the ids of the table as the prefix does. -/
def Literal (t : Table) (idPrefix : String) : Prop :=
  ∀ row ∈ t.rows, matchesPrefix idPrefix row.id = startsWith row.id idPrefix

/-! ## On one table -/

section OneTable
variable {t : Table} {idPrefix : String}

theorem textParameter_storable (h : Storable idPrefix) : textParameter idPrefix = .ok idPrefix := if_pos h

theorem storable_of_remove {t' : Table} (h : removeRows t idPrefix = .ok t') : Storable idPrefix := by
  by_contra hnot
  rw [removeRows, textParameter, if_neg hnot] at h
  cases h

theorem Table.ext_rows {t t' : Table} (h : t.rows = t'.rows) : t = t' := by
  cases t
  cases t'
  cases h
  rfl

theorem Literal.agrees (h : Literal t idPrefix) (hstorable : Storable idPrefix) : Agrees t idPrefix where
  get := by
    intro r hr
    rw [Gets, textParameter_storable hstorable] at hr
    obtain ⟨row, rfl, hpicks⟩ := hr
    cases row with
    | some row =>
      simp only [Table.picks, Bool.and_eq_true, List.contains_iff_mem] at hpicks
      refine .inl ⟨row, hpicks.1, rfl, ?_⟩
      rw [← h row hpicks.1]
      exact hpicks.2
    | none =>
      simp only [Table.picks, List.all_eq_true, Bool.not_eq_true'] at hpicks
      refine .inr ⟨rfl, fun row hrow => ?_⟩
      rw [← h row hrow]
      exact hpicks row hrow
  update := by
    intro data _
    have hupdate : t.updateByIdPrefix idPrefix data = t.update (startsWith · idPrefix) data := by
      apply Table.ext_rows
      apply List.map_congr_left
      intro row hrow
      rw [h row hrow]
    rw [updateRows, textParameter_storable hstorable, ← hupdate]
    split
    · next hempty =>
      subst hempty
      congr 1
      apply Table.ext_rows
      symm
      apply List.map_id''
      intro row
      exact ite_self _
    · rfl
  remove := by
    have hrows : t.removeByIdPrefix idPrefix = t.without idPrefix := by
      apply Table.ext_rows
      apply List.filter_congr
      intro row hrow
      rw [h row hrow]
    rw [removeRows, textParameter_storable hstorable, ← hrows]

theorem Agrees.literal (h : Agrees t idPrefix) : Literal t idPrefix := by
  have hremove := h.remove
  rw [removeRows, textParameter_storable (storable_of_remove hremove)] at hremove
  intro row hrow
  have hmem : row ∈ (t.removeByIdPrefix idPrefix).rows ↔ row ∈ (t.without idPrefix).rows := by
    rw [Except.ok.inj hremove]
  simp only [Table.removeByIdPrefix, Table.without, List.mem_filter, hrow, true_and, Bool.not_eq_true',
    Bool.eq_false_iff] at hmem
  exact Bool.eq_iff_iff.mpr (not_iff_not.mp hmem)

theorem agrees_iff_literal : Agrees t idPrefix ↔ Storable idPrefix ∧ Literal t idPrefix :=
  ⟨fun h => ⟨storable_of_remove h.remove, h.literal⟩, fun h => h.2.agrees h.1⟩

end OneTable

/-! ## On every table -/

/-- A text that a pattern matches, the shortest one with `x` for any character. -/
def sample : List Char → List Char
  | [] => []
  | '%' :: pattern => sample pattern
  | '_' :: pattern => 'x' :: sample pattern
  -- the backslash escapes the `%` behind the prefix
  | ['\\'] => ['%']
  | '\\' :: c :: pattern => c :: sample pattern
  | c :: pattern => c :: sample pattern

theorem like_sample (pattern : List Char) : like (pattern ++ ['%']) (sample pattern) = true := by
  fun_induction sample pattern with
  | case1 => rfl
  | case2 pattern ih =>
    rw [List.cons_append, like, List.any_eq_true]
    exact ⟨sample pattern, (List.mem_tails _ _).mpr (List.suffix_refl _), ih⟩
  | case3 pattern ih => exact ih
  | case4 => rfl
  | case5 c pattern ih =>
    rw [List.cons_append, List.cons_append, like, ih, beq_self_eq_true]
    rfl
  | case6 c pattern hpercent hunderscore hlast hbackslash ih =>
    have hc : c ≠ '\\' := by
      intro hc
      cases pattern with
      | nil => exact hlast hc rfl
      | cons c' pattern => exact hbackslash c' pattern hc rfl
    rw [List.cons_append, like, ih, beq_self_eq_true]
    · rfl
    · exact hpercent
    · exact hunderscore
    · exact fun _ _ h _ => hc h

theorem sample_length (pattern : List Char) : (sample pattern).length ≤ pattern.length := by
  fun_induction sample pattern with
  | case1 => simp
  | case2 pattern ih =>
    rw [List.length_cons]
    omega
  | case3 pattern ih =>
    rw [List.length_cons, List.length_cons]
    omega
  | case4 => simp
  | case5 c pattern ih =>
    rw [List.length_cons, List.length_cons, List.length_cons]
    omega
  | case6 c pattern _ _ _ _ ih =>
    rw [List.length_cons, List.length_cons]
    omega

/-- The sample starts with the pattern only if no character of it is special. -/
theorem plain_of_prefix_sample {pattern : List Char} (h : pattern <+: sample pattern) :
    ∀ c ∈ pattern, c ≠ '%' ∧ c ≠ '_' ∧ c ≠ '\\' := by
  fun_induction sample pattern with
  | case1 =>
    intro c hc
    cases hc
  | case2 pattern ih =>
    have hlength := sample_length pattern
    have hshort := h.length_le
    rw [List.length_cons] at hshort
    omega
  | case3 pattern ih =>
    obtain ⟨hc, -⟩ := List.cons_prefix_cons.mp h
    cases hc
  | case4 =>
    obtain ⟨hc, -⟩ := List.cons_prefix_cons.mp h
    cases hc
  | case5 c pattern ih =>
    have hlength := sample_length pattern
    have hshort := h.length_le
    rw [List.length_cons, List.length_cons, List.length_cons] at hshort
    omega
  | case6 c pattern hpercent hunderscore hlast hbackslash ih =>
    have hc : c ≠ '\\' := by
      intro hc
      cases pattern with
      | nil => exact hlast hc rfl
      | cons c' pattern => exact hbackslash c' pattern hc rfl
    have hrest := ih (List.cons_prefix_cons.mp h).2
    intro d hd
    obtain rfl | hd := List.mem_cons.mp hd
    · exact ⟨hpercent, hunderscore, hc⟩
    · exact hrest d hd

/-- No character is special in a pattern. -/
def Unpatterned (idPrefix : String) : Prop := ∀ c ∈ idPrefix.toList, c ≠ '%' ∧ c ≠ '_' ∧ c ≠ '\\'

theorem literal_of_unpatterned {idPrefix : String} (h : Unpatterned idPrefix) (t : Table) : Literal t idPrefix := by
  intro row _
  apply Bool.eq_iff_iff.mpr
  rw [matchesPrefix, like_plain h, startsWith, List.isPrefixOf_iff_prefix]

/-- A table with a single row. -/
def Table.single (id : String) : Table := ⟨[⟨id, none, none, some true⟩], List.nodup_singleton _⟩

theorem unpatterned_of_literal {idPrefix : String} (h : ∀ t, Literal t idPrefix) : Unpatterned idPrefix := by
  have hrow := h (.single (String.ofList (sample idPrefix.toList))) _ List.mem_cons_self
  have hmatches : matchesPrefix idPrefix (String.ofList (sample idPrefix.toList)) = true := by
    rw [matchesPrefix, String.toList_ofList]
    exact like_sample _
  have hstarts := hrow.symm.trans hmatches
  rw [startsWith, String.toList_ofList, List.isPrefixOf_iff_prefix] at hstarts
  exact plain_of_prefix_sample hstarts

/-- On one table the operations agree with literal prefixes exactly if the pattern does on its ids, and on every table
exactly if the text has no special character. -/
theorem agrees_iff (idPrefix : String) :
    (∀ t, Agrees t idPrefix ↔ Storable idPrefix ∧ Literal t idPrefix) ∧
      ((∀ t, Agrees t idPrefix) ↔ Storable idPrefix ∧ Unpatterned idPrefix) := by
  refine ⟨fun t => agrees_iff_literal, fun h => ⟨?_, ?_⟩, fun h t => ?_⟩
  · exact (agrees_iff_literal.mp (h .empty)).1
  · exact unpatterned_of_literal fun t => (agrees_iff_literal.mp (h t)).2
  · exact agrees_iff_literal.mpr ⟨h.1, literal_of_unpatterned h.2 t⟩

/-- An id of one percent sign deletes every peer. -/
theorem removes_all : ¬ Agrees (.single "abcdef") "%" := by
  intro h
  have hrows : removeRows (.single "abcdef") "%" = .ok .empty := by rfl
  have hremove := Except.ok.inj (hrows.symm.trans h.remove)
  have hkept : (Table.single "abcdef").rows = [] := (congrArg Table.rows hremove).symm
  cases hkept

end Freeshard.Peers

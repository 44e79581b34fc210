import Freeshard.HumanEncoding.RoundTrip

/-! # Texts that decode

With the module's own alphabet a character holds five bits, so up to seven bits may be left over at the end of a text.
`decode` asks them to be zeros, but five and more of them are a whole character that `encode` does not write. -/

namespace Freeshard.HumanEncoding
set_option autoImplicit false

variable (bitArray : BitArray)

/-! ## The default alphabet -/

theorem default_over : (Codec.default bitArray).bitsPerChar = 5 ∧
    (Codec.default bitArray).Over defaultCharacters.toList := by
  have hlen : defaultCharacters.toList.length = 32 := by decide
  have hlog : Nat.log2 32 = 5 := by decide
  obtain ⟨codec, hinit, hwidth, hover⟩ := init_over bitArray .reset
    (rfl : defaultCharacters.toList = _) (by decide) (by decide)
  rw [hlen, hlog] at hwidth hover
  have hall : defaultCharacters.toList.take (2 ^ 5) = defaultCharacters.toList :=
    List.take_of_length_le (Nat.le_of_eq hlen)
  rw [hall] at hover
  have hdefault : Codec.default bitArray = codec := by
    rw [Codec.default, hinit]
  rw [hdefault]
  exact ⟨hwidth, hover⟩

/-- The number that the characters of a text spell to the base of 32. -/
def number (s : String) : ℕ :=
  s.toList.foldl (fun n char => 32 * n + defaultCharacters.toList.idxOf char) 0

/-- The bits that do not fill a byte are a whole character or more, and zeros. -/
def Overlong (s : String) : Prop := 5 ≤ 5 * s.length % 8 ∧ 2 ^ (5 * s.length % 8) ∣ number s

instance (s : String) : Decidable (Overlong s) := inferInstanceAs (Decidable (_ ∧ _))

variable {bitArray}

theorem toNat_flatten {s : String} {ws : List (List Bool)}
    (hws : s.toList.mapM (subscript (Codec.default bitArray).charToBits .charKeyError) = .ok ws) :
    Bits.toNat ws.flatten = number s := by
  obtain ⟨hfive, hover⟩ := default_over bitArray
  have key : ∀ (chars : List Char) (ws : List (List Bool)) (n : ℕ),
      List.Forall₂ (fun char word => subscript (Codec.default bitArray).charToBits .charKeyError char = .ok word)
        chars ws →
      chars.foldl (fun n char => 32 * n + defaultCharacters.toList.idxOf char) n =
        2 ^ ws.flatten.length * n + Bits.toNat ws.flatten := by
    intro chars ws n h
    induction h generalizing n with
    | nil => simp [Bits.toNat]
    | @cons char word chars ws hchar _ ih =>
      have hlookup := subscript_eq_ok.mp hchar
      have hlen : word.length = 5 := hfive ▸ hover.width char word hlookup
      rw [List.foldl_cons, ih, List.flatten_cons, Bits.toNat_append, hover.position char word hlookup,
        List.length_append, hlen, pow_add]
      ring
  have h := key s.toList ws 0 (mapM_eq_ok.mp hws)
  rw [Nat.mul_zero, Nat.zero_add] at h
  exact h.symm

theorem dvd_number_iff {s : String} {ws : List (List Bool)}
    (hws : s.toList.mapM (subscript (Codec.default bitArray).charToBits .charKeyError) = .ok ws) {k : ℕ}
    (hk : k ≤ ws.flatten.length) :
    2 ^ k ∣ number s ↔ ∀ bit ∈ ws.flatten.drop (ws.flatten.length - k), bit = false := by
  have hlen : (ws.flatten.drop (ws.flatten.length - k)).length = k := by
    rw [List.length_drop]
    omega
  have hmod := Bits.toNat_append_mod (ws.flatten.take (ws.flatten.length - k))
    (ws.flatten.drop (ws.flatten.length - k))
  rw [List.take_append_drop, toNat_flatten hws, hlen] at hmod
  rw [Nat.dvd_iff_mod_eq_zero, hmod, Bits.toNat_eq_zero]

/-! ## Main result -/

/-- The text decodes to the bytes it is the encoding of, or is refused. -/
def Faithful (bitArray : BitArray) (s : String) : Prop :=
  (∃ b, decode bitArray (.default bitArray) s = .ok b ∧ encode bitArray (.default bitArray) b = .ok s) ∨
  ∃ e, decode bitArray (.default bitArray) s = .error e ∧ e.isHumanEncodingError = true

theorem decode_of_unknown {s : String} {e : Exn}
    (h : s.toList.mapM (subscript (Codec.default bitArray).charToBits .charKeyError) = .error e) :
    decode bitArray (.default bitArray) s = .error e ∧ ∃ char, e = .charKeyError char := by
  obtain ⟨-, hover⟩ := default_over bitArray
  constructor
  · rw [decode, if_neg hover.ne_zero, h]
    rfl
  · obtain ⟨char, -, hchar⟩ := mapM_eq_error h
    refine ⟨char, ?_⟩
    unfold subscript at hchar
    split at hchar
    · cases hchar
    · cases hchar
      rfl

theorem Faithful.known {s : String} (h : Faithful bitArray s) :
    ∃ ws, s.toList.mapM (subscript (Codec.default bitArray).charToBits .charKeyError) = .ok ws := by
  cases hws : s.toList.mapM (subscript (Codec.default bitArray).charToBits .charKeyError) with
  | ok ws => exact ⟨ws, rfl⟩
  | error e =>
    obtain ⟨hdecode, char, rfl⟩ := decode_of_unknown hws
    obtain ⟨b, hb, -⟩ | ⟨e, he, hhuman⟩ := h
    · rw [hdecode] at hb
      cases hb
    · rw [hdecode] at he
      cases he
      cases hhuman

variable (bitArray) in
theorem mapM_of_known {s : String} (h : ∀ char ∈ s.toList, char ∈ defaultCharacters.toList) :
    ∃ ws, s.toList.mapM (subscript (Codec.default bitArray).charToBits .charKeyError) = .ok ws := by
  obtain ⟨-, hover⟩ := default_over bitArray
  apply exists_mapM
  intro char hmem
  obtain ⟨bits, hbits⟩ := (hover.mem char).mpr (h char hmem)
  exact ⟨bits, subscript_eq_ok.mpr hbits⟩

theorem Faithful.not_overlong {s : String} (h : Faithful bitArray s) : ¬ Overlong s := by
  intro hoverlong
  obtain ⟨hfive, hover⟩ := default_over bitArray
  obtain ⟨ws, hws⟩ := h.known
  have hlen := hover.length_flatten hws
  rw [hfive] at hlen
  have hdecode := hover.decode_of_words bitArray hws
  rw [hfive] at hdecode
  obtain ⟨b, hbits, hdecode⟩ | ⟨⟨bit, hmem, hone⟩, -⟩ := hdecode
  · obtain ⟨b', hb', hencode⟩ | ⟨e, he, hhuman⟩ := h
    · obtain ⟨ws', k, hws', hk, hflatten⟩ := hover.encode_eq_ok.mp hencode
      obtain rfl := Except.ok.inj (hws.symm.trans hws')
      have htotal := congrArg List.length hflatten
      rw [hlen, List.length_append, List.length_replicate, Bits.length_ofBytes] at htotal
      -- the filling is the overhang
      have hfew := hoverlong.1
      rw [hfive] at hk
      rw [htotal, Nat.mul_add_mod, Nat.mod_eq_of_lt (by omega)] at hfew
      omega
    · rw [he] at hdecode
      unfold toBytes at hdecode
      split at hdecode
      · cases hdecode
      · cases hdecode
        cases hhuman
  · have hzeros := (dvd_number_iff hws (by omega)).mp hoverlong.2 bit hmem
    rw [hone] at hzeros
    cases hzeros

theorem faithful_of_known {s : String} (hs : s ≠ "")
    (hknown : ∀ char ∈ s.toList, char ∈ defaultCharacters.toList) (hoverlong : ¬ Overlong s) :
    Faithful bitArray s := by
  obtain ⟨hfive, hover⟩ := default_over bitArray
  obtain ⟨ws, hws⟩ := mapM_of_known bitArray hknown
  have hlen := hover.length_flatten hws
  rw [hfive] at hlen
  have hdecode := hover.decode_of_words bitArray hws
  rw [hfive] at hdecode
  obtain ⟨b, hbits, hdecode⟩ | ⟨-, text, hdecode⟩ := hdecode
  · have hdvd : 2 ^ (5 * s.length % 8) ∣ number s := by
      refine (dvd_number_iff hws (by omega)).mpr fun bit hmem => ?_
      have htotal := congrArg List.length hbits
      rw [List.length_append, List.length_replicate] at htotal
      rw [hbits, List.length_append, List.length_replicate, Nat.add_sub_cancel, List.drop_left] at hmem
      exact List.eq_of_mem_replicate hmem
    have hfew : 5 * s.length % 8 < 5 := by
      by_contra hmany
      exact hoverlong ⟨Nat.le_of_not_lt hmany, hdvd⟩
    have hb : b ≠ [] := by
      rintro rfl
      have htotal := congrArg List.length hbits
      rw [hlen, List.length_append, List.length_replicate, Bits.length_ofBytes, List.length_nil] at htotal
      have hzero : s.length = 0 := by omega
      exact hs (String.length_eq_zero_iff.mp hzero)
    rw [toBytes, bitArray.bytes_exact b hb] at hdecode
    exact .inl ⟨b, hdecode, hover.encode_eq_ok.mpr ⟨ws, _, hws, hfive ▸ hfew, hbits⟩⟩
  · exact .inr ⟨_, hdecode, rfl⟩

/-- A non-empty text decodes to the bytes it is the encoding of, or is refused with an error of this module, exactly if
it is over the alphabet and has no superfluous last character; and no two such texts decode to the same bytes. -/
theorem faithful_iff (bitArray : BitArray) :
    (∀ s ≠ "", Faithful bitArray s ↔
      (∀ char ∈ s.toList, char ∈ defaultCharacters.toList) ∧ ¬ Overlong s) ∧
    ∀ s ≠ "", ∀ t ≠ "", ¬ Overlong s → ¬ Overlong t → ∀ b,
      decode bitArray (.default bitArray) s = .ok b → decode bitArray (.default bitArray) t = .ok b → s = t := by
  obtain ⟨-, hover⟩ := default_over bitArray
  have hknown : ∀ {s : String} {ws}, s.toList.mapM
      (subscript (Codec.default bitArray).charToBits .charKeyError) = .ok ws →
      ∀ char ∈ s.toList, char ∈ defaultCharacters.toList := by
    intro s ws hws char hmem
    obtain ⟨word, -, hchar⟩ := exists_result_of_mem hws hmem
    exact (hover.mem char).mp ⟨word, subscript_eq_ok.mp hchar⟩
  refine ⟨fun s hs => ⟨fun h => ?_, fun h => faithful_of_known hs h.1 h.2⟩, ?_⟩
  · obtain ⟨ws, hws⟩ := h.known
    exact ⟨hknown hws, h.not_overlong⟩
  · have hencode : ∀ s ≠ "", ¬ Overlong s → ∀ b, decode bitArray (.default bitArray) s = .ok b →
        encode bitArray (.default bitArray) b = .ok s := by
      intro s hs hoverlong b hb
      have hfaithful : Faithful bitArray s := by
        cases hws : s.toList.mapM (subscript (Codec.default bitArray).charToBits .charKeyError) with
        | ok ws => exact faithful_of_known hs (hknown hws) hoverlong
        | error e =>
          rw [(decode_of_unknown hws).1] at hb
          cases hb
      obtain ⟨b', hb', he⟩ | ⟨e, he, -⟩ := hfaithful
      · rw [hb] at hb'
        cases hb'
        exact he
      · rw [hb] at he
        cases he
    intro s hs t ht hso hto b hsb htb
    have h := (hencode s hs hso b hsb).symm.trans (hencode t ht hto b htb)
    exact Except.ok.inj h

/-- Of two characters the second one holds two bits of one byte and three of filling. -/
theorem faithful_two : Faithful .standard "ba" ∧ ∀ t ≠ "", ¬ Overlong t →
    decode .standard (.default .standard) t = .ok [8] → t = "ba" := by
  obtain ⟨hfaithful, hunique⟩ := faithful_iff .standard
  have hdecode : decode .standard (.default .standard) "ba" = .ok [8] := by decide +kernel
  have hall : ("ba".toList.all defaultCharacters.toList.contains) = true := by decide
  have hknown : ∀ char ∈ "ba".toList, char ∈ defaultCharacters.toList := fun char hmem =>
    List.contains_iff_mem.mp (List.all_eq_true.mp hall char hmem)
  refine ⟨(hfaithful "ba" (by decide)).mpr ⟨hknown, by decide⟩, fun t ht hoverlong h => ?_⟩
  exact hunique t ht "ba" (by decide) hoverlong (by decide) [8] h hdecode

/-- A third character of zeros goes unnoticed. -/
theorem not_faithful_three : ¬ (∀ s ≠ "", Faithful .standard s) ∧
    decode .standard (.default .standard) "ba" = .ok [8] ∧
    decode .standard (.default .standard) "baa" = .ok [8] := by
  refine ⟨fun h => ?_, by decide +kernel, by decide +kernel⟩
  have hoverlong : Overlong "baa" := by decide
  exact (h "baa" (by decide)).not_overlong hoverlong

end Freeshard.HumanEncoding

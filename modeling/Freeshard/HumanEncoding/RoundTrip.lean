import Freeshard.Service.HumanEncoding
import Mathlib.Algebra.Order.Floor.Div
import Mathlib.Data.Nat.Log

/-! # Encoded bytes

`init` leaves two tables that are inverse to each other, and with them `decode` undoes `encode`: the filling of the last
character is what `decode` takes off as overhang. -/

namespace Freeshard.HumanEncoding
set_option autoImplicit false

/-! ## Lists of results -/

section Results
variable {α β ε : Type}

theorem mapM_eq_ok {f : α → Except ε β} {l : List α} {l' : List β} :
    l.mapM f = .ok l' ↔ List.Forall₂ (fun a b => f a = .ok b) l l' := by
  induction l generalizing l' with
  | nil =>
    rw [List.forall₂_nil_left_iff]
    exact ⟨fun h => by cases h; rfl, fun h => by rw [h]; rfl⟩
  | cons a l ih =>
    rw [List.mapM_cons, List.forall₂_cons_left_iff]
    constructor
    · intro h
      cases ha : f a with
      | error e =>
        rw [ha] at h
        cases h
      | ok b =>
        cases hl : l.mapM f with
        | error e =>
          rw [ha, hl] at h
          cases h
        | ok bs =>
          rw [ha, hl] at h
          cases h
          exact ⟨b, bs, rfl, ih.mp hl, rfl⟩
    · rintro ⟨b, bs, hb, hbs, rfl⟩
      rw [hb, ih.mpr hbs]
      rfl

theorem exists_result_of_mem {f : α → Except ε β} {l : List α} {l' : List β} (h : l.mapM f = .ok l') {a : α}
    (hmem : a ∈ l) : ∃ b ∈ l', f a = .ok b := by
  have hforall := mapM_eq_ok.mp h
  obtain ⟨i, hlt, rfl⟩ := List.getElem_of_mem hmem
  have hlt' : i < l'.length := hforall.length_eq ▸ hlt
  exact ⟨l'[i], List.getElem_mem hlt', List.Forall₂.get hforall hlt hlt'⟩

theorem exists_source_of_mem {f : α → Except ε β} {l : List α} {l' : List β} (h : l.mapM f = .ok l') {b : β}
    (hmem : b ∈ l') : ∃ a ∈ l, f a = .ok b := by
  have hforall := mapM_eq_ok.mp h
  obtain ⟨i, hlt, rfl⟩ := List.getElem_of_mem hmem
  have hlt' : i < l.length := hforall.length_eq ▸ hlt
  exact ⟨l[i], List.getElem_mem hlt', List.Forall₂.get hforall hlt' hlt⟩

theorem mapM_eq_error {f : α → Except ε β} {l : List α} {e : ε} (h : l.mapM f = .error e) :
    ∃ a ∈ l, f a = .error e := by
  induction l with
  | nil => cases h
  | cons a l ih =>
    rw [List.mapM_cons] at h
    cases ha : f a with
    | error e' =>
      rw [ha] at h
      cases h
      exact ⟨a, List.mem_cons_self, ha⟩
    | ok b =>
      cases hl : l.mapM f with
      | error e' =>
        rw [ha, hl] at h
        cases h
        obtain ⟨a', hmem, ha'⟩ := ih hl
        exact ⟨a', List.mem_cons_of_mem _ hmem, ha'⟩
      | ok bs =>
        rw [ha, hl] at h
        cases h

theorem exists_mapM {f : α → Except ε β} {l : List α} (h : ∀ a ∈ l, ∃ b, f a = .ok b) :
    ∃ l', l.mapM f = .ok l' := by
  induction l with
  | nil => exact ⟨[], rfl⟩
  | cons a l ih =>
    obtain ⟨b, hb⟩ := h a List.mem_cons_self
    obtain ⟨bs, hbs⟩ := ih fun a hmem => h a (List.mem_cons_of_mem _ hmem)
    refine ⟨b :: bs, ?_⟩
    rw [List.mapM_cons, hb, hbs]
    rfl

theorem mapM_inverse {f : α → Except ε β} {g : β → Except ε α} (h : ∀ a b, f a = .ok b ↔ g b = .ok a)
    {l : List α} {l' : List β} : l.mapM f = .ok l' ↔ l'.mapM g = .ok l := by
  rw [mapM_eq_ok, mapM_eq_ok]
  constructor
  · intro hf
    exact List.Forall₂.flip (hf.imp fun a b => (h a b).mp)
  · intro hg
    exact List.Forall₂.flip (hg.imp fun b a => (h a b).mpr)

end Results

/-! ## The tables -/

/-- The tables translate between the words of the width in use and the characters. -/
structure Codec.Over (codec : Codec) (chars : List Char) : Prop where
  width_pos : 0 < codec.bitsPerChar
  inverse : ∀ bits char, codec.bitsToChar.lookup bits = some char ↔ codec.charToBits.lookup char = some bits
  width : ∀ char bits, codec.charToBits.lookup char = some bits → bits.length = codec.bitsPerChar
  total : ∀ bits, bits.length = codec.bitsPerChar → ∃ char, codec.bitsToChar.lookup bits = some char
  mem : ∀ char, (∃ bits, codec.charToBits.lookup char = some bits) ↔ char ∈ chars
  position : ∀ char bits, codec.charToBits.lookup char = some bits → Bits.toNat bits = chars.idxOf char

variable {bitArray : BitArray}

theorem setChars_eq {width : ℕ} (hwidth : 0 < width) {pairs : List (Char × ℕ)} (codec : Codec)
    (hpairs : ∀ pair ∈ pairs, pair.2 < 2 ^ width) :
    setChars bitArray width pairs codec = (.ok (), { codec with
      bitsToChar := codec.bitsToChar.setAll (pairs.map fun pair => (Bits.ofNat width pair.2, pair.1))
      charToBits := codec.charToBits.setAll (pairs.map fun pair => (pair.1, Bits.ofNat width pair.2)) }) := by
  induction pairs generalizing codec with
  | nil => rfl
  | cons pair pairs ih =>
    obtain ⟨char, number⟩ := pair
    have hnumber : number < 2 ^ width := hpairs _ List.mem_cons_self
    rw [setChars, bitArray.uint_exact number width hwidth hnumber]
    dsimp only
    rw [ih _ fun pair hmem => hpairs pair (List.mem_cons_of_mem _ hmem)]
    rfl

/-- What `init` writes for distinct characters. -/
theorem tables_over {width : ℕ} {chars : List Char} (hwidth : 0 < width) (hnodup : chars.Nodup)
    (hlen : chars.length = 2 ^ width) :
    Codec.Over ⟨Dict.setAll ∅ (chars.zipIdx.map fun pair => (Bits.ofNat width pair.2, pair.1)),
      Dict.setAll ∅ (chars.zipIdx.map fun pair => (pair.1, Bits.ofNat width pair.2)), width⟩ chars := by
  have hnumber : ∀ char number, (char, number) ∈ chars.zipIdx → number < 2 ^ width := by
    intro char number hmem
    obtain ⟨hlt, -⟩ := List.getElem?_eq_some_iff.mp (List.mem_zipIdx_iff_getElem?.mp hmem)
    rwa [← hlen]
  have hchar : ∀ bits char, (Dict.setAll (∅ : Dict (List Bool) Char)
      (chars.zipIdx.map fun pair => (Bits.ofNat width pair.2, pair.1))).lookup bits = some char ↔
      ∃ number, (char, number) ∈ chars.zipIdx ∧ Bits.ofNat width number = bits := by
    intro bits char
    rw [Dict.lookup_setAll_eq_some]
    · simp
    · intro bits char char' hmem hmem'
      obtain ⟨⟨_, number⟩, hpair, heq⟩ := List.mem_map.mp hmem
      obtain ⟨⟨_, number'⟩, hpair', heq'⟩ := List.mem_map.mp hmem'
      cases heq
      obtain ⟨hbits, rfl⟩ := Prod.mk.inj heq'
      obtain rfl := Bits.ofNat_injective (hnumber _ _ hpair') (hnumber _ _ hpair) hbits
      have hget := List.mem_zipIdx_iff_getElem?.mp hpair
      rw [List.mem_zipIdx_iff_getElem?.mp hpair'] at hget
      exact (Option.some.inj hget).symm
  have hbits : ∀ char bits, (Dict.setAll (∅ : Dict Char (List Bool))
      (chars.zipIdx.map fun pair => (pair.1, Bits.ofNat width pair.2))).lookup char = some bits ↔
      ∃ number, (char, number) ∈ chars.zipIdx ∧ Bits.ofNat width number = bits := by
    intro char bits
    rw [Dict.lookup_setAll_eq_some]
    · simp
    · intro char bits bits' hmem hmem'
      obtain ⟨⟨_, number⟩, hpair, heq⟩ := List.mem_map.mp hmem
      obtain ⟨⟨_, number'⟩, hpair', heq'⟩ := List.mem_map.mp hmem'
      cases heq
      obtain ⟨rfl, rfl⟩ := Prod.mk.inj heq'
      have hget := List.mem_zipIdx_iff_getElem?.mp hpair
      have hget' := List.mem_zipIdx_iff_getElem?.mp hpair'
      obtain ⟨hlt, -⟩ := List.getElem?_eq_some_iff.mp hget
      rw [(List.getElem?_inj hlt hnodup).mp (hget.trans hget'.symm)]
  constructor
  case width_pos => exact hwidth
  case inverse =>
    intro bits char
    rw [hchar, hbits]
  case width =>
    intro char bits h
    obtain ⟨number, -, rfl⟩ := (hbits char bits).mp h
    exact Bits.length_ofNat width number
  case total =>
    intro bits hwidth
    dsimp only at hwidth
    have hlt : Bits.toNat bits < chars.length := by
      rw [hlen, ← hwidth]
      exact Bits.toNat_lt bits
    refine ⟨chars[Bits.toNat bits], (hchar bits _).mpr ⟨Bits.toNat bits, ?_, ?_⟩⟩
    · exact List.mem_zipIdx_iff_getElem?.mpr (List.getElem?_eq_getElem hlt)
    · rw [← hwidth, Bits.ofNat_toNat]
  case mem =>
    intro char
    constructor
    · intro h
      obtain ⟨bits, h⟩ := h
      obtain ⟨number, hmem, -⟩ := (hbits char bits).mp h
      exact List.mem_of_getElem? (List.mem_zipIdx_iff_getElem?.mp hmem)
    · intro hmem
      obtain ⟨number, hget⟩ := List.getElem?_of_mem hmem
      exact ⟨_, (hbits char _).mpr ⟨number, List.mem_zipIdx_iff_getElem?.mpr hget, rfl⟩⟩
  case position =>
    intro char bits h
    obtain ⟨number, hmem, rfl⟩ := (hbits char bits).mp h
    obtain ⟨hlt, hget⟩ := List.getElem?_eq_some_iff.mp (List.mem_zipIdx_iff_getElem?.mp hmem)
    dsimp only at hlt hget
    rw [Bits.toNat_ofNat (hnumber _ _ hmem), ← hget, hnodup.idxOf_getElem]

variable (bitArray) in
/-- `init` accepts at least two distinct characters, whatever was set up before. -/
theorem init_over {characters : String} {chars : List Char} (codec : Codec) (hchars : characters.toList = chars)
    (hnodup : chars.Nodup) (hmin : 2 ≤ chars.length) :
    ∃ codec', init bitArray characters codec = (.ok (), codec') ∧
      codec'.bitsPerChar = Nat.log2 chars.length ∧
      codec'.Over (chars.take (2 ^ Nat.log2 chars.length)) := by
  have hne : chars.length ≠ 0 := by omega
  have hwidth : 0 < Nat.log2 chars.length := (Nat.le_log2 hne).mpr hmin
  have hlen : (chars.take (2 ^ Nat.log2 chars.length)).length = 2 ^ Nat.log2 chars.length := by
    rw [List.length_take, Nat.min_eq_left (Nat.log2_self_le hne)]
  unfold init
  dsimp only
  rw [hchars, hnodup.dedup, if_neg (not_not_intro rfl), if_neg hne, setChars_eq hwidth]
  · exact ⟨_, rfl, rfl, tables_over hwidth (hnodup.sublist (List.take_sublist ..)) hlen⟩
  · intro pair hmem
    obtain ⟨hlt, -⟩ := List.getElem?_eq_some_iff.mp (List.mem_zipIdx_iff_getElem?.mp hmem)
    rwa [hlen] at hlt

/-! ## Coding -/

theorem subscript_eq_ok {α β : Type} [DecidableEq α] {d : Dict α β} {e : α → Exn} {key : α} {value : β} :
    subscript d e key = .ok value ↔ d.lookup key = some value := by
  unfold subscript
  cases d.lookup key <;> simp

section Coding
variable {codec : Codec} {alphabet : List Char} (hover : codec.Over alphabet)
include hover

theorem Codec.Over.ne_zero : ¬ codec.bitsPerChar = 0 := Nat.ne_of_gt hover.width_pos

theorem Codec.Over.length_of_mem {chars : List Char} {ws : List (List Bool)}
    (hws : chars.mapM (subscript codec.charToBits .charKeyError) = .ok ws) :
    ∀ word ∈ ws, word.length = codec.bitsPerChar := by
  intro word hmem
  obtain ⟨char, -, hchar⟩ := exists_source_of_mem hws hmem
  exact hover.width _ _ (subscript_eq_ok.mp hchar)

theorem Codec.Over.length_flatten {s : String} {ws : List (List Bool)}
    (hws : s.toList.mapM (subscript codec.charToBits .charKeyError) = .ok ws) :
    ws.flatten.length = codec.bitsPerChar * s.length := by
  have hlen : ws.length = s.length := (mapM_eq_ok.mp hws).length_eq.symm.trans s.length_toList
  rw [List.length_flatten, List.map_congr_left (hover.length_of_mem hws), List.map_const', List.sum_replicate_nat,
    hlen, Nat.mul_comm]

/-- The text of some bytes is the one whose characters spell their bits and then less than one character of zeros. -/
theorem Codec.Over.encode_eq_ok {b : List UInt8} {s : String} :
    encode bitArray codec b = .ok s ↔ ∃ ws k,
      s.toList.mapM (subscript codec.charToBits .charKeyError) = .ok ws ∧ k < codec.bitsPerChar ∧
        ws.flatten = Bits.ofBytes b ++ List.replicate k false := by
  have hpos := hover.width_pos
  have hencode : encode bitArray codec b = .ok s ↔
      (grouper (Bits.ofBytes b) codec.bitsPerChar false).mapM (subscript codec.bitsToChar .bitsKeyError) =
        .ok s.toList := by
    unfold encode
    rw [if_neg hover.ne_zero, bitArray.bin_exact]
    cases (grouper (Bits.ofBytes b) codec.bitsPerChar false).mapM (subscript codec.bitsToChar .bitsKeyError) with
    | error e => exact ⟨nofun, nofun⟩
    | ok chars =>
      show Except.ok (String.ofList chars) = .ok s ↔ _
      rw [Except.ok.injEq, Except.ok.injEq, ← String.toList_inj, String.toList_ofList]
  rw [hencode, mapM_inverse fun bits char => (by
    rw [subscript_eq_ok, subscript_eq_ok, hover.inverse] :
      subscript codec.bitsToChar .bitsKeyError bits = .ok char ↔
        subscript codec.charToBits .charKeyError char = .ok bits)]
  -- how many words there are
  have hcount : (Bits.ofBytes b).length ≤ codec.bitsPerChar *
      (((Bits.ofBytes b).length + codec.bitsPerChar - 1) / codec.bitsPerChar) := by
    have hdiv := Nat.div_add_mod ((Bits.ofBytes b).length + codec.bitsPerChar - 1) codec.bitsPerChar
    have hmod := Nat.mod_lt ((Bits.ofBytes b).length + codec.bitsPerChar - 1) hpos
    omega
  constructor
  · intro hws
    refine ⟨_, _, hws, ?_, Bits.flatten_words _ _ _ _ hcount⟩
    have hdiv := Nat.mul_div_le ((Bits.ofBytes b).length + codec.bitsPerChar - 1) codec.bitsPerChar
    omega
  · intro h
    obtain ⟨ws, k, hws, hk, hflatten⟩ := h
    have hlen : ws.length = ((Bits.ofBytes b).length + codec.bitsPerChar - 1) / codec.bitsPerChar := by
      have htotal := congrArg List.length hflatten
      rw [hover.length_flatten hws, List.length_append, List.length_replicate] at htotal
      rw [(mapM_eq_ok.mp hws).length_eq.symm.trans s.length_toList]
      refine (Nat.div_eq_of_lt_le ?_ ?_).symm
      · rw [Nat.mul_comm]
        omega
      · rw [Nat.succ_mul s.length, Nat.mul_comm s.length]
        omega
    have hwords := Bits.words_of_flatten (hover.length_of_mem hws) hflatten hk
    rw [grouper, ← hlen, hwords, hws]

variable (bitArray) in
/-- What `decode` makes of a text over the alphabet: the bytes that its bits begin with, if only zeros follow. -/
theorem Codec.Over.decode_of_words {s : String} {ws : List (List Bool)}
    (hws : s.toList.mapM (subscript codec.charToBits .charKeyError) = .ok ws) :
    (∃ b, ws.flatten = Bits.ofBytes b ++ List.replicate (codec.bitsPerChar * s.length % 8) false ∧
      decode bitArray codec s = toBytes bitArray (Bits.ofBytes b)) ∨
    ((∃ bit ∈ ws.flatten.drop (ws.flatten.length - codec.bitsPerChar * s.length % 8), bit = true) ∧
      ∃ text, decode bitArray codec s = .error (.decodingError text)) := by
  have hlen := hover.length_flatten hws
  unfold decode
  rw [if_neg hover.ne_zero, hws]
  simp only [bind, Except.bind]
  rw [hlen]
  generalize hrest : ws.flatten.take _ = rest
  generalize htail : ws.flatten.drop _ = tail
  have hsplit : rest ++ tail = ws.flatten := by
    rw [← hrest, ← htail, List.take_append_drop]
  have hlentail : tail.length = codec.bitsPerChar * s.length % 8 := by
    rw [← htail, List.length_drop, hlen]
    omega
  have hlenrest : rest.length = 8 * (codec.bitsPerChar * s.length / 8) := by
    rw [← hsplit, List.length_append, hlentail] at hlen
    omega
  by_cases hzeros : ∀ bit ∈ tail, bit = false
  · left
    have hbytes := Bits.ofBytes_toBytes hlenrest
    have hreplicate := List.eq_replicate_iff.mpr ⟨hlentail, hzeros⟩
    refine ⟨Bits.toBytes rest, by rw [hbytes, ← hreplicate, hsplit], ?_⟩
    have hall : (!tail.all (· == false)) = false := by
      rw [Bool.not_eq_false', List.all_eq_true]
      intro bit hmem
      rw [hzeros bit hmem]
      rfl
    rw [hall, if_neg Bool.false_ne_true, hbytes]
    split
    · rfl
    · next hzero =>
      obtain rfl : tail = [] := List.eq_nil_of_length_eq_zero (by omega)
      rw [← hsplit, List.append_nil]
  · right
    obtain ⟨bit, hmem, hone⟩ : ∃ bit ∈ tail, bit = true := by simpa using hzeros
    have hany : (!tail.all (· == false)) = true := by
      rw [Bool.not_eq_true', List.all_eq_false]
      exact ⟨bit, hmem, by rw [hone]; decide⟩
    have hpos : 0 < codec.bitsPerChar * s.length % 8 := by
      rw [← hlentail]
      exact List.length_pos_of_mem hmem
    rw [if_pos hpos, if_pos hany]
    exact ⟨⟨bit, hmem, hone⟩, _, rfl⟩

variable (bitArray) in
theorem Codec.Over.exists_encode (b : List UInt8) : ∃ s, encode bitArray codec b = .ok s := by
  have hpos := hover.width_pos
  obtain ⟨chars, hchars⟩ : ∃ chars, (grouper (Bits.ofBytes b) codec.bitsPerChar false).mapM
      (subscript codec.bitsToChar .bitsKeyError) = .ok chars := by
    apply exists_mapM
    intro word hmem
    obtain ⟨char, hchar⟩ := hover.total word (Bits.length_of_mem_words hmem)
    exact ⟨char, subscript_eq_ok.mpr hchar⟩
  refine ⟨String.ofList chars, ?_⟩
  rw [encode, if_neg hover.ne_zero, bitArray.bin_exact, hchars]
  rfl

/-- What `encode` returns. -/
theorem Codec.Over.encoded {b : List UInt8} {s : String} (h : encode bitArray codec b = .ok s)
    (hwidth : codec.bitsPerChar ≤ 8) :
    (b ≠ [] → decode bitArray codec s = .ok b) ∧ s.length = 8 * b.length ⌈/⌉ codec.bitsPerChar ∧
      ∀ char ∈ s.toList, char ∈ alphabet := by
  have hpos := hover.width_pos
  obtain ⟨ws, k, hws, hk, hflatten⟩ := hover.encode_eq_ok.mp h
  have htotal := congrArg List.length hflatten
  rw [hover.length_flatten hws, List.length_append, List.length_replicate, Bits.length_ofBytes] at htotal
  refine ⟨fun hb => ?_, ?_, ?_⟩
  · -- the overhang is the filling, which is shorter than a byte
    have hoverhang : codec.bitsPerChar * s.length % 8 = k := by omega
    obtain ⟨b', hbits, hdecode⟩ | ⟨⟨bit, hmem, hone⟩, -⟩ := hover.decode_of_words bitArray hws
    · rw [hflatten, hoverhang] at hbits
      rw [hdecode, ← List.append_cancel_right hbits, toBytes, bitArray.bytes_exact b hb]
    · rw [hflatten, hoverhang, List.length_append, List.length_replicate, Nat.add_sub_cancel,
        List.drop_left] at hmem
      rw [List.eq_of_mem_replicate hmem] at hone
      cases hone
  · rw [Nat.ceilDiv_eq_add_pred_div]
    refine (Nat.div_eq_of_lt_le ?_ ?_).symm
    · rw [Nat.mul_comm]
      omega
    · rw [Nat.succ_mul s.length, Nat.mul_comm s.length]
      omega
  · intro char hmem
    obtain ⟨word, -, hchar⟩ := exists_result_of_mem hws hmem
    exact (hover.mem _).mp ⟨_, subscript_eq_ok.mp hchar⟩

end Coding

/-! ## Main result -/

/-- With an alphabet of at least two and fewer than 512 distinct characters, of which as many as there are words of
`bits_per_char` bits are used, non-empty bytes are encoded in the fewest characters that hold them, and decoded again. -/
theorem encode_round_trips (bitArray : BitArray) (characters : String) (codec : Codec)
    (hnodup : characters.toList.Nodup) (hmin : 2 ≤ characters.length) (hmax : characters.length < 512) :
    ∃ codec', init bitArray characters codec = (.ok (), codec') ∧
      1 ≤ codec'.bitsPerChar ∧ codec'.bitsPerChar ≤ 8 ∧ 2 ^ codec'.bitsPerChar ≤ characters.length ∧
      characters.length < 2 ^ (codec'.bitsPerChar + 1) ∧
      ∀ b ≠ [], ∃ s, encode bitArray codec' b = .ok s ∧ decode bitArray codec' s = .ok b ∧
        s.length = 8 * b.length ⌈/⌉ codec'.bitsPerChar ∧
        ∀ char ∈ s.toList, char ∈ characters.toList.take (2 ^ codec'.bitsPerChar) := by
  have hlen : characters.toList.length = characters.length := characters.length_toList
  have hne : characters.length ≠ 0 := by omega
  obtain ⟨codec', hinit, hwidth, hover⟩ := init_over bitArray codec rfl hnodup (hlen ▸ hmin)
  rw [hlen] at hwidth
  rw [hlen, ← hwidth] at hover
  have hle : codec'.bitsPerChar ≤ 8 := by
    rw [hwidth]
    exact Nat.le_of_lt_succ ((Nat.log2_lt hne).mpr hmax)
  refine ⟨codec', hinit, hover.width_pos, hle, ?_, ?_, fun b hb => ?_⟩
  · rw [hwidth]
    exact Nat.log2_self_le hne
  · rw [hwidth]
    exact Nat.lt_log2_self
  obtain ⟨s, hs⟩ := hover.exists_encode bitArray b
  obtain ⟨hdecode, hlength, halphabet⟩ := hover.encoded hs hle
  exact ⟨s, hs, hdecode hb, hlength, halphabet⟩

/-- Two bits to a character. -/
theorem encode_round_trips_digits : ∃ codec, init .standard "0123" .reset = (.ok (), codec) ∧
    1 ≤ codec.bitsPerChar ∧ codec.bitsPerChar ≤ 8 ∧ 2 ^ codec.bitsPerChar ≤ "0123".length ∧
      "0123".length < 2 ^ (codec.bitsPerChar + 1) ∧
      ∀ b ≠ [], ∃ s, encode .standard codec b = .ok s ∧ decode .standard codec s = .ok b ∧
        s.length = 8 * b.length ⌈/⌉ codec.bitsPerChar ∧
        ∀ char ∈ s.toList, char ∈ "0123".toList.take (2 ^ codec.bitsPerChar) :=
  encode_round_trips .standard "0123" .reset (by decide) (by decide) (by decide)

end Freeshard.HumanEncoding

import Mathlib.Algebra.Order.Ring.Nat
import Mathlib.Data.List.Induction
import Mathlib.Tactic.Common
import Mathlib.Tactic.Ring

/-! # Bit words

Bit strings, most significant bit first: numbers as words of a fixed width, bytes as words of eight bits, and a string
cut into words of one width, the last one filled up. -/

namespace Bits
set_option autoImplicit false

/-! ## Numbers -/

/-- The lowest `width` bits of a number. -/
def ofNat : ℕ → ℕ → List Bool
  | 0, _ => []
  | width + 1, n => ofNat width (n / 2) ++ [n % 2 == 1]

/-- The number that a bit string stands for. -/
def toNat (bits : List Bool) : ℕ := bits.foldl (fun n bit => 2 * n + bit.toNat) 0

@[simp] theorem length_ofNat (width n : ℕ) : (ofNat width n).length = width := by
  induction width generalizing n with
  | zero => rfl
  | succ width ih => rw [ofNat, List.length_append, ih, List.length_singleton]

theorem toNat_concat (bits : List Bool) (bit : Bool) :
    toNat (bits ++ [bit]) = 2 * toNat bits + bit.toNat := List.foldl_append ..

theorem toNat_append (bits bits' : List Bool) :
    toNat (bits ++ bits') = 2 ^ bits'.length * toNat bits + toNat bits' := by
  induction bits' using List.reverseRecOn with
  | nil => simp [toNat]
  | append_singleton bits' bit ih =>
    rw [← List.append_assoc, toNat_concat, toNat_concat, ih, List.length_append, List.length_singleton, pow_succ]
    ring

theorem toNat_ofNat {width n : ℕ} (h : n < 2 ^ width) : toNat (ofNat width n) = n := by
  induction width generalizing n with
  | zero =>
    obtain rfl : n = 0 := by simpa using h
    rfl
  | succ width ih =>
    have hhalf : n / 2 < 2 ^ width := by
      rw [pow_succ] at h
      omega
    rw [ofNat, toNat_concat, ih hhalf]
    obtain hbit | hbit := Nat.mod_two_eq_zero_or_one n
    · rw [hbit]
      show 2 * (n / 2) + 0 = n
      omega
    · rw [hbit]
      show 2 * (n / 2) + 1 = n
      omega

theorem toNat_lt (bits : List Bool) : toNat bits < 2 ^ bits.length := by
  induction bits using List.reverseRecOn with
  | nil => exact Nat.one_pos
  | append_singleton bits bit ih =>
    rw [toNat_concat, List.length_append, List.length_singleton, pow_succ]
    have hbit := bit.toNat_le
    omega

theorem ofNat_toNat (bits : List Bool) : ofNat bits.length (toNat bits) = bits := by
  induction bits using List.reverseRecOn with
  | nil => rfl
  | append_singleton bits bit ih =>
    have hlast : (toNat (bits ++ [bit]) % 2 == 1) = bit := by
      rw [toNat_concat, Nat.mul_add_mod]
      cases bit <;> rfl
    have hinit : toNat (bits ++ [bit]) / 2 = toNat bits := by
      rw [toNat_concat]
      have hbit := bit.toNat_lt
      omega
    rw [List.length_append, List.length_singleton, ofNat, hinit, hlast, ih]

theorem ofNat_injective {width n m : ℕ} (hn : n < 2 ^ width) (hm : m < 2 ^ width)
    (h : ofNat width n = ofNat width m) : n = m := by
  rw [← toNat_ofNat hn, ← toNat_ofNat hm, h]

theorem toNat_eq_zero {bits : List Bool} : toNat bits = 0 ↔ ∀ bit ∈ bits, bit = false := by
  induction bits using List.reverseRecOn with
  | nil => simp [toNat]
  | append_singleton bits bit ih =>
    rw [toNat_concat, Nat.add_eq_zero_iff, List.forall_mem_append, List.forall_mem_singleton, ← ih]
    cases bit <;> simp

/-- The last bits stand for the remainder. -/
theorem toNat_append_mod (bits bits' : List Bool) :
    toNat (bits ++ bits') % 2 ^ bits'.length = toNat bits' := by
  rw [toNat_append, Nat.mul_add_mod, Nat.mod_eq_of_lt (toNat_lt bits')]

/-! ## Bytes -/

/-- The bits of a byte string. -/
def ofBytes (bytes : List UInt8) : List Bool := bytes.flatMap fun byte => ofNat 8 byte.toNat

theorem ofBytes_cons (byte : UInt8) (bytes : List UInt8) :
    ofBytes (byte :: bytes) = ofNat 8 byte.toNat ++ ofBytes bytes := List.flatMap_cons

@[simp] theorem length_ofBytes (bytes : List UInt8) : (ofBytes bytes).length = 8 * bytes.length := by
  induction bytes with
  | nil => rfl
  | cons byte bytes ih =>
    rw [ofBytes_cons, List.length_append, length_ofNat, ih, List.length_cons]
    omega

/-! ## Words of one width -/

variable {α : Type}

/-- The next so many words of a string, the last one filled up. -/
def words (width : ℕ) (fill : α) : ℕ → List α → List (List α)
  | 0, _ => []
  | count + 1, l =>
    (l.take width ++ List.replicate (width - l.length) fill) :: words width fill count (l.drop width)

theorem length_of_mem_words {width : ℕ} {fill : α} {count : ℕ} {l word : List α}
    (h : word ∈ words width fill count l) : word.length = width := by
  induction count generalizing l with
  | zero => cases h
  | succ count ih =>
    obtain rfl | h := List.mem_cons.mp h
    · rw [List.length_append, List.length_take, List.length_replicate]
      omega
    · exact ih h

/-- Words of one width that spell a string and then less than a word of filling are its words. -/
theorem words_of_flatten {width : ℕ} {fill : α} {ws : List (List α)} {l : List α} {k : ℕ}
    (hwidth : ∀ word ∈ ws, word.length = width) (h : ws.flatten = l ++ List.replicate k fill)
    (hk : k < width) : words width fill ws.length l = ws := by
  induction ws generalizing l with
  | nil => rfl
  | cons word ws ih =>
    have hlen : word.length = width := hwidth word List.mem_cons_self
    rw [List.flatten_cons] at h
    have htotal := congrArg List.length h
    rw [List.length_append, List.length_append, List.length_replicate, hlen] at htotal
    have htake : word = (l ++ List.replicate k fill).take width := by
      rw [← h, ← hlen, List.take_left]
    have hdrop : ws.flatten = (l ++ List.replicate k fill).drop width := by
      rw [← h, ← hlen, List.drop_left]
    have hfirst : l.take width ++ List.replicate (width - l.length) fill = word := by
      rw [htake, List.take_append, List.take_replicate]
      congr 2
      omega
    rw [List.length_cons, words, hfirst]
    congr 1
    cases ws with
    | nil => rfl
    | cons word' ws =>
      -- the filling begins after the first word
      have hlong : width ≤ l.length := by
        have hlen' := hwidth word' (List.mem_cons_of_mem _ List.mem_cons_self)
        rw [List.flatten_cons, List.length_append, hlen'] at htotal
        omega
      refine ih (fun word hmem => hwidth word (List.mem_cons_of_mem _ hmem)) ?_
      rw [hdrop, List.drop_append_of_le_length hlong]

/-- Enough words spell the string and then filling. -/
theorem flatten_words (width : ℕ) (fill : α) (count : ℕ) (l : List α) (h : l.length ≤ width * count) :
    (words width fill count l).flatten = l ++ List.replicate (width * count - l.length) fill := by
  induction count generalizing l with
  | zero =>
    obtain rfl : l = [] := List.eq_nil_of_length_eq_zero (by omega)
    rfl
  | succ count ih =>
    have hrest : (l.drop width).length ≤ width * count := by
      rw [List.length_drop]
      rw [Nat.mul_succ] at h
      omega
    rw [words, List.flatten_cons, ih _ hrest, List.length_drop]
    obtain hlong | hshort := Nat.le_total width l.length
    · rw [Nat.sub_eq_zero_of_le hlong, List.replicate_zero, List.append_nil, ← List.append_assoc,
        List.take_append_drop]
      congr 2
      rw [Nat.mul_succ]
      omega
    · rw [List.take_of_length_le hshort, List.drop_of_length_le hshort, List.nil_append, List.append_assoc,
        List.replicate_append_replicate]
      congr 2
      rw [Nat.mul_succ]
      omega

/-! ## Bytes from words -/

/-- The bytes that a string of whole bytes spells. -/
def toBytes (bits : List Bool) : List UInt8 :=
  (words 8 false (bits.length / 8) bits).map fun word => UInt8.ofNat (toNat word)

theorem toBytes_ofBytes (bytes : List UInt8) : toBytes (ofBytes bytes) = bytes := by
  have hwords : words 8 false bytes.length (ofBytes bytes) = bytes.map fun byte => ofNat 8 byte.toNat := by
    have hflatten : (bytes.map fun byte => ofNat 8 byte.toNat).flatten =
        ofBytes bytes ++ List.replicate 0 false := by
      rw [List.replicate_zero, List.append_nil, ofBytes, List.flatMap_def]
    have hwords := @words_of_flatten _ 8 _ _ _ _ (fun word hmem => ?_) hflatten (by omega)
    · rwa [List.length_map] at hwords
    · obtain ⟨byte, -, rfl⟩ := List.mem_map.mp hmem
      exact length_ofNat 8 byte.toNat
  rw [toBytes, length_ofBytes, Nat.mul_div_cancel_left _ (by omega), hwords, List.map_map]
  conv_rhs => rw [← List.map_id bytes]
  apply List.map_congr_left
  intro byte _
  rw [Function.comp_apply, toNat_ofNat byte.toNat_lt, UInt8.ofNat_toNat]
  rfl

theorem ofBytes_toBytes {bits : List Bool} {count : ℕ} (h : bits.length = 8 * count) :
    ofBytes (toBytes bits) = bits := by
  have hcount : bits.length / 8 = count := by omega
  have hflatten := flatten_words 8 false count bits (Nat.le_of_eq h)
  rw [h, Nat.sub_self, List.replicate_zero, List.append_nil] at hflatten
  conv_rhs => rw [← hflatten]
  rw [toBytes, hcount, ofBytes, List.flatMap_map, List.flatMap_def]
  congr 1
  conv_rhs => rw [← List.map_id (words 8 false count bits)]
  apply List.map_congr_left
  intro word hmem
  have hlen := length_of_mem_words hmem
  have hlt : toNat word < 2 ^ 8 := by
    have hlt := toNat_lt word
    rwa [hlen] at hlt
  have hround := ofNat_toNat word
  rw [hlen] at hround
  rw [UInt8.toNat_ofNat_of_lt' hlt, hround]
  rfl

end Bits

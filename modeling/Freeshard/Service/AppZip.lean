import Mathlib.Tactic.Common

/-! # App names

`APP_NAME_PATTERN` of `service/app_installation/app_zip.py`, which the name in an archive's `app_meta.json` has
to match in full. -/

namespace Freeshard
set_option autoImplicit false

/-- `[a-zA-Z0-9]`. -/
def isNameStart (c : Char) : Bool :=
  ('a' ≤ c && c ≤ 'z') || ('A' ≤ c && c ≤ 'Z') || ('0' ≤ c && c ≤ '9')

/-- `[a-zA-Z0-9_-]`. -/
def isNameChar (c : Char) : Bool := isNameStart c || c == '_' || c == '-'

/-- `[a-zA-Z0-9][a-zA-Z0-9_-]{0,63}`. -/
def appNamePattern (name : String) : Bool :=
  match name.toList with
  | [] => false
  | c :: rest => isNameStart c && rest.all isNameChar && rest.length ≤ 63

theorem appNamePattern_chars {name : String} (h : appNamePattern name = true) :
    ∀ c ∈ name.toList, isNameChar c = true := by
  unfold appNamePattern at h
  split at h
  · cases h
  · next c rest hname =>
    simp only [Bool.and_eq_true, decide_eq_true_eq] at h
    rw [hname]
    intro d hd
    obtain rfl | hd := List.mem_cons.mp hd
    · rw [isNameChar, h.1.1]
      rfl
    · exact List.all_eq_true.mp h.1.2 d hd

theorem appNamePattern_head {name : String} (h : appNamePattern name = true) :
    ∃ c rest, name.toList = c :: rest ∧ isNameStart c = true := by
  unfold appNamePattern at h
  split at h
  · cases h
  · next c rest hname =>
    simp only [Bool.and_eq_true, decide_eq_true_eq] at h
    exact ⟨c, rest, hname, h.1.1⟩

theorem toNat_lt_of_isNameChar {c : Char} (h : isNameChar c = true) : c.toNat < 128 := by
  simp only [isNameChar, isNameStart, Bool.or_eq_true, Bool.and_eq_true, decide_eq_true_eq,
    beq_iff_eq] at h
  obtain (((⟨-, h⟩ | ⟨-, h⟩) | ⟨-, h⟩) | rfl) | rfl := h
  · exact Nat.lt_of_le_of_lt h (by decide)
  · exact Nat.lt_of_le_of_lt h (by decide)
  · exact Nat.lt_of_le_of_lt h (by decide)
  · decide
  · decide

/-- What holds of every ASCII character that names may contain holds of all their characters. -/
theorem isNameChar_forall {P : Char → Bool}
    (h : ∀ n < 128, isNameChar (Char.ofNat n) = true → P (Char.ofNat n) = true) {c : Char}
    (hc : isNameChar c = true) : P c = true := by
  have hn := h c.toNat (toNat_lt_of_isNameChar hc)
  rw [Char.ofNat_toNat] at hn
  exact hn hc

end Freeshard

import Mathlib.Data.List.DropRight
import Mathlib.Tactic.Common

/-! # White space

`str.split()` and `str.strip()` of Python. -/

namespace Text
set_option autoImplicit false

/-- `str.isspace` of one character. -/
def isSpace (c : Char) : Bool :=
  (9 ≤ c.toNat && c.toNat ≤ 13) || (28 ≤ c.toNat && c.toNat ≤ 32) || c.toNat == 0x85 || c.toNat == 0xa0 ||
    c.toNat == 0x1680 || (0x2000 ≤ c.toNat && c.toNat ≤ 0x200a) || c.toNat == 0x2028 || c.toNat == 0x2029 ||
    c.toNat == 0x202f || c.toNat == 0x205f || c.toNat == 0x3000

/-- The words of a text, in characters. -/
def words (text : List Char) : List (List Char) := (text.splitOnP isSpace).filter (!·.isEmpty)

/-- `text.split()`. -/
def split (text : String) : List String := (words text.toList).map String.ofList

/-- `text.strip()`. -/
def strip (text : String) : String := String.ofList ((text.toList.dropWhile isSpace).rdropWhile isSpace)

/-- Nonempty and without white space. -/
def IsWord (text : List Char) : Prop := text ≠ [] ∧ ∀ c ∈ text, isSpace c = false

instance (text : List Char) : Decidable (IsWord text) :=
  decidable_of_iff (text ≠ [] ∧ (text.all fun c => !isSpace c) = true) (by simp [IsWord])

theorem IsWord.append {text text' : List Char} (h : IsWord text) (h' : IsWord text') : IsWord (text ++ text') := by
  refine ⟨List.append_ne_nil_of_left_ne_nil h.1 _, fun c hc => ?_⟩
  obtain hc | hc := List.mem_append.mp hc
  · exact h.2 c hc
  · exact h'.2 c hc

theorem words_of_isWord {text : List Char} (h : IsWord text) : words text = [text] := by
  rw [words, List.splitOnP_eq_singleton h.2, List.filter_cons_of_pos, List.filter_nil]
  simpa using h.1

/-- White space separates. -/
theorem words_append_cons (text rest : List Char) {c : Char} (hc : isSpace c = true) :
    words (text ++ c :: rest) = words text ++ words rest := by
  rw [words, List.splitOnP_append_cons text rest hc, List.filter_append, words, words]

theorem words_word_cons {text : List Char} (h : IsWord text) (rest : List Char) {c : Char}
    (hc : isSpace c = true) : words (text ++ c :: rest) = text :: words rest := by
  rw [words_append_cons text rest hc, words_of_isWord h, List.singleton_append]

theorem words_nil : words [] = [] := rfl

/-- Words that are joined by white space are found again. -/
theorem words_intercalate {c : Char} (hc : isSpace c = true) {texts : List (List Char)}
    (h : ∀ text ∈ texts, IsWord text) : words ([c].intercalate texts) = texts := by
  induction texts with
  | nil => rfl
  | cons text texts ih =>
    have hword := h text List.mem_cons_self
    have hrest := ih fun text' hmem => h text' (List.mem_cons_of_mem _ hmem)
    cases texts with
    | nil => simpa using words_of_isWord hword
    | cons text' texts =>
      rw [List.intercalate_cons_cons, List.append_assoc, List.singleton_append, words_word_cons hword _ hc, hrest]

end Text

import Mathlib.Data.List.Basic
import Mathlib.Tactic.Common

/-! # Searching in texts

What regular expressions made of literals, `.*?` and repeated character classes find. A matcher says what is captured at
the beginning of a text. The classes that are repeated here do not contain the character that follows, so a repetition
never gives back what it has taken. -/

namespace Text
set_option autoImplicit false

abbrev Matcher (α : Type) : Type := List Char → Option α

variable {α : Type}

/-- The literal, then `m`. -/
def literal (text : List Char) (m : Matcher α) : Matcher α := fun s =>
  if text.isPrefixOf s then m (s.drop text.length) else none

/-- `.*?`, then `m`: the nearest match within the line. -/
def lazily (m : Matcher α) : Matcher α
  | [] => m []
  | c :: s =>
    match m (c :: s) with
    | some a => some a
    | none => if c = '\n' then none else lazily m s

/-- At least one character of the class, then `m`, which gets what has been taken. -/
def some1 (p : Char → Bool) (m : List Char → Matcher α) : Matcher α := fun s =>
  if s.takeWhile p = [] then none else m (s.takeWhile p) (s.dropWhile p)

/-- `re.search`: the first match. -/
def search (m : Matcher α) : Matcher α
  | [] => m []
  | c :: s =>
    match m (c :: s) with
    | some a => some a
    | none => search m s

/-- `re.search` of `^` and `m` with `re.MULTILINE`; `bol` says whether the text is the beginning of a line. -/
def searchLines (m : Matcher α) (bol : Bool) : Matcher α
  | [] => if bol then m [] else none
  | c :: s =>
    match if bol then m (c :: s) else none with
    | some a => some a
    | none => searchLines m (c = '\n') s

/-! ## Matchers -/

variable {m : Matcher α} {text s : List Char} {a : α}

@[simp] theorem literal_append (text s : List Char) (m : Matcher α) : literal text m (text ++ s) = m s := by
  simp [literal, List.isPrefixOf_iff_prefix]

theorem literal_eq_none (h : ¬ text <+: s) : literal text m s = none := by
  rw [literal, if_neg (by rwa [List.isPrefixOf_iff_prefix])]

theorem some1_append {p : Char → Bool} {m : List Char → Matcher α} (hne : text ≠ []) (htext : ∀ c ∈ text, p c = true)
    (hs : ∀ c ∈ s.head?, p c = false) : some1 p m (text ++ s) = m text s := by
  have htake : (text ++ s).takeWhile p = text := by
    rw [List.takeWhile_append_of_pos htext]
    cases s with
    | nil => simp
    | cons c s => simp [hs c rfl]
  have hdrop : (text ++ s).dropWhile p = s := by
    rw [List.dropWhile_append_of_pos htext]
    cases s with
    | nil => rfl
    | cons c s => simp [hs c rfl]
  rw [some1, htake, hdrop, if_neg hne]

theorem lazily_of_some (h : m s = some a) : lazily m s = some a := by
  cases s with
  | nil => exact h
  | cons c s => rw [lazily, h]

theorem lazily_cons {c : Char} (h : m (c :: s) = none) (hc : c ≠ '\n') : lazily m (c :: s) = lazily m s := by
  rw [lazily, h]
  exact if_neg hc

/-! ## Searches -/

theorem search_of_some (h : m s = some a) : search m s = some a := by
  cases s with
  | nil => exact h
  | cons c s => rw [search, h]

/-- A text without the first character of the literal. -/
theorem search_literal_eq_none {c : Char} (h : c ∉ s) : search (literal (c :: text) m) s = none := by
  have hnone : ∀ s : List Char, c ∉ s → literal (c :: text) m s = none := fun s hs =>
    literal_eq_none fun hstart => hs (hstart.subset List.mem_cons_self)
  induction s with
  | nil => exact hnone [] h
  | cons d s ih =>
    rw [search, hnone _ h]
    exact ih fun hmem => h (List.mem_cons_of_mem _ hmem)

theorem searchLines_of_some (h : m s = some a) : searchLines m true s = some a := by
  cases s with
  | nil => exact h
  | cons c s =>
    rw [searchLines, if_pos rfl, h]

/-- Within a line nothing is found. -/
theorem searchLines_rest {line rest : List Char} (hline : '\n' ∉ line) :
    searchLines m false (line ++ '\n' :: rest) = searchLines m true rest := by
  induction line with
  | nil => simp [searchLines]
  | cons c line ih =>
    have hc : c ≠ '\n' := fun heq => hline (heq ▸ List.mem_cons_self)
    rw [List.cons_append, searchLines]
    simp only [Bool.false_eq_true, if_false, hc, decide_false]
    exact ih fun hmem => hline (List.mem_cons_of_mem _ hmem)

/-- A line that does not match is skipped. -/
theorem searchLines_skip {line rest : List Char} (hline : '\n' ∉ line) (h : m (line ++ '\n' :: rest) = none) :
    searchLines m true (line ++ '\n' :: rest) = searchLines m true rest := by
  cases line with
  | nil =>
    rw [List.nil_append] at h ⊢
    rw [searchLines, if_pos rfl, h]
    simp
  | cons c line =>
    have hc : c ≠ '\n' := fun heq => hline (heq ▸ List.mem_cons_self)
    rw [List.cons_append] at h ⊢
    rw [searchLines, if_pos rfl, h]
    simp only [hc, decide_false]
    exact searchLines_rest fun hmem => hline (List.mem_cons_of_mem _ hmem)

end Text

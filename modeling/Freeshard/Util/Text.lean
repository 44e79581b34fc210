import Mathlib.Data.List.Basic
import Mathlib.Tactic.Common

/-! # Strings

The string methods the code uses, by the characters of a string. -/

namespace Freeshard
set_option autoImplicit false

/-- `text.startswith(start)`. -/
def startsWith (text start : String) : Bool := start.toList.isPrefixOf text.toList

/-- `text.split(separator)[0]`. -/
def firstPart (separator : Char) (text : String) : String :=
  String.ofList (text.toList.takeWhile (· != separator))

/-- `text.lower()`, of ASCII text. -/
def lower (text : String) : String := String.ofList (text.toList.map Char.toLower)

theorem startsWith_trans {a b c : String} (hab : startsWith a b = true)
    (hbc : startsWith b c = true) : startsWith a c = true := by
  unfold startsWith at *
  rw [List.isPrefixOf_iff_prefix] at *
  exact hbc.trans hab

theorem startsWith_of_length_le {text a b : String} (ha : startsWith text a = true)
    (hb : startsWith text b = true) (hlen : a.length ≤ b.length) : startsWith b a = true := by
  unfold startsWith at *
  rw [List.isPrefixOf_iff_prefix] at *
  exact List.prefix_of_prefix_length_le ha hb (by rwa [String.length_toList, String.length_toList])

theorem startsWith_unique {text a b : String} (ha : startsWith text a = true)
    (hb : startsWith text b = true) (hlen : a.length = b.length) : a = b := by
  have h := startsWith_of_length_le ha hb (Nat.le_of_eq hlen)
  unfold startsWith at h
  rw [List.isPrefixOf_iff_prefix] at h
  exact String.ext (h.eq_of_length (by rwa [String.length_toList, String.length_toList]))

/-! ## Case -/

/-- The case properties and full mappings of the Unicode version at hand. -/
structure CaseTables where
  isCased : Char → Bool
  isCaseIgnorable : Char → Bool
  toTitleFull : Char → List Char
  toLowerFull : Char → List Char

namespace CaseTables
variable (tables : CaseTables)

/-- A capital sigma ends a word: a cased character stands before it and none after it, leaving out ignorable ones.
The characters before are given in reverse. -/
def finalSigma (before after : List Char) : Bool :=
  (before.find? fun c => !tables.isCaseIgnorable c).any tables.isCased &&
    !(after.find? fun c => !tables.isCaseIgnorable c).any tables.isCased

def lowerChar (before : List Char) (c : Char) (after : List Char) : List Char :=
  if c = 'Σ' then (if tables.finalSigma before after then ['ς'] else ['σ']) else tables.toLowerFull c

def titleFrom (before : List Char) : List Char → List Char
  | [] => []
  | c :: after =>
    (if before.head?.any tables.isCased then tables.lowerChar before c after else tables.toTitleFull c) ++
      titleFrom (c :: before) after

/-- `text.title()`. -/
def title (text : String) : String := String.ofList (tables.titleFrom [] text.toList)

/-- The tables of ASCII. -/
def ascii : CaseTables where
  isCased := Char.isAlpha
  isCaseIgnorable c := [39, 46, 58, 94, 96].contains c.toNat
  toTitleFull c := [c.toUpper]
  toLowerFull c := [c.toLower]

end CaseTables

end Freeshard

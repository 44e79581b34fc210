import Mathlib.Data.List.Basic
import Mathlib.Data.List.Infix
import Mathlib.Tactic.Common

/-! # Shell patterns

Patterns of one path component as the module `fnmatch` of Python translates them: `*`, `?` and sets in brackets. -/

namespace Fnmatch
set_option autoImplicit false

/-! ## Matching -/

inductive Item where
  | star
  | one (test : Char → Bool)

def matchItems : List Item → List Char → Bool
  | [], name => name.isEmpty
  | .star :: items, name => name.tails.any (matchItems items)
  | .one test :: items, c :: name => test c && matchItems items name
  | .one _ :: _, [] => false

/-! ## Sets -/

/-- What stands in the brackets, and what follows them; `]` closes a set only behind its first character. -/
def closing (rest : List Char) : Option (List Char × List Char) :=
  let negation := if rest.head? = some '!' then 1 else 0
  let skip := if (rest.drop negation).head? = some ']' then negation + 1 else negation
  match (rest.drop skip).span (· ≠ ']') with
  | (inner, _ :: after) => some (rest.take skip ++ inner, after)
  | (_, []) => none

/-- The parts between the hyphens of ranges: the first `skip` characters of a part are no such hyphen. -/
def chunks : ℕ → List Char → List Char → List (List Char)
  | _, chunk, [] => [chunk]
  | 0, chunk, '-' :: rest => chunk :: chunks 2 [] rest
  | 0, chunk, c :: rest => chunks 0 (chunk ++ [c]) rest
  | skip + 1, chunk, c :: rest => chunks skip (chunk ++ [c]) rest

/-- A hyphen at the end stands for itself. -/
def closeHyphen : List (List Char) → List (List Char)
  | [chunk, []] => [chunk ++ ['-']]
  | chunk :: more => chunk :: closeHyphen more
  | [] => []

/-- Empty ranges are left out, from the right on. -/
def dropEmptyRanges : List (List Char) → List (List Char)
  | [] => []
  | chunk :: more =>
    match dropEmptyRanges more with
    | [] => [chunk]
    | next :: rest =>
      match chunk.getLast?, next.head? with
      | some low, some high => if high < low then (chunk.dropLast ++ next.tail) :: rest else chunk :: next :: rest
      | _, _ => chunk :: next :: rest

/-- The character is in a part or in the range between two of them. -/
def inSet (c : Char) : List (List Char) → Bool
  | [] => false
  | [chunk] => chunk.contains c
  | chunk :: next :: rest =>
    chunk.contains c || (chunk.getLast?.any (· ≤ c) && next.head?.any (c ≤ ·)) || inSet c (next :: rest)

/-- The set that stands in brackets. An empty one matches nothing, a negated empty one everything. -/
def testOf (inner : List Char) : Char → Bool :=
  let skip := if inner.head? = some '!' then 2 else 1
  match dropEmptyRanges (closeHyphen (chunks skip [] inner)) with
  | [[]] => fun _ => false
  | [['!']] => fun _ => true
  -- the hyphen behind the negation begins no range
  | ['!'] :: rest => fun c => !(c == '-' || inSet c rest)
  | ('!' :: chunk) :: rest => fun c => !inSet c (chunk :: rest)
  | parts => fun c => inSet c parts

/-! ## Patterns -/

/-- Every step takes a character at least, so that the length of the pattern is fuel enough. -/
def translateFrom : ℕ → List Char → List Item
  | 0, _ => []
  | _, [] => []
  | fuel + 1, '*' :: rest => .star :: translateFrom fuel rest
  | fuel + 1, '?' :: rest => .one (fun _ => true) :: translateFrom fuel rest
  | fuel + 1, '[' :: rest =>
    match closing rest with
    | none => .one (· == '[') :: translateFrom fuel rest
    | some (inner, after) => .one (testOf inner) :: translateFrom fuel after
  | fuel + 1, c :: rest => .one (· == c) :: translateFrom fuel rest

def translate (pattern : String) : List Item := translateFrom pattern.toList.length pattern.toList

/-- The name matches the pattern. -/
def fnmatch (name pattern : String) : Bool := matchItems (translate pattern) name.toList

/-- No character has a special meaning. -/
def Plain (text : String) : Prop := ∀ c ∈ text.toList, c ≠ '*' ∧ c ≠ '?' ∧ c ≠ '['

example : fnmatch "foobar.png" "[!a-e]o?*" = true := by decide

end Fnmatch

import Mathlib.Data.List.Basic
import Mathlib.Tactic.Common

/-! # Paths

Paths as texts, as lists of components, and the places they denote once `..` and symbolic links are resolved. -/

namespace Posix
set_option autoImplicit false

/-! ## Texts and components -/

/-- A path: whether it starts at the root, and its components, without empty ones and `.`. -/
structure Path where
  absolute : Bool
  parts : List String
  deriving DecidableEq, Repr

namespace Path

/-- The path that a text stands for. -/
def parse (text : String) : Path where
  absolute := text.toList.head? == some '/'
  parts := ((text.toList.splitOn '/').map String.ofList).filter fun part => part != "" && part != "."

/-- The last component. -/
def name (path : Path) : String := path.parts.getLast?.getD ""

/-- The second path, as seen from the first one. -/
def join (path path' : Path) : Path :=
  if path'.absolute then path' else ⟨path.absolute, path.parts ++ path'.parts⟩

/-- The path as seen from the other one; `none` unless it lies at or below it. -/
def relativeTo (path root : Path) : Option Path :=
  if path.absolute = root.absolute ∧ root.parts <+: path.parts then
    some ⟨false, path.parts.drop root.parts.length⟩
  else none

/-- The text that stands for a path. -/
def text (path : Path) : String :=
  if path.absolute then "/" ++ "/".intercalate path.parts
  else if path.parts = [] then "." else "/".intercalate path.parts

theorem parse_empty : parse "" = ⟨false, []⟩ := by decide

end Path

/-! ## Places -/

/-- A place in the file system, by the names on the way to it from the root. -/
abbrev Location : Type := List String

/-- The place lies strictly below the other one. -/
def Below (location root : Location) : Prop := root <+: location ∧ location ≠ root

instance (location root : Location) : Decidable (Below location root) := inferInstanceAs (Decidable (_ ∧ _))

theorem not_below_self (location : Location) : ¬ Below location location := fun h => h.2 rfl

/-- A place on the way to a place below a root is on the way to the root, or below it. -/
theorem Below.prefix_cases {location location' root : Location} (h : Below location root)
    (hpre : location' <+: location) : location' <+: root ∨ Below location' root := by
  by_cases hroot : location' <+: root
  · exact .inl hroot
  · obtain hpre' | hpre' := List.prefix_or_prefix_of_prefix hpre h.1
    · exact absurd hpre' hroot
    · refine .inr ⟨hpre', ?_⟩
      rintro rfl
      exact hroot (List.prefix_refl _)

/-! ## Symbolic links -/

/-- Follow a path from a place; `follow` goes on behind a link. -/
def walk (links : Location → Option String) (follow : Location → List String → Option Location) :
    Location → List String → Option Location
  | location, [] => some location
  | location, part :: rest =>
    if part = ".." then walk links follow location.dropLast rest
    else
      match links (location ++ [part]) with
      | none => walk links follow (location ++ [part]) rest
      | some text =>
        let target := Path.parse text
        follow (if target.absolute then [] else location) (target.parts ++ rest)

/-- Follow a path with at most so many links on the way. -/
def follow (links : Location → Option String) : ℕ → Location → List String → Option Location
  | 0 => walk links fun _ _ => none
  | n + 1 => walk links (follow links n)

/-- There is no link on the way to a place. -/
def Real (links : Location → Option String) (location : Location) : Prop :=
  ∀ place part, place ++ [part] <+: location → links (place ++ [part]) = none

theorem real_nil (links : Location → Option String) : Real links [] := by
  intro place part h
  have hnil : place ++ [part] = [] := List.prefix_nil.mp h
  simp at hnil

theorem Real.of_prefix {links : Location → Option String} {location location' : Location}
    (h : Real links location) (hpre : location' <+: location) : Real links location' :=
  fun place part hplace => h place part (hplace.trans hpre)

theorem Real.concat {links : Location → Option String} {location : Location} {part : String}
    (h : Real links location) (hlink : links (location ++ [part]) = none) :
    Real links (location ++ [part]) := by
  intro place part' hpre
  obtain heq | hpre := List.prefix_concat_iff.mp hpre
  · rw [heq]
    exact hlink
  · exact h place part' hpre

/-- What `follow` has to promise for the places where paths end. -/
theorem walk_real {links : Location → Option String} {follow : Location → List String → Option Location}
    (hfollow : ∀ location parts location', Real links location → follow location parts = some location' →
      Real links location')
    {location location' : Location} {parts : List String} (hreal : Real links location)
    (h : walk links follow location parts = some location') : Real links location' := by
  induction parts generalizing location with
  | nil =>
    obtain rfl := Option.some.inj h
    exact hreal
  | cons part rest ih =>
    unfold walk at h
    split at h
    · exact ih (hreal.of_prefix (List.dropLast_prefix _)) h
    · split at h
      · next hlink => exact ih (hreal.concat hlink) h
      · next text _ =>
        refine hfollow _ _ _ ?_ h
        split
        · exact real_nil links
        · exact hreal

/-- A path that has been resolved has no links on the way. -/
theorem follow_real {links : Location → Option String} {n : ℕ} {location location' : Location}
    {parts : List String} (hreal : Real links location)
    (h : follow links n location parts = some location') : Real links location' := by
  induction n generalizing location location' parts with
  | zero => exact walk_real (fun _ _ _ _ h => by cases h) hreal h
  | succ n ih => exact walk_real (fun _ _ _ hreal' h' => ih hreal' h') hreal h

/-! ## Hosts -/

/-- What resolving paths depends on. -/
structure Host where
  /-- The working directory. -/
  cwd : Location
  /-- The text of the symbolic link at a place. -/
  links : Location → Option String
  /-- A path with more links than this counts as a loop. -/
  maxLinks : ℕ
  cwd_real : Real links cwd

/-- The place a path denotes, `none` for a loop of links. -/
def Host.resolve (host : Host) (path : Path) : Option Location :=
  follow host.links host.maxLinks (if path.absolute then [] else host.cwd) path.parts

theorem Host.resolve_real {host : Host} {path : Path} {location : Location}
    (h : host.resolve path = some location) : Real host.links location := by
  refine follow_real ?_ h
  split
  · exact real_nil _
  · exact host.cwd_real

/-- No text names nothing new. -/
theorem Host.resolve_join_empty (host : Host) (path : Path) :
    host.resolve (path.join (Path.parse "")) = host.resolve path := by
  rw [Path.parse_empty, Path.join, if_neg Bool.false_ne_true, List.append_nil]

end Posix

import Freeshard.DataModel.AppMeta

/-! # Compose commands pinned to one app

`util/subprocess.py`: the project name compose derives from a directory name, and when a compose
command for an app directory can be built at all. -/

namespace Freeshard
set_option autoImplicit false

/-- The core stack's compose project. -/
def coreProjectName : String := "core"

/-- `[a-z0-9_-]`. -/
def isProjectChar (c : Char) : Bool :=
  ('a' ≤ c && c ≤ 'z') || ('0' ≤ c && c ≤ '9') || c == '_' || c == '-'

/-- What is left of a character after `lower()` and dropping everything outside `[a-z0-9_-]`.
Besides the ASCII capitals only two code points have a lower case with such a character: the
Kelvin sign (`k`) and the dotted capital I (`i` and a combining dot). -/
def projectChar (c : Char) : Option Char :=
  if 'A' ≤ c && c ≤ 'Z' then some (Char.ofNat (c.toNat + 32))
  else if isProjectChar c then some c
  else if c.toNat = 0x212A then some 'k'
  else if c.toNat = 0x130 then some 'i'
  else none

/-- `normalize_project_name`. -/
def normalizeProjectName (name : String) : String :=
  String.ofList ((name.toList.filterMap projectChar).dropWhile fun c => c == '_' || c == '-')

/-- The arguments that pin a compose command: `-f <appDir>/docker-compose.yml -p <project>
--project-directory <appDir>`. -/
structure ComposeCommand where
  appDir : String
  project : String
  deriving DecidableEq, Repr

/-- `app_compose_command` for the directory `name`, whose content is `dir`. -/
def appComposeCommand (name : String) (dir : Option AppDir) : Except Exn ComposeCommand :=
  if dir.any (·.compose) then
    let project := normalizeProjectName name
    if project = "" then .error (.composeProjectNotAllowed name)
    else if project = coreProjectName then .error (.composeProjectNotAllowed name)
    else .ok ⟨name, project⟩
  else .error (.composeFileNotFound name)

/-- The compose project an app's containers can live in; `app_compose_command` refuses a name
without one. -/
def appProject (name : String) : Option String :=
  if normalizeProjectName name = "" ∨ normalizeProjectName name = coreProjectName then none
  else some (normalizeProjectName name)

theorem appComposeCommand_ok_iff {name : String} {dir : Option AppDir} :
    (∃ c, appComposeCommand name dir = .ok c) ↔
      dir.any (·.compose) = true ∧ (appProject name).isSome := by
  unfold appComposeCommand appProject
  dsimp only
  split_ifs <;> simp_all

theorem appComposeCommand_project {name : String} {dir : Option AppDir} {c : ComposeCommand}
    (h : appComposeCommand name dir = .ok c) : c.project = normalizeProjectName name := by
  unfold appComposeCommand at h
  dsimp only at h
  split_ifs at h
  cases h
  rfl

theorem appComposeCommand_isException {name : String} {dir : Option AppDir} {e : Exn}
    (h : appComposeCommand name dir = .error e) : e.isException = true := by
  unfold appComposeCommand at h
  dsimp only at h
  split_ifs at h <;> cases h <;> rfl

/-- `needle in text`. -/
def hasText (needle : List Char) : List Char → Bool
  | [] => needle.isEmpty
  | c :: text => needle.isPrefixOf (c :: text) || hasText needle text

end Freeshard

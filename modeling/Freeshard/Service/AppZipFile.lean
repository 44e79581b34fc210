import Freeshard.Coroutine.Execution
import Freeshard.DataModel.AppMeta
import Freeshard.Posix.Path
import Freeshard.Service.AppZip
import Freeshard.Util.Text
import Mathlib.Data.List.Dedup
import Mathlib.Data.List.Infix

/-! # `service/app_installation/app_zip.py`

Validating and extracting the archive of an app. The disk operations of the extraction are performed one after the
other, each of which may fail; what `AppMeta.model_validate(json.loads(raw))` accepts is a parameter. -/

namespace Freeshard.AppZip
open Coroutine Posix
set_option autoImplicit false

/-! ## Archives -/

/-- An entry of `ZipFile.infolist()`, with its content. -/
structure Member where
  filename : String
  content : List UInt8
  deriving DecidableEq, Repr

/-- A file that is opened as an archive: its members, or the text of the `BadZipFile`. -/
structure ZipFile where
  location : Location
  content : Except String (List Member)

/-- Why an archive is an `InvalidAppZip`. -/
inductive Reason where
  /-- `not a valid zip archive: {e}` -/
  | notAnArchive (text : String)
  /-- `the archive is empty` -/
  | empty
  /-- `archive member {name!r} has an illegal path` -/
  | illegalPath (name : String)
  /-- `app_meta.json is missing from the archive root; …` -/
  | noRoot
  /-- `{required} is missing from the archive` -/
  | missing (required : String)
  /-- `app_meta.json is invalid: {e}` -/
  | invalidAppMeta (text : String)
  /-- `app name {app_meta.name!r} in app_meta.json is not a valid app name` -/
  | invalidName (name : String)
  deriving DecidableEq, Repr

inductive Exn where
  | invalidAppZip (reason : Reason)
  | badZipFile (text : String)
  | runtimeError (text : String)
  | osError (text : String)
  | other (text : String)
  deriving DecidableEq, Repr

/-- `ZipInfo.is_dir`. -/
def Member.isDir (member : Member) : Bool := member.filename.toList.getLast? == some '/'

/-- `_is_archiver_cruft`. -/
def isArchiverCruft (name : String) : Bool :=
  startsWith name "__MACOSX/" || (Posix.Path.parse name).name == ".DS_Store"

/-- The members that are looked at. -/
def contentMembers (members : List Member) : List Member :=
  members.filter fun member => !member.isDir && !isArchiverCruft member.filename

/-- The test of a name in `_member_names`. -/
def illegalName (name : String) : Bool :=
  startsWith name "/" || (Posix.Path.parse name).parts.contains ".." || (Posix.Path.parse name).absolute

/-- `_member_names`. -/
def memberNames (members : List Member) : Except Exn (List String) :=
  let names := (contentMembers members).map (·.filename)
  if names = [] then .error (.invalidAppZip .empty)
  else
    match names.find? illegalName with
    | some name => .error (.invalidAppZip (.illegalPath name))
    | none => .ok names

/-- `_find_root`. -/
def findRoot (names : List String) : Except Exn String :=
  if "app_meta.json" ∈ names then .ok ""
  else
    match (names.map (firstPart '/')).dedup with
    | [top] =>
      let root := top ++ "/"
      if root ++ "app_meta.json" ∈ names then .ok root else .error (.invalidAppZip .noRoot)
    | _ => .error (.invalidAppZip .noRoot)

/-- `zip_ref.read(name)`: of several members with one name the last one is found. -/
def read (members : List Member) (name : String) : Option (List UInt8) :=
  (members.reverse.find? (·.filename == name)).map (·.content)

/-! ## Validation -/

def requiredFiles : List String := ["app_meta.json", "docker-compose.yml.template"]

section Validation
variable (parseAppMeta : List UInt8 → Except String AppMeta)

/-- `_parse_app_meta`. -/
def validAppMeta (raw : List UInt8) : Except Exn AppMeta :=
  match parseAppMeta raw with
  | .ok appMeta => .ok appMeta
  | .error text => .error (.invalidAppZip (.invalidAppMeta text))

def validateAppZip (zipFile : ZipFile) : Except Exn AppMeta :=
  match zipFile.content with
  | .error text => .error (.invalidAppZip (.notAnArchive text))
  | .ok members => do
    let names ← memberNames members
    let root ← findRoot names
    match requiredFiles.find? fun required => root ++ required ∉ names with
    | some required => .error (.invalidAppZip (.missing required))
    | none =>
      match read members (root ++ "app_meta.json") with
      | none => .error (.other "KeyError")
      | some raw => do
        let appMeta ← validAppMeta parseAppMeta raw
        if appNamePattern appMeta.name then .ok appMeta
        else .error (.invalidAppZip (.invalidName appMeta.name))

end Validation

/-! ## Disk operations -/

inductive Op where
  /-- `os.mkdir` of a directory that may exist. -/
  | mkdir (location : Location)
  /-- `zip_ref.open(name)`. -/
  | openMember (name : String)
  /-- `open(target, "wb")`. -/
  | openWrite (location : Location)
  /-- `shutil.copyfileobj`. -/
  | copy (name : String) (location : Location)
  deriving DecidableEq

/-- The extraction awaits nothing else. -/
abbrev Coro (α : Type) : Type := Prog Op (fun _ => Unit) Exn α

abbrev perform (op : Op) : Coro Unit := Prog.perform op

/-! ## Extraction -/

def ofExcept {α : Type} : Except Exn α → Coro α
  | .ok a => pure a
  | .error e => throw e

/-- `path.resolve()`. -/
def resolve (host : Posix.Host) (path : Posix.Path) : Coro Location :=
  match host.resolve path with
  | some location => pure location
  | none => throw (.runtimeError "Symlink loop")

/-- `path.mkdir(parents=True, exist_ok=True)`. -/
def mkdirParents (location : Location) : Coro Unit :=
  location.inits.tail.forM fun parent => perform (.mkdir parent)

/-- `name[len(root):]`. -/
def relative (root name : String) : String := String.ofList (name.toList.drop root.length)

section Extraction
variable (host : Posix.Host)

/-- One round of the loop of `extract_app_zip`. -/
def extractMember (targetDir : Posix.Path) (targetRoot : Location) (root name : String) : Coro Unit := do
  let target ← resolve host (targetDir.join (Posix.Path.parse (relative root name)))
  if relative root name = "" ∨ ¬ Below target targetRoot then
    throw (.invalidAppZip (.illegalPath name))
  else
    mkdirParents target.dropLast
    perform (.openMember name)
    perform (.openWrite target)
    perform (.copy name target)

variable {host} {targetDir : Posix.Path} {targetRoot : Location} {root name : String}

theorem extractMember_of_none
    (h : host.resolve (targetDir.join (Posix.Path.parse (relative root name))) = none) :
    extractMember host targetDir targetRoot root name = throw (.runtimeError "Symlink loop") := by
  rw [extractMember, resolve, h]
  rfl

theorem extractMember_of_illegal {target : Location}
    (h : host.resolve (targetDir.join (Posix.Path.parse (relative root name))) = some target)
    (hlegal : relative root name = "" ∨ ¬ Below target targetRoot) :
    extractMember host targetDir targetRoot root name = throw (.invalidAppZip (.illegalPath name)) := by
  rw [extractMember, resolve, h]
  exact if_pos hlegal

theorem extractMember_of_legal {target : Location}
    (h : host.resolve (targetDir.join (Posix.Path.parse (relative root name))) = some target)
    (hlegal : ¬ (relative root name = "" ∨ ¬ Below target targetRoot)) :
    extractMember host targetDir targetRoot root name = (do
      mkdirParents target.dropLast
      perform (.openMember name)
      perform (.openWrite target)
      perform (.copy name target)) := by
  rw [extractMember, resolve, h]
  exact if_neg hlegal

variable (host)

def extractAppZip (zipFile : ZipFile) (targetDir : Posix.Path) : Coro Unit := do
  let targetRoot ← resolve host targetDir
  match zipFile.content with
  | .error text => throw (.badZipFile text)
  | .ok members =>
    let names ← ofExcept (memberNames members)
    let root ← ofExcept (findRoot names)
    names.forM (extractMember host targetDir targetRoot root)

end Extraction

/-! ## The disk -/

inductive Node where
  | dir
  | file (content : List UInt8)
  deriving DecidableEq, Repr

/-- Directories and files, and which of them have been created or overwritten. -/
structure Disk where
  nodes : Location → Option Node
  touched : List Location := []

def Disk.write (disk : Disk) (location : Location) (node : Node) : Disk where
  nodes := Function.update disk.nodes location (some node)
  touched := location :: disk.touched

@[simp] theorem Disk.write_self (disk : Disk) (location : Location) (node : Node) :
    (disk.write location node).nodes location = some node := Function.update_self ..

theorem Disk.write_ne (disk : Disk) {location place : Location} (node : Node) (h : place ≠ location) :
    (disk.write location node).nodes place = disk.nodes place := Function.update_of_ne h ..

@[simp] theorem Disk.write_touched (disk : Disk) (location : Location) (node : Node) :
    (disk.write location node).touched = location :: disk.touched := rfl

/-- One disk operation. Once the file of the archive itself has been overwritten, nothing is known of what is read from
it. If the environment is faulty, every operation may fail, and a file that is written to may be left with any
content. -/
inductive Act (faulty : Prop) (zipFile : ZipFile) : Disk → Op → Except Exn Unit → Disk → Prop where
  | created {disk : Disk} {location : Location} (h : disk.nodes location = none) :
    Act faulty zipFile disk (.mkdir location) (.ok ()) (disk.write location .dir)
  | present {disk : Disk} {location : Location} (h : disk.nodes location = some .dir) :
    Act faulty zipFile disk (.mkdir location) (.ok ()) disk
  | inTheWay {disk : Disk} {location : Location} {content : List UInt8}
    (h : disk.nodes location = some (.file content)) :
    Act faulty zipFile disk (.mkdir location) (.error (.osError "File exists")) disk
  | opened {disk : Disk} {name : String} : Act faulty zipFile disk (.openMember name) (.ok ()) disk
  | truncated {disk : Disk} {location : Location} (h : disk.nodes location ≠ some .dir) :
    Act faulty zipFile disk (.openWrite location) (.ok ()) (disk.write location (.file []))
  | isDirectory {disk : Disk} {location : Location} (h : disk.nodes location = some .dir) :
    Act faulty zipFile disk (.openWrite location) (.error (.osError "Is a directory")) disk
  | copied {disk : Disk} {name : String} {location : Location} {members : List Member} {content : List UInt8}
    (hopen : zipFile.content = .ok members) (h : read members name = some content) :
    Act faulty zipFile disk (.copy name location) (.ok ()) (disk.write location (.file content))
  | misread {disk : Disk} {name : String} {location : Location} {content : List UInt8}
    {r : Except Exn Unit} (h : zipFile.location ∈ disk.touched) :
    Act faulty zipFile disk (.copy name location) r (disk.write location (.file content))
  | unreadable {disk : Disk} {name : String} {e : Exn} (h : zipFile.location ∈ disk.touched) :
    Act faulty zipFile disk (.openMember name) (.error e) disk
  | failed {disk : Disk} {op : Op} {e : Exn} (h : faulty) : Act faulty zipFile disk op (.error e) disk
  | interrupted {disk : Disk} {name : String} {location : Location} {content : List UInt8} {e : Exn}
    (h : faulty) : Act faulty zipFile disk (.copy name location) (.error e)
      (disk.write location (.file content))

end Freeshard.AppZip

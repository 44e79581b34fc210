import Freeshard.Glob.Fnmatch
import Freeshard.Service.HumanEncoding
import Freeshard.Service.Identity
import Freeshard.Util.PyDict
import Freeshard.Util.Text

/-! # Avatars

`put_avatar` and `delete_avatar` of `web/protected/identities.py`, `service/avatar.py` and `put_asset` of
`service/assets.py`, over the directory `core/assets/avatars`. -/

namespace Freeshard.Avatars
set_option autoImplicit false

/-! ## Data -/

inductive Exn where
  | httpException (status : ℕ) (detail : String)
  | attributeError (text : String)
  | fileNotFoundError
  | fileExistsError
  | isADirectoryError
  | osError (text : String)
  | identity (e : Identities.Exn)

/-- What the file system does: which names it takes for new files and directories, and what is below a directory. -/
structure FileSystem where
  accepts : String → Bool
  Tree : Type
  empty : Tree
  /-- Make the parents, open the file and write it: whether this succeeds, and what is there then. -/
  write : Tree → List String → List UInt8 → Bool × Tree

inductive Node (fs : FileSystem) where
  | file (content : List UInt8)
  | directory (tree : fs.Tree)

variable {fs : FileSystem}

/-- The directory of the avatars; `none` where it is missing, until `put_asset` makes it. -/
structure Directory (fs : FileSystem) where
  nodes : Option (PyDict (Node fs))

def Directory.entries (dir : Directory fs) : PyDict (Node fs) := dir.nodes.getD .empty

def Directory.get (dir : Directory fs) (name : String) : Option (Node fs) := dir.entries.get name

/-- The table `identities`. Ids are hash ids, as `Identity.create` makes them. -/
structure IdentityTable where
  rows : List IdentityRow
  hash_ids : ∀ row ∈ rows, ∀ c ∈ row.id.toList, c ∈ HumanEncoding.defaultCharacters.toList

/-- What the route takes for `{id}`. -/
structure PathParam where
  text : String
  not_empty : text ≠ ""
  no_slash : '/' ∉ text.toList

/-- `UploadFile`. -/
structure UploadFile where
  filename : String
  content : List UInt8

/-! ## Finding -/

/-- What a `glob` of one component finds: entries, and for `**` the directory itself. -/
inductive Found where
  | itself
  | entry (name : String)
  deriving DecidableEq

/-- `avatars_path().glob(pattern)`, for a pattern without a slash. For `**` it also finds what is below the entries. -/
def Directory.glob (dir : Directory fs) (pattern : String) : List Found :=
  if pattern = "**" then
    match dir.nodes with
    | none => []
    | some nodes => .itself :: nodes.keys.map .entry
  else (dir.entries.keys.filter fun name => Fnmatch.fnmatch name pattern).map .entry

/-- `find_avatar_file`. -/
def findAvatarFile (dir : Directory fs) (hashId : String) : Except Exn Found :=
  match dir.glob (hashId ++ "*") with
  | [found] => .ok found
  | _ => .error .fileNotFoundError

/-- `unlink`. -/
def unlink (dir : Directory fs) : Found → Except Exn Unit × Directory fs
  | .itself => (.error .isADirectoryError, dir)
  | .entry name =>
    match dir.get name with
    | none => (.error .fileNotFoundError, dir)
    | some (.directory _) => (.error .isADirectoryError, dir)
    | some (.file _) => (.ok (), ⟨some (dir.entries.pop name)⟩)

/-! ## Writing -/

/-- `filename.split(".")[-1]`. -/
def fileExtension (filename : String) : List Char := (filename.toList.splitOn '.').getLast?.getD []

/-- `Path("avatars") / f"{id}.{file_extension}"` below the directory: the first component, and those behind it. An
extension with no full stop has no component `.`. -/
def avatarPath (id : String) (extension : List Char) : String × List String :=
  (id ++ "." ++ String.ofList (extension.takeWhile (· != '/')),
    (((extension.dropWhile (· != '/')).splitOn '/').map String.ofList).filter (· ≠ ""))

/-- The write of a file below the entry of a name. -/
def writeBelow (dir : Directory fs) (name : String) (tree : fs.Tree) (rest : List String) (content : List UInt8) :
    Except Exn Unit × Directory fs :=
  let (ok, tree') := fs.write tree rest content
  (if ok then .ok () else .error (.osError "write"), ⟨some (dir.entries.set name (.directory tree'))⟩)

/-- `put_asset` with `overwrite`. -/
def putAsset (dir : Directory fs) (content : List UInt8) (path : String × List String) :
    Except Exn Unit × Directory fs :=
  let dir : Directory fs := ⟨some dir.entries⟩
  match path.2, dir.get path.1 with
  | [], some (.directory _) => (.error .isADirectoryError, dir)
  | [], some (.file _) => (.ok (), ⟨some (dir.entries.set path.1 (.file content))⟩)
  | [], none =>
    if fs.accepts path.1 then (.ok (), ⟨some (dir.entries.set path.1 (.file content))⟩)
    else (.error (.osError "open"), dir)
  | _ :: _, some (.file _) => (.error .fileExistsError, dir)
  | _ :: _, some (.directory tree) => writeBelow dir path.1 tree path.2 content
  | _ :: _, none =>
    if fs.accepts path.1 then writeBelow dir path.1 fs.empty path.2 content else (.error (.osError "mkdir"), dir)

/-! ## The requests -/

/-- `get_identity_by_id`, in a request in which `email_validator.validate_email` accepts these addresses. -/
def getIdentityById (accepts : String → Bool) (identities : IdentityTable) (id : String) : Except Exn Identity :=
  match identities.rows.find? fun row => row.id == id with
  | none => .error (.httpException 404 "")
  | some row => (row.load accepts).mapError fun field => .identity (.validationError field)

/-- The first check of `put_avatar`: `guess_type(file.filename)[0].startswith("image/")`. -/
def checkType (guessType : String → Option String) (filename : String) : Except Exn Unit :=
  match guessType filename with
  | none => .error (.attributeError "'NoneType' object has no attribute 'startswith'")
  | some type => if startsWith type "image/" then .ok () else .error (.httpException 422 "Avatar must be an image")

/-- The `try` statement of `put_avatar`. -/
def removeExisting (dir : Directory fs) (id : String) : Except Exn Unit × Directory fs :=
  match findAvatarFile dir id with
  | .error _ => (.ok (), dir)
  | .ok existingFile => unlink dir existingFile

section Requests
variable (guessType : String → Option String) (accepts : String → Bool) (identities : IdentityTable)

/-- `put_avatar`. -/
def putAvatar (id : PathParam) (file : UploadFile) (dir : Directory fs) : Except Exn Unit × Directory fs :=
  match checkType guessType file.filename with
  | .error e => (.error e, dir)
  | .ok () =>
    match removeExisting dir id.text with
    | (.error e, dir) => (.error e, dir)
    | (.ok (), dir) =>
      match getIdentityById accepts identities id.text with
      | .error e => (.error e, dir)
      | .ok identity => putAsset dir file.content (avatarPath identity.id (fileExtension file.filename))

/-- `delete_avatar`. -/
def deleteAvatar (id : PathParam) (dir : Directory fs) : Except Exn Unit × Directory fs :=
  match getIdentityById accepts identities id.text with
  | .error e => (.error e, dir)
  | .ok identity =>
    match findAvatarFile dir identity.id with
    | .error _ => (.ok (), dir)
    | .ok avatarFile => unlink dir avatarFile

inductive Request where
  | put (file : UploadFile)
  | delete

def Request.serve (id : PathParam) (dir : Directory fs) : Request → Except Exn Unit × Directory fs
  | .put file => putAvatar guessType accepts identities id file dir
  | .delete => deleteAvatar accepts identities id dir

end Requests
end Freeshard.Avatars

import Freeshard.Service.Avatar

/-! # What requests for avatars leave

An avatar of an identity is a file of its id with an extension. The requests that leave what they should, and a file
that is gone although its request failed. -/

namespace Freeshard.Avatars
set_option autoImplicit false

variable {fs : FileSystem}

/-! ## Names -/

/-- The name of an avatar of the identity. -/
def Owned (id name : String) : Prop :=
  ∃ extension : List Char, '.' ∉ extension ∧ name = id ++ "." ++ String.ofList extension

theorem Owned.toList {id name : String} (h : Owned id name) :
    ∃ extension, '.' ∉ extension ∧ name.toList = id.toList ++ '.' :: extension := by
  obtain ⟨extension, hdot, rfl⟩ := h
  refine ⟨extension, hdot, ?_⟩
  rw [String.toList_append, String.toList_append, String.toList_ofList, String.toList_ofList, List.append_assoc]
  rfl

theorem Owned.unique {id id' name : String} (h : Owned id name) (h' : Owned id' name) : id = id' := by
  obtain ⟨extension, hdot, hname⟩ := h.toList
  obtain ⟨extension', hdot', hname'⟩ := h'.toList
  rw [hname] at hname'
  have hsuffix : ∀ (more extension extension' : List Char), '.' ∉ extension →
      '.' :: extension = more ++ '.' :: extension' → more = [] := by
    intro more extension extension' hdot heq
    cases more with
    | nil => rfl
    | cons c more =>
      rw [List.cons_append, List.cons.injEq] at heq
      exact absurd (heq.2 ▸ List.mem_append_right more List.mem_cons_self) hdot
  apply String.toList_inj.mp
  obtain ⟨more, hid, hrest⟩ | ⟨more, hid, hrest⟩ := List.append_eq_append_iff.mp hname'
  · have hmore := hsuffix more extension extension' hdot hrest
    rw [hid, hmore, List.append_nil]
  · have hmore := hsuffix more extension' extension hdot' hrest
    rw [hid, hmore, List.append_nil]

theorem IdentityTable.plain {identities : IdentityTable} {row : IdentityRow} (h : row ∈ identities.rows) :
    Fnmatch.Plain row.id := by
  intro c hc
  have hmem := identities.hash_ids row h c hc
  refine ⟨?_, ?_, ?_⟩
  · rintro rfl
    exact absurd hmem (by decide)
  · rintro rfl
    exact absurd hmem (by decide)
  · rintro rfl
    exact absurd hmem (by decide)

/-- The same entries. -/
def Same (dir dir' : Directory fs) : Prop := ∀ name, dir'.get name = dir.get name

/-- `put_asset` raises and leaves all entries as they are. -/
def Refused (dir : Directory fs) (content : List UInt8) (path : String × List String) : Prop :=
  match path.2, dir.get path.1 with
  | [], some (.directory _) => True
  | [], some (.file _) => False
  | _ :: _, some (.file _) => True
  | _ :: _, some (.directory tree) => fs.write tree path.2 content = (false, tree)
  | _, none => fs.accepts path.1 = false

theorem get_pop (dir : Directory fs) (name other : String) :
    (⟨some (dir.entries.pop name)⟩ : Directory fs).get other = if other = name then none else dir.get other :=
  dir.entries.get_pop name other

theorem get_set (dir : Directory fs) (name other : String) (node : Node fs) :
    (⟨some (dir.entries.set name node)⟩ : Directory fs).get other =
      if other = name then some node else dir.get other :=
  dir.entries.get_set name other node

/-- What a request for the avatar of an identity should leave. -/
structure Answered (identities : IdentityTable) (id : String) (request : Request) (dir : Directory fs)
    (answer : Except Exn Unit × Directory fs) : Prop where
  failed : ∀ e, answer.1 = .error e → Same dir answer.2
  put : ∀ file, request = .put file → answer.1 = .ok () → ∃ name, Owned id name ∧ ∀ other node, Owned id other →
    (answer.2.get other = some node ↔ other = name ∧ node = .file file.content)
  deleted : request = .delete → answer.1 = .ok () → ∀ name, Owned id name → answer.2.get name = none
  others : ∀ row ∈ identities.rows, row.id ≠ id → ∀ name, Owned row.id name → answer.2.get name = dir.get name

/-- No avatar of another identity. -/
def NotOthers (identities : IdentityTable) (id name : String) : Prop :=
  ∀ row ∈ identities.rows, row.id ≠ id → ¬Owned row.id name

section Requests
variable (guessType : String → Option String) (accepts : String → Bool) (identities : IdentityTable)

/-- The condition on what is there before the request. -/
def Request.Safe (id : PathParam) (dir : Directory fs) : Request → Prop
  | .put file =>
    let path := avatarPath id.text (fileExtension file.filename)
    checkType guessType file.filename = .ok () →
      (∀ name content, findAvatarFile dir id.text = .ok (.entry name) → dir.get name = some (.file content) →
        (∃ identity, getIdentityById accepts identities id.text = .ok identity) ∧ path.2 = [] ∧ fs.accepts path.1 = true ∧
          NotOthers identities id.text name) ∧
      (∀ e identity, findAvatarFile dir id.text = .error e → getIdentityById accepts identities id.text = .ok identity →
        Refused dir file.content path ∨
          path.2 = [] ∧ ∀ name node, Owned id.text name → dir.get name = some node → name = path.1)
  | .delete =>
    ∀ identity, getIdentityById accepts identities id.text = .ok identity →
      (∀ name content, findAvatarFile dir id.text = .ok (.entry name) → dir.get name = some (.file content) →
        NotOthers identities id.text name) ∧
      (∀ e name, findAvatarFile dir id.text = .error e → Owned id.text name → dir.get name = none)

end Requests

section Answers
variable {identities : IdentityTable} {id : String} {dir : Directory fs}

theorem Answered.below {file : UploadFile} {target : String} {dir₁ : Directory fs} {tree : fs.Tree}
    {result : Except Exn Unit} (htarget : Owned id target)
    (h : Answered identities id (.put file) dir (result, ⟨some (dir₁.entries.set target (.directory tree))⟩)) :
    (∃ e, result = .error e) ∧ Same dir ⟨some (dir₁.entries.set target (.directory tree))⟩ := by
  cases result with
  | error e => exact ⟨⟨e, rfl⟩, h.failed e rfl⟩
  | ok =>
    obtain ⟨only, honly, hput⟩ := h.put file rfl rfl
    cases ((hput target _ htarget).mp ((get_set dir₁ target target _).trans (if_pos rfl))).2

end Answers

section Requests
variable {guessType : String → Option String} {accepts : String → Bool} {identities : IdentityTable}
  {id : PathParam} {dir : Directory fs}

end Requests

end Freeshard.Avatars

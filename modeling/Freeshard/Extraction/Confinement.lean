import Freeshard.Service.AppZipFile

/-! # Confinement

Whatever the names in an archive are, extracting it creates and overwrites only what lies strictly below the target
directory: each target is resolved before it is compared with the resolved directory, and used as it was compared. -/

namespace Freeshard.AppZip
open Coroutine Posix
set_option autoImplicit false

variable {faulty : Prop} {zipFile : ZipFile} {host : Posix.Host} {root : Location}

/-! ## The places an operation writes to -/

/-- The operation keeps to a directory: it writes to places strictly below it, and makes sure of directories on the way. -/
def Op.Within (host : Posix.Host) (root : Location) : Op → Prop
  | .mkdir location => location ≠ [] ∧ (location <+: root ∨ Below location root ∧ Posix.Real host.links location)
  | .openMember _ => True
  | .openWrite location => Below location root ∧ Posix.Real host.links location
  | .copy _ location => Below location root ∧ Posix.Real host.links location

/-- The directory exists, and all that has been created or overwritten lies strictly below it, with no link on the
way. -/
structure Confined (host : Posix.Host) (root : Location) (disk : Disk) : Prop where
  root_exists : ∀ location, location <+: root → location ≠ [] → disk.nodes location = some .dir
  touched : ∀ location ∈ disk.touched, Below location root ∧ Posix.Real host.links location

theorem Confined.write {disk : Disk} {location : Location} (h : Confined host root disk)
    (hbelow : Below location root) (hreal : Posix.Real host.links location) (node : Node) :
    Confined host root (disk.write location node) where
  root_exists place hplace hne := by
    have hother : place ≠ location := by
      rintro rfl
      exact hbelow.2 (hplace.eq_of_length_le hbelow.1.length_le)
    rw [disk.write_ne node hother]
    exact h.root_exists place hplace hne
  touched place hplace := by
    obtain rfl | hplace := List.mem_cons.mp hplace
    · exact ⟨hbelow, hreal⟩
    · exact h.touched place hplace

theorem Confined.step {op : Op} {disk disk' : Disk} {r : Except Exn Unit} (hop : op.Within host root)
    (h : Confined host root disk) (hact : Act faulty zipFile disk op r disk') : Confined host root disk' := by
  cases hact with
  | created hnone =>
    obtain ⟨hne, hpre | ⟨hbelow, hreal⟩⟩ := hop
    · rw [h.root_exists _ hpre hne] at hnone
      cases hnone
    · exact h.write hbelow hreal _
  | truncated _ => exact h.write hop.1 hop.2 _
  | copied _ _ => exact h.write hop.1 hop.2 _
  | misread _ => exact h.write hop.1 hop.2 _
  | interrupted _ => exact h.write hop.1 hop.2 _
  | present _ => exact h
  | inTheWay _ => exact h
  | opened => exact h
  | isDirectory _ => exact h
  | unreadable _ => exact h
  | failed _ => exact h

/-! ## The operations of the extraction -/

theorem mkdirParents_within {location : Location} (hbelow : Below location root)
    (hreal : Posix.Real host.links location) :
    (mkdirParents location.dropLast).Uses (Op.Within host root) := by
  have hmem : ∀ parent ∈ location.dropLast.inits.tail, Op.Within host root (.mkdir parent) := by
    intro parent hparent
    have hpre : parent <+: location :=
      ((List.mem_inits _ _).mp (List.mem_of_mem_tail hparent)).trans (List.dropLast_prefix location)
    refine ⟨?_, ?_⟩
    · rintro rfl
      cases hlocation : location.dropLast <;> rw [hlocation] at hparent <;> simp at hparent
    · obtain hroot | hparent := hbelow.prefix_cases hpre
      · exact .inl hroot
      · exact .inr ⟨hparent, hreal.of_prefix hpre⟩
  exact Prog.Uses.forM_mem fun parent hparent => (Prog.uses_perform _).mpr (hmem parent hparent)

theorem extractMember_within (targetDir : Posix.Path) (prefix' name : String) :
    (extractMember host targetDir root prefix' name).Uses (Op.Within host root) := by
  cases htarget : host.resolve (targetDir.join (Posix.Path.parse (relative prefix' name))) with
  | none =>
    rw [extractMember_of_none htarget]
    trivial
  | some target =>
    by_cases hlegal : relative prefix' name = "" ∨ ¬ Below target root
    · rw [extractMember_of_illegal htarget hlegal]
      trivial
    · rw [extractMember_of_legal htarget hlegal]
      obtain ⟨-, hbelow⟩ := not_or.mp hlegal
      have hbelow := not_not.mp hbelow
      have hreal := Posix.Host.resolve_real htarget
      refine (mkdirParents_within hbelow hreal).bind fun _ => ?_
      refine Prog.Uses.bind ((Prog.uses_perform _).mpr trivial) fun _ => ?_
      refine Prog.Uses.bind ((Prog.uses_perform _).mpr ⟨hbelow, hreal⟩) fun _ => ?_
      exact (Prog.uses_perform _).mpr ⟨hbelow, hreal⟩

theorem ofExcept_uses {α : Type} (r : Except Exn α) (φ : Op → Prop) : (ofExcept r).Uses φ := by
  cases r <;> trivial

theorem extractAppZip_within {targetDir : Posix.Path} (hroot : host.resolve targetDir = some root) :
    (extractAppZip host zipFile targetDir).Uses (Op.Within host root) := by
  unfold extractAppZip resolve
  rw [hroot]
  dsimp only
  rw [Prog.pure_eq_ret, Prog.ret_bind]
  cases zipFile.content with
  | error e => trivial
  | ok members =>
    refine (ofExcept_uses _ _).bind fun names => ?_
    refine (ofExcept_uses _ _).bind fun prefix' => ?_
    exact Prog.Uses.forM fun name => extractMember_within targetDir prefix' name

/-! ## Main result -/

/-- Everything that an extraction into an existing directory creates or overwrites, before it returns or raises, lies
strictly below that directory. Any operation may fail. -/
theorem extraction_confined (host : Posix.Host) (zipFile : ZipFile) (targetDir : Posix.Path) (root : Location)
    (nodes : Location → Option Node) (hroot : host.resolve targetDir = some root)
    (hdir : ∀ location, location <+: root → location ≠ [] → nodes location = some .dir) (faulty : Prop) :
    (extractAppZip host zipFile targetDir).wp (Act faulty zipFile)
      (fun _ disk => ∀ location ∈ disk.touched, Below location root ∧ Posix.Real host.links location) ⟨nodes, []⟩ := by
  have hstart : Confined host root ⟨nodes, []⟩ := ⟨hdir, fun _ h => by cases h⟩
  have hconfined : (extractAppZip host zipFile targetDir).wp (Act faulty zipFile)
      (fun _ => Confined host root) ⟨nodes, []⟩ :=
    (extractAppZip_within hroot).wp (fun _ hop _ _ _ h hact => h.step hop hact) hstart
  exact Prog.wp_mono hconfined fun _ _ h => h.touched

/-- A host without links. -/
def plainHost : Posix.Host := ⟨[], fun _ => none, 0, real_nil _⟩

def notesDir : Posix.Path := ⟨true, ["apps", "notes"]⟩

/-- An app's directory that holds an archive and nothing else. -/
def notesNodes (location : Location) : Option Node :=
  if location = ["apps"] ∨ location = ["apps", "notes"] then some .dir
  else if location = ["apps", "notes", "notes.zip"] then some (.file [])
  else none

def notesArchive (members : List Member) : ZipFile := ⟨["apps", "notes", "notes.zip"], .ok members⟩

/-- Without its common root, the second name starts at the root of the file system. -/
theorem extraction_confined_absolute :
    (extractAppZip plainHost (notesArchive [⟨"notes/app_meta.json", [1]⟩, ⟨"notes//etc/passwd", [2]⟩])
      notesDir).wp (Act True (notesArchive [⟨"notes/app_meta.json", [1]⟩, ⟨"notes//etc/passwd", [2]⟩]))
      (fun _ disk => ∀ location ∈ disk.touched,
        Below location ["apps", "notes"] ∧ Posix.Real plainHost.links location) ⟨notesNodes, []⟩ := by
  refine extraction_confined _ _ _ _ _ (by decide) (fun location hpre hne => ?_) _
  have hmem : location ∈ List.inits ["apps", "notes"] := (List.mem_inits _ _).mpr hpre
  have hcases : location = [] ∨ location = ["apps"] ∨ location = ["apps", "notes"] := by simpa using hmem
  obtain rfl | rfl | rfl := hcases
  · exact absurd rfl hne
  · rfl
  · rfl

end Freeshard.AppZip

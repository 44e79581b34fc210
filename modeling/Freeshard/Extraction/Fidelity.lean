import Freeshard.Extraction.Confinement

/-! # Fidelity

After the extraction of a validated archive each member is to be found under its name without the common root. That is so
exactly if every name denotes a place below the directory and off the archive's own file, and names that denote one place
come with one content. -/

namespace Freeshard.AppZip
open Coroutine Posix
set_option autoImplicit false

/-! ## What has been validated -/

section Validated

/-- The members of a file that can be opened. -/
def ZipFile.members (zipFile : ZipFile) : List Member :=
  match zipFile.content with
  | .ok members => members
  | .error _ => []

def ZipFile.names (zipFile : ZipFile) : List String := (contentMembers zipFile.members).map (·.filename)

/-- The common root, where there is one. -/
def ZipFile.root (zipFile : ZipFile) : String :=
  match findRoot zipFile.names with
  | .ok root => root
  | .error _ => ""

variable {parseAppMeta : List UInt8 → Except String AppMeta} {zipFile : ZipFile} {appMeta : AppMeta}

theorem memberNames_eq_ok {members : List Member} {names : List String} (h : memberNames members = .ok names) :
    names = (contentMembers members).map (·.filename) := by
  unfold memberNames at h
  dsimp only at h
  split at h
  · cases h
  · split at h
    · cases h
    · exact (Except.ok.inj h).symm

/-- What an accepted archive is known to hold. -/
structure Validated (parseAppMeta : List UInt8 → Except String AppMeta) (zipFile : ZipFile) (appMeta : AppMeta) :
    Prop where
  opened : zipFile.content = .ok zipFile.members
  names : memberNames zipFile.members = .ok zipFile.names
  root : findRoot zipFile.names = .ok zipFile.root
  app_meta : zipFile.root ++ "app_meta.json" ∈ zipFile.names
  parsed : ∃ raw, read zipFile.members (zipFile.root ++ "app_meta.json") = some raw ∧
    parseAppMeta raw = .ok appMeta

theorem bind_eq_ok {α β : Type} {r : Except Exn α} {f : α → Except Exn β} {b : β} (h : r >>= f = .ok b) :
    ∃ a, r = .ok a ∧ f a = .ok b := by
  cases r with
  | error e => cases h
  | ok a => exact ⟨a, rfl, h⟩

theorem validated (h : validateAppZip parseAppMeta zipFile = .ok appMeta) :
    Validated parseAppMeta zipFile appMeta := by
  unfold validateAppZip at h
  split at h
  · cases h
  next members hopen =>
  have hmembers : zipFile.members = members := by
    rw [ZipFile.members, hopen]
  obtain ⟨names, hnames, h⟩ := bind_eq_ok h
  have hnames' : zipFile.names = names := by
    rw [ZipFile.names, hmembers, memberNames_eq_ok hnames]
  obtain ⟨root, hroot, h⟩ := bind_eq_ok h
  have hroot' : zipFile.root = root := by
    rw [ZipFile.root, hnames', hroot]
  split at h
  · cases h
  next hrequired =>
  split at h
  · cases h
  next raw hread =>
  obtain ⟨appMeta', hparsed, h⟩ := bind_eq_ok h
  split at h
  · cases h
    constructor
    case opened => rw [hmembers, hopen]
    case names => rw [hmembers, hnames', hnames]
    case root => rw [hnames', hroot', hroot]
    case app_meta =>
      have hmem := List.find?_eq_none.mp hrequired "app_meta.json" List.mem_cons_self
      rw [hnames', hroot']
      simpa using hmem
    case parsed =>
      unfold validAppMeta at hparsed
      split at hparsed
      · next hparse =>
        cases hparsed
        exact ⟨raw, by rw [hmembers, hroot', hread], hparse⟩
      · cases hparsed
  · cases h

theorem exists_member {name : String} (hmem : name ∈ zipFile.names) : ∃ member ∈ contentMembers zipFile.members,
    member.filename = name ∧ read zipFile.members name = some member.content := by
  obtain ⟨member, hmember, rfl⟩ := List.mem_map.mp hmem
  obtain ⟨hall, hkeep⟩ := List.mem_filter.mp hmember
  cases hfind : zipFile.members.reverse.find? (·.filename == member.filename) with
  | none =>
    have hnone := List.find?_eq_none.mp hfind member (List.mem_reverse.mpr hall)
    simp at hnone
  | some last =>
    have hname : last.filename = member.filename := by simpa using List.find?_some hfind
    refine ⟨last, List.mem_filter.mpr ⟨List.mem_reverse.mp (List.mem_of_find?_eq_some hfind), ?_⟩, hname, ?_⟩
    · rw [← hkeep, Member.isDir, Member.isDir, hname]
    · rw [read, hfind, Option.map_some]

end Validated

/-! ## Places -/

variable (host : Posix.Host) (zipFile : ZipFile) (targetDir : Posix.Path)

/-- What a member's name without the common root denotes. -/
def place (name : String) : Option Location :=
  host.resolve (targetDir.join (Posix.Path.parse (relative zipFile.root name)))

/-- An archive lies in the directory, and nothing that is there is in the way of its members. -/
structure Placed (root : Location) (nodes : Location → Option Node) : Prop where
  root_eq : host.resolve targetDir = some root
  stored : Below zipFile.location root
  isFile : ∃ content, nodes zipFile.location = some (.file content)
  /-- File writes succeed. -/
  free : ∀ name ∈ zipFile.names, ∀ target, place host zipFile targetDir name = some target → Below target root →
    nodes target ≠ some .dir ∧ ∀ parent, parent <+: target → parent ≠ target → parent ≠ zipFile.location →
      ∀ content, nodes parent ≠ some (.file content)
  /-- No member's place is a parent of another one's. -/
  apart : ∀ name ∈ zipFile.names, ∀ name' ∈ zipFile.names, ∀ target target',
    place host zipFile targetDir name = some target → place host zipFile targetDir name' = some target' →
    Below target root → target <+: target' → target = target'

/-- All names denote places below the directory and off the archive's own file, one place with one content. -/
structure Separate (root : Location) : Prop where
  below : ∀ name ∈ zipFile.names, ∃ target, place host zipFile targetDir name = some target ∧
    Below target root ∧ ¬ zipFile.location <+: target
  single : ∀ member ∈ contentMembers zipFile.members, ∀ member' ∈ contentMembers zipFile.members,
    place host zipFile targetDir member.filename = place host zipFile targetDir member'.filename →
    member.content = member'.content

/-- The members are where they belong. -/
def Extracted (disk : Disk) : Prop :=
  ∀ member ∈ contentMembers zipFile.members, ∃ target,
    place host zipFile targetDir member.filename = some target ∧
      disk.nodes target = some (.file member.content)

/-! ## Progress of the extraction -/

variable {host zipFile targetDir} {root : Location} {nodes : Location → Option Node}

/-- The content found under the name is at its place. -/
def Written (host : Posix.Host) (zipFile : ZipFile) (targetDir : Posix.Path) (disk : Disk) (name : String) : Prop :=
  ∀ target content, place host zipFile targetDir name = some target →
    read zipFile.members name = some content → disk.nodes target = some (.file content)

/-- What has become of a place so far. -/
inductive PlaceStatus (host : Posix.Host) (zipFile : ZipFile) (targetDir : Posix.Path) (nodes : Location → Option Node)
    (disk : Disk) (location : Location) : Prop where
  | same (h : disk.nodes location = nodes location)
  | parent {name : String} {target : Location} (hname : name ∈ zipFile.names)
    (hplace : place host zipFile targetDir name = some target) (hpre : location <+: target)
    (hne : location ≠ target) (h : disk.nodes location = some .dir)
  | target {name : String} {content : List UInt8} (hname : name ∈ zipFile.names)
    (hplace : place host zipFile targetDir name = some location)
    (h : disk.nodes location = some (.file content))

/-- The extraction with some members still to come. -/
structure Progress (host : Posix.Host) (zipFile : ZipFile) (targetDir : Posix.Path) (nodes : Location → Option Node)
    (done : String → Prop) (disk : Disk) : Prop where
  untouched : zipFile.location ∉ disk.touched
  status : ∀ location, PlaceStatus host zipFile targetDir nodes disk location
  written : ∀ name ∈ zipFile.names, done name → Written host zipFile targetDir disk name

theorem PlaceStatus.write {disk : Disk} {location written : Location}
    (h : PlaceStatus host zipFile targetDir nodes disk location) (hne : location ≠ written) (node : Node) :
    PlaceStatus host zipFile targetDir nodes (disk.write written node) location := by
  have hkept := disk.write_ne node hne
  cases h with
  | same hsame => exact .same (hkept.trans hsame)
  | parent hname hplace hpre hne' hdir => exact .parent hname hplace hpre hne' (hkept.trans hdir)
  | target hname hplace hfile => exact .target hname hplace (hkept.trans hfile)

theorem Separate.place_below (hseparate : Separate host zipFile targetDir root) {name : String}
    {target : Location} (hname : name ∈ zipFile.names)
    (hplace : place host zipFile targetDir name = some target) :
    Below target root ∧ ¬ zipFile.location <+: target := by
  obtain ⟨target', hplace', hbelow⟩ := hseparate.below name hname
  rw [hplace] at hplace'
  obtain rfl := Option.some.inj hplace'
  exact hbelow

theorem Separate.read_eq (hseparate : Separate host zipFile targetDir root) {name name' : String}
    (hname : name ∈ zipFile.names) (hname' : name' ∈ zipFile.names)
    (hplace : place host zipFile targetDir name = place host zipFile targetDir name') :
    read zipFile.members name = read zipFile.members name' := by
  obtain ⟨member, hmember, rfl, hread⟩ := exists_member hname
  obtain ⟨member', hmember', rfl, hread'⟩ := exists_member hname'
  rw [hread, hread', hseparate.single member hmember member' hmember' hplace]

section Steps
variable (hplaced : Placed host zipFile targetDir root nodes) (hseparate : Separate host zipFile targetDir root)
include hplaced hseparate

variable {name : String} {target : Location} (hname : name ∈ zipFile.names)
  (hplace : place host zipFile targetDir name = some target) {done : String → Prop} {disk disk' : Disk}
  {r : Except Exn Unit}
include hname hplace

theorem Progress.mkdir {parent : Location} (h : Progress host zipFile targetDir nodes done disk)
    (hpre : parent <+: target) (hne : parent ≠ target)
    (hact : Act False zipFile disk (.mkdir parent) r disk') :
    r = .ok () ∧ Progress host zipFile targetDir nodes done disk' := by
  obtain ⟨hbelow, hoff⟩ := hseparate.place_below hname hplace
  have harchive : parent ≠ zipFile.location := by
    rintro rfl
    exact hoff hpre
  cases hact with
  | created hnone =>
    refine ⟨rfl, ?_, fun location => ?_, fun name' hname' hdone => ?_⟩
    · rw [Disk.write_touched, List.mem_cons]
      rintro (heq | hmem)
      · exact harchive heq.symm
      · exact h.untouched hmem
    · by_cases hlocation : location = parent
      · subst hlocation
        exact .parent hname hplace hpre hne (disk.write_self _ _)
      · exact (h.status location).write hlocation _
    · intro target' content hplace' hread
      have hfile := h.written name' hname' hdone target' content hplace' hread
      have hother : target' ≠ parent := by
        rintro rfl
        rw [hfile] at hnone
        cases hnone
      rw [disk.write_ne _ hother, hfile]
  | present _ => exact ⟨rfl, h⟩
  | inTheWay hfile =>
    cases h.status parent with
    | same hsame =>
      rw [hsame] at hfile
      exact absurd hfile ((hplaced.free name hname target hplace hbelow).2 parent hpre hne harchive _)
    | parent _ _ _ _ hdir =>
      rw [hdir] at hfile
      cases hfile
    | target hn hp _ =>
      have hbelow' := (hseparate.place_below hn hp).1
      exact absurd (hplaced.apart _ hn name hname parent target hp hplace hbelow' hpre) hne
  | failed hfaulty => exact hfaulty.elim

omit hplaced in
theorem Progress.write {done' : String → Prop} {content : List UInt8}
    (h : Progress host zipFile targetDir nodes done disk)
    (hdone : ∀ name' ∈ zipFile.names, done' name' →
      (place host zipFile targetDir name' = some target ∧ read zipFile.members name' = some content) ∨
      (place host zipFile targetDir name' ≠ some target ∧ done name')) :
    Progress host zipFile targetDir nodes done' (disk.write target (.file content)) := by
  obtain ⟨-, hoff⟩ := hseparate.place_below hname hplace
  refine ⟨?_, fun location => ?_, fun name' hname' hdone' target' content' hplace' hread => ?_⟩
  · rw [Disk.write_touched, List.mem_cons]
    rintro (heq | hmem)
    · exact hoff (heq ▸ List.prefix_refl _)
    · exact h.untouched hmem
  · by_cases hlocation : location = target
    · subst hlocation
      exact .target hname hplace (disk.write_self _ _)
    · exact (h.status location).write hlocation _
  · obtain ⟨hsame, hcontent⟩ | ⟨hother, hbefore⟩ := hdone name' hname' hdone'
    · rw [hplace'] at hsame
      rw [hread] at hcontent
      cases hsame
      cases hcontent
      exact disk.write_self _ _
    · have hne : target' ≠ target := by
        rintro rfl
        exact hother hplace'
      rw [disk.write_ne _ hne]
      exact h.written name' hname' hbefore target' content' hplace' hread

theorem Progress.not_dir (h : Progress host zipFile targetDir nodes done disk) :
    disk.nodes target ≠ some .dir := by
  obtain ⟨hbelow, -⟩ := hseparate.place_below hname hplace
  cases h.status target with
  | same hsame =>
    rw [hsame]
    exact (hplaced.free name hname target hplace hbelow).1
  | parent hn hp hpre hne _ =>
    exact absurd (hplaced.apart name hname _ hn target _ hplace hp hbelow hpre) hne
  | target _ _ hfile =>
    rw [hfile]
    exact nofun

theorem Progress.mkdirParents (h : Progress host zipFile targetDir nodes done disk) :
    (mkdirParents target.dropLast).wp (Act False zipFile)
      (fun r disk' => r = .ok () ∧ Progress host zipFile targetDir nodes done disk') disk := by
  have hparents : ∀ parent ∈ target.dropLast.inits.tail, parent <+: target ∧ parent ≠ target := by
    intro parent hparent
    have hpre : parent <+: target.dropLast := (List.mem_inits _ _).mp (List.mem_of_mem_tail hparent)
    refine ⟨hpre.trans (List.dropLast_prefix target), ?_⟩
    rintro rfl
    have hlen := hpre.length_le
    have hne : parent ≠ [] := by
      rintro rfl
      cases hparent
    have hpos := List.length_pos_of_ne_nil hne
    rw [List.length_dropLast] at hlen
    omega
  have hwp := @Prog.wp_forM _ _ _ _ _ (Act False zipFile)
    (fun parents disk => (∀ parent ∈ parents, parent <+: target ∧ parent ≠ target) ∧
      Progress host zipFile targetDir nodes done disk)
    (fun parent => perform (.mkdir parent)) target.dropLast.inits.tail disk
    (fun parent parents disk₁ hinv => ?_) ⟨hparents, h⟩
  · exact Prog.wp_mono hwp fun _ _ h => ⟨h.1, h.2.2⟩
  · refine (Prog.wp_perform _ _ _).mpr fun r disk₂ hact => ?_
    obtain ⟨hpre, hne⟩ := hinv.1 parent List.mem_cons_self
    obtain ⟨hok, hprogress⟩ := hinv.2.mkdir hplaced hseparate hname hplace hpre hne hact
    exact ⟨hok, fun parent' hparent' => hinv.1 parent' (List.mem_cons_of_mem _ hparent'), hprogress⟩

theorem Progress.member (hopen : zipFile.content = .ok zipFile.members)
    (h : Progress host zipFile targetDir nodes done disk) :
    (extractMember host targetDir root zipFile.root name).wp (Act False zipFile)
      (fun r disk' => r = .ok () ∧
        Progress host zipFile targetDir nodes (fun name' => done name' ∨ name' = name) disk') disk := by
  obtain ⟨hbelow, -⟩ := hseparate.place_below hname hplace
  have hresolve : host.resolve (targetDir.join (Posix.Path.parse (relative zipFile.root name))) = some target :=
    hplace
  have hrelative : relative zipFile.root name ≠ "" := by
    intro hempty
    rw [hempty, Posix.Host.resolve_join_empty, hplaced.root_eq] at hresolve
    obtain rfl := Option.some.inj hresolve
    exact not_below_self _ hbelow
  rw [extractMember_of_legal hresolve (not_or.mpr ⟨hrelative, not_not_intro hbelow⟩)]
  refine Prog.wp_bind_of (h.mkdirParents hplaced hseparate hname hplace) (fun _ disk₁ h₁ => ?_)
    fun _ _ h₁ => by cases h₁.1
  refine Prog.wp_bind_of ((Prog.wp_perform _
    (fun r disk' => r = .ok () ∧ Progress host zipFile targetDir nodes done disk') _).mpr fun r disk₂ hact => ?_)
    (fun _ disk₂ h₂ => ?_) fun _ _ h₂ => by cases h₂.1
  · cases hact with
    | opened => exact ⟨rfl, h₁.2⟩
    | unreadable htouched => exact absurd htouched h₁.2.untouched
    | failed hfaulty => exact hfaulty.elim
  refine Prog.wp_bind_of ((Prog.wp_perform _
    (fun r disk' => r = .ok () ∧ Progress host zipFile targetDir nodes
      (fun name' => place host zipFile targetDir name' ≠ some target ∧ done name') disk') _).mpr
      fun r disk₃ hact => ?_) (fun _ disk₃ h₃ => ?_) fun _ _ h₃ => by cases h₃.1
  · cases hact with
    | truncated _ =>
      exact ⟨rfl, h₂.2.write hseparate hname hplace fun name' _ hdone => .inr ⟨hdone.1, hdone.2⟩⟩
    | isDirectory hdir => exact absurd hdir (h₂.2.not_dir hplaced hseparate hname hplace)
    | failed hfaulty => exact hfaulty.elim
  · refine (Prog.wp_perform _ _ _).mpr fun r disk₄ hact => ?_
    cases hact with
    | copied hcontent hread =>
      rw [hopen] at hcontent
      cases hcontent
      refine ⟨rfl, h₃.2.write hseparate hname hplace fun name' hname' hdone => ?_⟩
      by_cases hsame : place host zipFile targetDir name' = some target
      · exact .inl ⟨hsame, (hseparate.read_eq hname' hname (hsame.trans hplace.symm)).trans hread⟩
      · obtain hdone | rfl := hdone
        · exact .inr ⟨hsame, hsame, hdone⟩
        · exact absurd hplace hsame
    | misread htouched => exact absurd htouched h₃.2.untouched
    | failed hfaulty => exact hfaulty.elim
    | interrupted hfaulty => exact hfaulty.elim

end Steps

/-! ## The whole extraction -/

section Whole
variable {parseAppMeta : List UInt8 → Except String AppMeta} {appMeta : AppMeta}
  (hvalid : Validated parseAppMeta zipFile appMeta)
include hvalid

theorem Validated.extractAppZip_eq (hroot : host.resolve targetDir = some root) :
    extractAppZip host zipFile targetDir =
      zipFile.names.forM (extractMember host targetDir root zipFile.root) := by
  unfold extractAppZip resolve
  rw [hroot]
  dsimp only
  rw [Prog.pure_eq_ret, Prog.ret_bind, hvalid.opened]
  show (ofExcept (memberNames zipFile.members) >>= _ : Coro Unit) = _
  rw [hvalid.names]
  show (ofExcept (findRoot zipFile.names) >>= _ : Coro Unit) = _
  rw [hvalid.root]
  rfl

theorem extracted_of_separate (hplaced : Placed host zipFile targetDir root nodes)
    (hseparate : Separate host zipFile targetDir root) :
    (extractAppZip host zipFile targetDir).wp (Act False zipFile)
      (fun r disk => r = .ok () ∧ Extracted host zipFile targetDir disk) ⟨nodes, []⟩ := by
  rw [hvalid.extractAppZip_eq hplaced.root_eq]
  have hwp := @Prog.wp_forM _ _ _ _ _ (Act False zipFile)
    (fun names disk => (∀ name ∈ names, name ∈ zipFile.names) ∧
      Progress host zipFile targetDir nodes (fun name => name ∉ names) disk)
    (extractMember host targetDir root zipFile.root) zipFile.names ⟨nodes, []⟩
    (fun name names disk hinv => ?_) ⟨fun _ h => h, ?_⟩
  · refine Prog.wp_mono hwp fun r disk h => ⟨h.1, fun member hmember => ?_⟩
    have hname : member.filename ∈ zipFile.names := List.mem_map_of_mem hmember
    obtain ⟨target, hplace, -⟩ := hseparate.below member.filename hname
    obtain ⟨last, hlast, hfilename, hread⟩ := exists_member hname
    have hcontent := hseparate.single member hmember last hlast (by rw [hfilename])
    refine ⟨target, hplace, ?_⟩
    rw [hcontent]
    exact h.2.2.written member.filename hname List.not_mem_nil target last.content hplace hread
  · have hname : name ∈ zipFile.names := hinv.1 name List.mem_cons_self
    obtain ⟨target, hplace, -⟩ := hseparate.below name hname
    refine Prog.wp_mono (hinv.2.member hplaced hseparate hname hplace hvalid.opened) fun r disk' h => ?_
    refine ⟨h.1, fun name' hname' => hinv.1 name' (List.mem_cons_of_mem _ hname'), ?_⟩
    refine ⟨h.2.untouched, h.2.status, fun name' hname' hdone => h.2.written name' hname' ?_⟩
    by_cases heq : name' = name
    · exact .inr heq
    · left
      rintro (_ | ⟨_, hmem⟩)
      · exact heq rfl
      · exact hdone hmem
  · refine ⟨List.not_mem_nil, fun location => .same rfl, fun name hname hdone => absurd hname hdone⟩

end Whole

/-! ## What every extraction that returns shows -/

/-- The archive's file is a file. -/
def IsFile (disk : Disk) (location : Location) : Prop := ∃ content, disk.nodes location = some (.file content)

theorem IsFile.write {disk : Disk} {location place : Location} (h : IsFile disk location) {content : List UInt8} :
    IsFile (disk.write place (.file content)) location := by
  by_cases heq : location = place
  · subst heq
    exact ⟨content, disk.write_self _ _⟩
  · obtain ⟨content', h⟩ := h
    exact ⟨content', by rw [disk.write_ne _ heq, h]⟩

theorem IsFile.step {disk disk' : Disk} {location : Location} {op : Op} {r : Except Exn Unit}
    (h : IsFile disk location) (hact : Act False zipFile disk op r disk') : IsFile disk' location := by
  cases hact with
  | @created place hnone =>
    obtain ⟨content, hfile⟩ := h
    have hne : location ≠ place := by
      rintro rfl
      rw [hfile] at hnone
      cases hnone
    exact ⟨content, by rw [disk.write_ne _ hne, hfile]⟩
  | truncated _ => exact h.write
  | copied _ _ => exact h.write
  | misread _ => exact h.write
  | present _ => exact h
  | inTheWay _ => exact h
  | opened => exact h
  | isDirectory _ => exact h
  | unreadable _ => exact h
  | failed hfaulty => exact hfaulty.elim
  | interrupted hfaulty => exact hfaulty.elim

theorem IsFile.wp {α : Type} {p : Coro α} {disk : Disk} {location : Location} (h : IsFile disk location) :
    p.wp (Act False zipFile) (fun _ disk' => IsFile disk' location) disk :=
  p.uses_true.wp (fun _ _ _ _ _ h hact => h.step hact) h

theorem mkdir_blocked {disk : Disk} {location : Location} {parents : List Location} (h : IsFile disk location)
    (hmem : location ∈ parents) : (parents.forM fun parent => perform (.mkdir parent)).wpOk
      (Act False zipFile) (fun _ _ => False) disk := by
  induction parents generalizing disk with
  | nil => cases hmem
  | cons parent parents ih =>
    refine Prog.wpOk_bind (P := fun _ disk' => IsFile disk' location ∧ parent ≠ location)
      (Prog.wpOk_perform fun _ disk' hact => ⟨h.step hact, ?_⟩) fun _ disk' h' => ih h'.1 ?_
    · rintro rfl
      obtain ⟨content, hfile⟩ := h
      cases hact with
      | created hnone =>
        rw [hfile] at hnone
        cases hnone
      | present hdir =>
        rw [hfile] at hdir
        cases hdir
    · obtain rfl | hmem := List.mem_cons.mp hmem
      · exact absurd rfl h'.2
      · exact hmem

/-- Every operation can be performed, if it copies what is there. -/
def Op.Possible (zipFile : ZipFile) : Op → Prop
  | .copy name _ => name ∈ zipFile.names
  | _ => True

theorem Op.Possible.progress (hopen : zipFile.content = .ok zipFile.members) {op : Op} (h : op.Possible zipFile)
    (disk : Disk) : ∃ r disk', Act False zipFile disk op r disk' := by
  cases op with
  | mkdir location =>
    cases hnode : disk.nodes location with
    | none => exact ⟨_, _, .created hnode⟩
    | some node =>
      cases node with
      | dir => exact ⟨_, _, .present hnode⟩
      | file content => exact ⟨_, _, .inTheWay hnode⟩
  | openMember name => exact ⟨_, _, .opened⟩
  | openWrite location =>
    by_cases hdir : disk.nodes location = some .dir
    · exact ⟨_, _, .isDirectory hdir⟩
    · exact ⟨_, _, .truncated hdir⟩
  | copy name location =>
    obtain ⟨member, -, -, hread⟩ := exists_member h
    exact ⟨_, _, .copied hopen hread⟩

theorem extractMember_possible {name : String} (hname : name ∈ zipFile.names) :
    (extractMember host targetDir root zipFile.root name).Uses (Op.Possible zipFile) := by
  cases htarget : host.resolve (targetDir.join (Posix.Path.parse (relative zipFile.root name))) with
  | none =>
    rw [extractMember_of_none htarget]
    trivial
  | some target =>
    by_cases hlegal : relative zipFile.root name = "" ∨ ¬ Below target root
    · rw [extractMember_of_illegal htarget hlegal]
      trivial
    · rw [extractMember_of_legal htarget hlegal]
      refine Prog.Uses.bind (Prog.Uses.forM fun _ => (Prog.uses_perform _).mpr trivial) fun _ => ?_
      refine Prog.Uses.bind ((Prog.uses_perform _).mpr trivial) fun _ => ?_
      refine Prog.Uses.bind ((Prog.uses_perform _).mpr trivial) fun _ => ?_
      exact (Prog.uses_perform _).mpr hname

/-- An extraction that cannot but return keeps off the archive's own file: reading from that file, once overwritten,
could fail. -/
theorem place_of_wp {name : String} (hopen : zipFile.content = .ok zipFile.members)
    (harchive : zipFile.location ≠ []) {disk : Disk} (hfile : IsFile disk zipFile.location)
    (hwp : (extractMember host targetDir root zipFile.root name).wp (Act False zipFile)
      (fun r _ => r = .ok ()) disk) :
    ∃ target, place host zipFile targetDir name = some target ∧ Below target root ∧
      ¬ zipFile.location <+: target := by
  cases hplace : host.resolve (targetDir.join (Posix.Path.parse (relative zipFile.root name))) with
  | none =>
    rw [extractMember_of_none hplace] at hwp
    cases hwp
  | some target =>
    by_cases hlegal : relative zipFile.root name = "" ∨ ¬ Below target root
    · rw [extractMember_of_illegal hplace hlegal] at hwp
      cases hwp
    rw [extractMember_of_legal hplace hlegal] at hwp
    have hbelow := not_not.mp (not_or.mp hlegal).2
    refine ⟨target, hplace, hbelow, fun hpre => ?_⟩
    -- a run of the directories on the way
    have hmkdirs : (mkdirParents target.dropLast).Uses (Op.Possible zipFile) :=
      Prog.Uses.forM fun _ => (Prog.uses_perform _).mpr trivial
    obtain ⟨r, disk₁, hrun⟩ := hmkdirs.exists_exec (fun _ hop => hop.progress hopen) disk
    have hfile₁ := hrun.wp hfile.wp
    have hnext := hrun.wp ((Prog.wp_bind _ _ _ _).mp hwp)
    cases r with
    | error e => cases hnext
    | ok _ =>
      by_cases heq : zipFile.location = target
      · -- the archive is truncated, and not found to be one any more
        subst heq
        have hdir : disk₁.nodes zipFile.location ≠ some .dir := by
          obtain ⟨content, hnode⟩ := hfile₁
          rw [hnode]
          exact nofun
        have hcopy := hnext (.ok ()) disk₁ .opened (.ok ()) _ (.truncated hdir) (.error (.badZipFile ""))
          (Disk.write _ zipFile.location (.file [])) (.misread List.mem_cons_self)
        cases hcopy
      · have hparent : zipFile.location ∈ target.dropLast.inits.tail := by
          obtain ⟨rest, rfl⟩ := hpre
          have hrest : rest ≠ [] := by
            rintro rfl
            exact heq (List.append_nil _).symm
          rw [List.dropLast_append_of_ne_nil hrest]
          have hmem : zipFile.location ∈ (zipFile.location ++ rest.dropLast).inits :=
            (List.mem_inits _ _).mpr (List.prefix_append _ _)
          have hcons : (zipFile.location ++ rest.dropLast).inits =
              [] :: (zipFile.location ++ rest.dropLast).inits.tail := by
            cases zipFile.location ++ rest.dropLast <;> rfl
          rw [hcons] at hmem
          exact (List.mem_cons.mp hmem).resolve_left harchive
        exact (hrun.wp (mkdir_blocked hfile hparent)) _ rfl

theorem places_of_wp {names : List String} (hnames : ∀ name ∈ names, name ∈ zipFile.names)
    (hopen : zipFile.content = .ok zipFile.members) (harchive : zipFile.location ≠ []) {disk : Disk}
    (hfile : IsFile disk zipFile.location)
    (hwp : (names.forM (extractMember host targetDir root zipFile.root)).wp (Act False zipFile)
      (fun r _ => r = .ok ()) disk) :
    ∀ name ∈ names, ∃ target, place host zipFile targetDir name = some target ∧ Below target root ∧
      ¬ zipFile.location <+: target := by
  induction names generalizing disk with
  | nil => exact nofun
  | cons name names ih =>
    have hname := hnames name List.mem_cons_self
    have hfirst := (Prog.wp_bind _ _ _ _).mp hwp
    -- a run of the first member leads to the others
    obtain ⟨r, disk₁, hrun⟩ :=
      (extractMember_possible hname).exists_exec (fun _ hop => hop.progress hopen) disk
    have hrest := hrun.wp hfirst
    cases r with
    | error e => cases hrest
    | ok _ =>
      intro name' hname'
      obtain rfl | hname' := List.mem_cons.mp hname'
      · refine place_of_wp hopen harchive hfile (Prog.wp_mono hfirst fun r _ h => ?_)
        cases r with
        | ok _ => rfl
        | error e => cases h
      · exact ih (fun name' hmem => hnames name' (List.mem_cons_of_mem _ hmem)) (hrun.wp hfile.wp) hrest
          name' hname'

/-! ## Main result -/

theorem Validated.exists_run {parseAppMeta : List UInt8 → Except String AppMeta} {appMeta : AppMeta}
    (hvalid : Validated parseAppMeta zipFile appMeta) (hroot : host.resolve targetDir = some root) (disk : Disk) :
    ∃ r disk', Prog.Exec (Act False zipFile) (extractAppZip host zipFile targetDir) disk r disk' := by
  rw [hvalid.extractAppZip_eq hroot]
  exact (Prog.Uses.forM_mem fun name hname => extractMember_possible hname).exists_exec
    (fun _ hop => hop.progress hvalid.opened) disk

theorem Extracted.single {disk : Disk} (h : Extracted host zipFile targetDir disk) {member member' : Member}
    (hmember : member ∈ contentMembers zipFile.members) (hmember' : member' ∈ contentMembers zipFile.members)
    (hsame : place host zipFile targetDir member.filename = place host zipFile targetDir member'.filename) :
    member.content = member'.content := by
  obtain ⟨target, hplace, hnode⟩ := h member hmember
  obtain ⟨target', hplace', hnode'⟩ := h member' hmember'
  rw [hsame, hplace'] at hplace
  obtain rfl := Option.some.inj hplace
  rw [hnode, Option.some.injEq, Node.file.injEq] at hnode'
  exact hnode'

/-- The `app_meta.json` on disk is the validated one. -/
def MetaStored (host : Posix.Host) (targetDir : Posix.Path) (parseAppMeta : List UInt8 → Except String AppMeta)
    (appMeta : AppMeta) (disk : Disk) : Prop :=
  ∃ target raw, host.resolve (targetDir.join (Posix.Path.parse "app_meta.json")) = some target ∧
    disk.nodes target = some (.file raw) ∧ parseAppMeta raw = .ok appMeta

theorem relative_append (prefix' name : String) : relative prefix' (prefix' ++ name) = name := by
  rw [relative, String.toList_append, ← String.length_toList, List.drop_left, String.ofList_toList]

theorem Validated.metaStored {parseAppMeta : List UInt8 → Except String AppMeta} {appMeta : AppMeta}
    (hvalid : Validated parseAppMeta zipFile appMeta) {disk : Disk} (h : Extracted host zipFile targetDir disk) :
    MetaStored host targetDir parseAppMeta appMeta disk := by
  obtain ⟨raw, hread, hparse⟩ := hvalid.parsed
  obtain ⟨member, hmember, hfilename, hread'⟩ := exists_member hvalid.app_meta
  rw [hread] at hread'
  obtain rfl := Option.some.inj hread'
  obtain ⟨target, hplace, hnode⟩ := h member hmember
  rw [place, hfilename, relative_append] at hplace
  exact ⟨target, member.content, hplace, hnode, hparse⟩

/-- The extraction of a validated archive succeeds and leaves every member under its name without the common root, the
validated `app_meta.json` among them, exactly if all names denote places below the directory that are not the archive's
file nor below it, and names that denote one place come with one content. -/
theorem extraction_faithful_iff (host : Posix.Host) (zipFile : ZipFile) (targetDir : Posix.Path) (root : Location)
    (nodes : Location → Option Node) (parseAppMeta : List UInt8 → Except String AppMeta) (appMeta : AppMeta)
    (hvalid : validateAppZip parseAppMeta zipFile = .ok appMeta)
    (hplaced : Placed host zipFile targetDir root nodes) :
    (extractAppZip host zipFile targetDir).wp (Act False zipFile)
      (fun r disk => r = .ok () ∧ Extracted host zipFile targetDir disk ∧
        MetaStored host targetDir parseAppMeta appMeta disk) ⟨nodes, []⟩ ↔
      Separate host zipFile targetDir root := by
  have hvalid := validated hvalid
  constructor
  · intro hwp
    have harchive : zipFile.location ≠ [] := by
      intro hnil
      have hpre := hplaced.stored.1
      rw [hnil] at hpre
      exact hplaced.stored.2 (hnil.trans (List.prefix_nil.mp hpre).symm)
    obtain ⟨r, disk, hrun⟩ := hvalid.exists_run hplaced.root_eq ⟨nodes, []⟩
    obtain ⟨-, hextracted, -⟩ := hrun.wp hwp
    constructor
    · have hok := Prog.wp_mono hwp fun _ _ h => h.1
      rw [hvalid.extractAppZip_eq hplaced.root_eq] at hok
      have hfile : IsFile ⟨nodes, []⟩ zipFile.location := hplaced.isFile
      exact places_of_wp (fun _ h => h) hvalid.opened harchive hfile hok
    · exact fun _ hmember _ hmember' hsame => hextracted.single hmember hmember' hsame
  · intro hseparate
    exact Prog.wp_mono (extracted_of_separate hvalid hplaced hseparate) fun _ _ h =>
      ⟨h.1, h.2, hvalid.metaStored h.2⟩

/-- A file system with an app's directory, in which there is nothing but an archive. -/
theorem placed_notes {members : List Member} (targets : List (String × Location))
    (hnames : (notesArchive members).names = targets.map (·.1))
    (hplaces : ∀ pair ∈ targets, place plainHost (notesArchive members) notesDir pair.1 = some pair.2)
    (hfree : ∀ pair ∈ targets, notesNodes pair.2 ≠ some .dir)
    (hapart : ∀ pair ∈ targets, ∀ pair' ∈ targets, pair.2 <+: pair'.2 → pair.2 = pair'.2) :
    Placed plainHost (notesArchive members) notesDir ["apps", "notes"] notesNodes where
  root_eq := by decide
  stored := (by decide : Below ["apps", "notes", "notes.zip"] ["apps", "notes"])
  isFile := ⟨[], rfl⟩
  free name hname target hplace _ := by
    rw [hnames] at hname
    obtain ⟨pair, hpair, rfl⟩ := List.mem_map.mp hname
    rw [hplaces pair hpair] at hplace
    obtain rfl := Option.some.inj hplace
    refine ⟨hfree pair hpair, fun parent _ _ hother content hfile => ?_⟩
    unfold notesNodes at hfile
    split at hfile
    · cases hfile
    · split at hfile
      · next harchive => exact hother harchive
      · cases hfile
  apart name hname name' hname' target target' hplace hplace' _ hpre := by
    rw [hnames] at hname hname'
    obtain ⟨pair, hpair, rfl⟩ := List.mem_map.mp hname
    obtain ⟨pair', hpair', rfl⟩ := List.mem_map.mp hname'
    rw [hplaces pair hpair] at hplace
    rw [hplaces pair' hpair'] at hplace'
    obtain rfl := Option.some.inj hplace
    obtain rfl := Option.some.inj hplace'
    exact hapart pair hpair pair' hpair' hpre

/-- The first byte tells whether it is a description of the app. -/
def parseNotes (raw : List UInt8) : Except String AppMeta :=
  if raw = [1] then .ok (.named "notes") else .error "Field required"

/-- Three files, one of them in a directory of its own. -/
def flatArchive : ZipFile := notesArchive
  [⟨"app_meta.json", [1]⟩, ⟨"docker-compose.yml.template", [2]⟩, ⟨"config/a.yml", [3]⟩]

theorem flatArchive_placed : Placed plainHost flatArchive notesDir ["apps", "notes"] notesNodes :=
  placed_notes [("app_meta.json", ["apps", "notes", "app_meta.json"]),
      ("docker-compose.yml.template", ["apps", "notes", "docker-compose.yml.template"]),
      ("config/a.yml", ["apps", "notes", "config", "a.yml"])]
    (by decide +kernel) (by decide +kernel) (by decide +kernel) (by decide +kernel)

theorem flatArchive_separate : Separate plainHost flatArchive notesDir ["apps", "notes"] where
  below name hname := by
    have hall : flatArchive.names.all (fun name =>
        (place plainHost flatArchive notesDir name).any fun target =>
          decide (Below target ["apps", "notes"] ∧ ¬ flatArchive.location <+: target)) = true := by
      decide +kernel
    obtain ⟨target, hplace, hbelow⟩ := (Option.any_eq_true _ _).mp (List.all_eq_true.mp hall name hname)
    exact ⟨target, hplace, of_decide_eq_true hbelow⟩
  single := by decide +kernel

/-- All three files are there in the end. -/
theorem extraction_faithful_flat : (extractAppZip plainHost flatArchive notesDir).wp (Act False flatArchive)
      (fun r disk => r = .ok () ∧ Extracted plainHost flatArchive notesDir disk ∧
        MetaStored plainHost notesDir parseNotes (.named "notes") disk) ⟨notesNodes, []⟩ := by
  have hvalid : validateAppZip parseNotes flatArchive = .ok (.named "notes") := by decide +kernel
  exact (extraction_faithful_iff _ _ _ _ _ _ _ hvalid flatArchive_placed).mpr flatArchive_separate

/-- Two spellings of one name. -/
def doubledArchive : ZipFile := notesArchive
  [⟨"app_meta.json", [1]⟩, ⟨"docker-compose.yml.template", [2]⟩, ⟨"./app_meta.json", [3]⟩]

theorem doubledArchive_valid : validateAppZip parseNotes doubledArchive = .ok (.named "notes") := by
  decide +kernel

theorem doubledArchive_placed : Placed plainHost doubledArchive notesDir ["apps", "notes"] notesNodes :=
  placed_notes [("app_meta.json", ["apps", "notes", "app_meta.json"]),
      ("docker-compose.yml.template", ["apps", "notes", "docker-compose.yml.template"]),
      ("./app_meta.json", ["apps", "notes", "app_meta.json"])]
    (by decide +kernel) (by decide +kernel) (by decide +kernel) (by decide +kernel)

/-- The second spelling takes the place of the validated file. -/
theorem extraction_unfaithful :
    validateAppZip parseNotes doubledArchive = .ok (.named "notes") ∧
    Placed plainHost doubledArchive notesDir ["apps", "notes"] notesNodes ∧
    ¬ (extractAppZip plainHost doubledArchive notesDir).wp (Act False doubledArchive)
      (fun r disk => r = .ok () ∧ Extracted plainHost doubledArchive notesDir disk ∧
        MetaStored plainHost notesDir parseNotes (.named "notes") disk) ⟨notesNodes, []⟩ := by
  refine ⟨doubledArchive_valid, doubledArchive_placed, fun hwp => ?_⟩
  obtain ⟨r, disk, hrun⟩ := (validated doubledArchive_valid).exists_run doubledArchive_placed.root_eq ⟨notesNodes, []⟩
  have hextracted := (hrun.wp hwp).2.1
  have hplace : place plainHost doubledArchive notesDir "app_meta.json" =
      place plainHost doubledArchive notesDir "./app_meta.json" := by decide +kernel
  have hmem : ⟨"app_meta.json", [1]⟩ ∈ contentMembers doubledArchive.members := by decide +kernel
  have hmem' : ⟨"./app_meta.json", [3]⟩ ∈ contentMembers doubledArchive.members := by decide +kernel
  have hsame := hextracted.single hmem hmem' hplace
  exact absurd hsame (by decide)

end Freeshard.AppZip

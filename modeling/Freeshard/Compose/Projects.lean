import Freeshard.Service.AppZip
import Freeshard.System.Frames
import Freeshard.Util.Text
import Mathlib.Data.List.TakeWhile

/-! # Compose projects of apps

What `normalize_project_name` yields: a project name that compose leaves as it is. On the names that app
archives may have it only lowers letters, so two apps share a project exactly if their names differ in
nothing but the case of letters. -/

namespace Freeshard
set_option autoImplicit false

/-! ## Normalized names -/

/-- `[a-z0-9]`. -/
def isProjectStart (c : Char) : Bool := ('a' ≤ c && c ≤ 'z') || ('0' ≤ c && c ≤ '9')

/-- `[a-z0-9][a-z0-9_-]*`. -/
def matchesProjectPattern (project : String) : Bool :=
  match project.toList with
  | [] => false
  | c :: rest => isProjectStart c && rest.all isProjectChar

/-- Leading underscores and hyphens are dropped. -/
def isSeparator (c : Char) : Bool := c == '_' || c == '-'

theorem isProjectStart_of_not_separator {c : Char} (h : isProjectChar c = true)
    (hsep : isSeparator c = false) : isProjectStart c = true := by
  unfold isProjectChar at h
  unfold isSeparator at hsep
  rw [Bool.or_assoc, hsep, Bool.or_false] at h
  exact h

theorem isProjectChar_of_projectChar {c d : Char} (h : projectChar c = some d) :
    isProjectChar d = true := by
  unfold projectChar at h
  split_ifs at h with hcapital hchar hkelvin hdotted
  · obtain rfl := Option.some.inj h
    simp only [Bool.and_eq_true, decide_eq_true_eq] at hcapital
    have hcapitals : ∀ n < 128, 65 ≤ n → n ≤ 90 → isProjectChar (Char.ofNat (n + 32)) = true := by
      decide
    have hlow : 65 ≤ c.toNat := hcapital.1
    have hhigh : c.toNat ≤ 90 := hcapital.2
    exact hcapitals c.toNat (by omega) hlow hhigh
  · obtain rfl := Option.some.inj h
    exact hchar
  · obtain rfl := Option.some.inj h
    decide
  · obtain rfl := Option.some.inj h
    decide

theorem projectChar_of_isProjectChar {c : Char} (h : isProjectChar c = true) :
    projectChar c = some c := by
  unfold projectChar
  rw [if_neg, if_pos h]
  intro hcapital
  simp only [Bool.and_eq_true, decide_eq_true_eq] at hcapital
  simp only [isProjectChar, Bool.or_eq_true, Bool.and_eq_true, decide_eq_true_eq, beq_iff_eq] at h
  have hlow : 65 ≤ c.toNat := hcapital.1
  have hhigh : c.toNat ≤ 90 := hcapital.2
  obtain ((⟨ha, -⟩ | ⟨-, hz⟩) | rfl) | rfl := h
  · have ha : 97 ≤ c.toNat := ha
    omega
  · have hz : c.toNat ≤ 57 := hz
    omega
  · exact absurd hhigh (by decide)
  · exact absurd hlow (by decide)

theorem normalizeProjectName_toList (name : String) : (normalizeProjectName name).toList =
    (name.toList.filterMap projectChar).dropWhile isSeparator := by
  rw [normalizeProjectName, String.toList_ofList]
  rfl

theorem normalizeProjectName_chars {name : String} :
    ∀ c ∈ (normalizeProjectName name).toList, isProjectChar c = true := by
  intro c hc
  rw [normalizeProjectName_toList] at hc
  obtain ⟨d, -, hd⟩ := List.mem_filterMap.mp ((List.dropWhile_sublist _).subset hc)
  exact isProjectChar_of_projectChar hd

theorem normalizeProjectName_start {name : String} {c : Char} {rest : List Char}
    (h : (normalizeProjectName name).toList = c :: rest) : isSeparator c = false := by
  rw [normalizeProjectName_toList] at h
  have hne : (name.toList.filterMap projectChar).dropWhile isSeparator ≠ [] := by
    rw [h]
    exact List.cons_ne_nil c rest
  have hnot := List.head_dropWhile_not isSeparator hne
  simpa [h] using hnot

theorem matchesProjectPattern_normalize {name : String} (h : normalizeProjectName name ≠ "") :
    matchesProjectPattern (normalizeProjectName name) = true := by
  have hchars := @normalizeProjectName_chars name
  unfold matchesProjectPattern
  split
  · next hnil => exact absurd (String.ext hnil) h
  · next c rest hlist =>
    rw [hlist] at hchars
    have hstart := normalizeProjectName_start hlist
    rw [isProjectStart_of_not_separator (hchars c List.mem_cons_self) hstart, Bool.true_and,
      List.all_eq_true]
    exact fun d hd => hchars d (List.mem_cons_of_mem c hd)

theorem normalizeProjectName_idempotent (name : String) :
    normalizeProjectName (normalizeProjectName name) = normalizeProjectName name := by
  have hsome : ∀ c ∈ (normalizeProjectName name).toList, projectChar c = some (id c) :=
    fun c hc => projectChar_of_isProjectChar (normalizeProjectName_chars c hc)
  refine String.ext ?_
  rw [normalizeProjectName_toList (normalizeProjectName name),
    List.filterMap_eq_map_iff_forall_eq_some.mpr hsome, List.map_id]
  cases hlist : (normalizeProjectName name).toList with
  | nil => rfl
  | cons c rest =>
    refine List.dropWhile_cons_of_neg ?_
    rw [normalizeProjectName_start hlist]
    decide

/-! ## Names from archives -/

theorem projectChar_of_isNameChar {c : Char} (h : isNameChar c = true) :
    projectChar c = some c.toLower := by
  have hascii : ∀ n < 128, isNameChar (Char.ofNat n) = true →
      (projectChar (Char.ofNat n) == some (Char.ofNat n).toLower) = true := by
    decide
  have hc := isNameChar_forall (P := fun c => projectChar c == some c.toLower) hascii h
  exact beq_iff_eq.mp hc

theorem isSeparator_toLower {c : Char} (h : isNameStart c = true) :
    isSeparator c.toLower = false := by
  have hascii : ∀ n < 128, isNameChar (Char.ofNat n) = true →
      (!isNameStart (Char.ofNat n) || !isSeparator (Char.ofNat n).toLower) = true := by
    decide
  have hc : isNameChar c = true := by
    rw [isNameChar, h]
    rfl
  have hsep := isNameChar_forall (P := fun c => !isNameStart c || !isSeparator c.toLower) hascii hc
  rw [h] at hsep
  simpa using hsep

theorem normalizeProjectName_eq_lower {name : String} (h : appNamePattern name = true) :
    normalizeProjectName name = lower name := by
  have hkept : name.toList.filterMap projectChar = name.toList.map Char.toLower :=
    List.filterMap_eq_map_iff_forall_eq_some.mpr fun c hc =>
      projectChar_of_isNameChar (appNamePattern_chars h c hc)
  obtain ⟨c, rest, hname, hstart⟩ := appNamePattern_head h
  refine String.ext ?_
  rw [normalizeProjectName_toList, hkept, lower, String.toList_ofList, hname, List.map_cons,
    List.dropWhile_cons_of_neg]
  rw [isSeparator_toLower hstart]
  decide

/-! ## Main result -/

/-- The apps have different projects exactly if their names differ in more than the case of letters; then no
command for one app changes the containers of the other. -/
theorem projects_distinct_iff {a b : String} {dirA dirB : Option AppDir} {ca cb : ComposeCommand}
    (ha : appNamePattern a = true) (hb : appNamePattern b = true)
    (hca : appComposeCommand a dirA = .ok ca) (hcb : appComposeCommand b dirB = .ok cb) :
    (ca.project ≠ cb.project ↔ lower a ≠ lower b) ∧
    (lower a ≠ lower b → ∀ E i s cmd r s', Act E i s (.compose a cmd) r s' →
      s'.world.stack b = s.world.stack b) := by
  have hpa : normalizeProjectName a = lower a := normalizeProjectName_eq_lower ha
  have hpb : normalizeProjectName b = lower b := normalizeProjectName_eq_lower hb
  rw [appComposeCommand_project hca, appComposeCommand_project hcb, hpa, hpb]
  refine ⟨Iff.rfl, fun hlower E i s cmd r s' hact => hact.frame.stack b ?_⟩
  rw [Op.commands, hpa, hpb]
  exact beq_false_of_ne hlower

/-- Two apps side by side. -/
theorem projects_distinct_iff_apps :
    (appNamePattern "notes" = true ∧ appNamePattern "Photos" = true ∧
      appComposeCommand "notes" (some { compose := true }) = .ok ⟨"notes", "notes"⟩ ∧
      appComposeCommand "Photos" (some { compose := true }) = .ok ⟨"Photos", "photos"⟩) ∧
    ("notes" ≠ "photos" ↔ lower "notes" ≠ lower "Photos") ∧
    (lower "notes" ≠ lower "Photos" → ∀ E i s cmd r s', Act E i s (.compose "notes" cmd) r s' →
      s'.world.stack "Photos" = s.world.stack "Photos") := by
  have hnotes : appComposeCommand "notes" (some { compose := true }) = .ok ⟨"notes", "notes"⟩ := by
    decide
  have hphotos : appComposeCommand "Photos" (some { compose := true }) =
      .ok ⟨"Photos", "photos"⟩ := by
    decide
  exact ⟨⟨by decide, by decide, hnotes, hphotos⟩,
    projects_distinct_iff (by decide) (by decide) hnotes hphotos⟩

/-- Names that differ in the case of a letter share a project. -/
theorem projects_shared : ¬ ∀ (a b : String) (dirA dirB : Option AppDir) (ca cb : ComposeCommand),
    appNamePattern a = true → appNamePattern b = true → a ≠ b →
    appComposeCommand a dirA = .ok ca → appComposeCommand b dirB = .ok cb →
    ca.project ≠ cb.project := by
  intro h
  have hlower : appComposeCommand "notes" (some { compose := true }) = .ok ⟨"notes", "notes"⟩ := by
    decide
  have hupper : appComposeCommand "Notes" (some { compose := true }) = .ok ⟨"Notes", "notes"⟩ := by
    decide
  exact h "notes" "Notes" _ _ _ _ (by decide) (by decide) (by decide) hlower hupper rfl

end Freeshard

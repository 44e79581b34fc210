import Freeshard.Util.Whitespace
import Mathlib.Data.List.Nodup

/-! # Passphrases

`util/passphrase.py`: numbers of five dice each, and the words that a list has for them. Every number has one word, so a
passphrase is as hard to guess as its numbers. -/

namespace Freeshard.Passphrase
set_option autoImplicit false

inductive Exn where
  | value (text : String)
  | index
  deriving DecidableEq, Repr

/-! ## The functions -/

/-- `generate_passphrase_numbers`, with what `secrets.choice("123456")` yields. -/
def generatePassphraseNumbers (choice : ℕ → ℕ → Char) (length : ℕ) : List String :=
  (List.range length).map fun i => String.ofList ((List.range 5).map (choice i))

/-- The first of the lines that starts with the number, and the lines after it. -/
def findLine (number : String) : List String → Option (String × List String)
  | [] => none
  | line :: lines =>
    if number.toList.isPrefixOf line.toList then some (line, lines) else findLine number lines

/-- `line.split()[1]`. -/
def secondWord (line : String) : Except Exn String :=
  match Text.split line with
  | _ :: word :: _ => .ok word
  | _ => .error .index

/-- The loop of `get_passphrase`: `rest` is what has not been read of the file, which is rewound after each number. -/
def collectWords (file : List String) : List String → List String → List String → Except Exn (List String)
  | [], _, words => .ok words
  | number :: numbers, rest, words =>
    match findLine number rest with
    | none => .error (.value s!"Number {number} not found in wordlist")
    | some (line, _) =>
      match secondWord line with
      | .error e => .error e
      | .ok word => collectWords file numbers file (words ++ [word])

/-- `get_passphrase`; `file` are the lines of `eff_large_wordlist.txt`. -/
def getPassphrase (file : List String) (phraseNumbers : List String) : Except Exn String :=
  (collectWords file phraseNumbers file []).map (" ".intercalate ·)

/-! ## Word lists -/

structure Entry where
  number : String
  word : String
  deriving DecidableEq, Repr

/-- The line of an entry in the file. -/
def Entry.line (e : Entry) : String := e.number ++ "\t" ++ e.word ++ "\n"

/-- Five dice. -/
def IsNumber (number : String) : Prop := number.toList.length = 5 ∧ ∀ c ∈ number.toList, c ∈ "123456".toList

instance (number : String) : Decidable (IsNumber number) :=
  decidable_of_iff (number.toList.length = 5 ∧ (number.toList.all fun c => "123456".toList.contains c) = true)
    (by simp [IsNumber])

/-- A list in which no word occurs twice. -/
structure IsWordlist (entries : List Entry) : Prop where
  number : ∀ e ∈ entries, IsNumber e.number
  word : ∀ e ∈ entries, Text.IsWord e.word.toList
  words : (entries.map Entry.word).Nodup

variable {entries : List Entry} {number : String} {e : Entry}

theorem isNumber_of_generated {choice : ℕ → ℕ → Char} (h : ∀ i j, choice i j ∈ "123456".toList) (length : ℕ) :
    ∀ number ∈ generatePassphraseNumbers choice length, IsNumber number := by
  intro number hmem
  obtain ⟨i, -, rfl⟩ := List.mem_map.mp hmem
  rw [IsNumber, String.toList_ofList]
  refine ⟨by simp, fun c hc => ?_⟩
  obtain ⟨j, -, rfl⟩ := List.mem_map.mp hc
  exact h i j

theorem isWord_of_isNumber (h : IsNumber number) : Text.IsWord number.toList := by
  refine ⟨List.ne_nil_of_length_eq_add_one h.1, fun c hc => ?_⟩
  have hdice : Text.IsWord "123456".toList := by decide
  exact hdice.2 c (h.2 c hc)

/-! ## Lines -/

theorem line_toList (e : Entry) : e.line.toList = e.number.toList ++ '\t' :: (e.word.toList ++ ['\n']) := by
  have htab : "\t".toList = ['\t'] := rfl
  have hend : "\n".toList = ['\n'] := rfl
  rw [Entry.line, String.toList_append, String.toList_append, String.toList_append, htab, hend]
  simp only [List.append_assoc, List.cons_append, List.nil_append]

/-- The line of an entry starts with no other number than that of the entry. -/
theorem line_starts (h : IsNumber number) (he : IsNumber e.number) :
    number.toList.isPrefixOf e.line.toList = true ↔ e.number = number := by
  rw [List.isPrefixOf_iff_prefix, line_toList]
  constructor
  · intro hstarts
    have hstarts : number.toList <+: e.number.toList :=
      List.prefix_of_prefix_length_le hstarts (List.prefix_append _ _) (by rw [h.1, he.1])
    exact (String.toList_inj.mp (hstarts.eq_of_length (by rw [h.1, he.1]))).symm
  · rintro rfl
    exact List.prefix_append _ _

theorem secondWord_line (hnumber : IsNumber e.number) (hword : Text.IsWord e.word.toList) :
    secondWord e.line = .ok e.word := by
  have hwords : Text.words e.line.toList = [e.number.toList, e.word.toList] := by
    rw [line_toList, Text.words_word_cons (isWord_of_isNumber hnumber) _ rfl, Text.words_word_cons hword [] rfl,
      Text.words_nil]
  rw [secondWord, Text.split, hwords]
  simp only [List.map_cons, List.map_nil, String.ofList_toList]

/-- A number is looked up by its entry. -/
theorem findLine_entries (h : ∀ e ∈ entries, IsNumber e.number) (hnumber : IsNumber number) :
    (findLine number (entries.map Entry.line)).map (·.1) =
      (entries.find? fun e => e.number = number).map Entry.line := by
  induction entries with
  | nil => rfl
  | cons e entries ih =>
    have hstarts := line_starts hnumber (h e List.mem_cons_self)
    rw [List.map_cons, findLine, List.find?_cons]
    by_cases heq : e.number = number
    · rw [if_pos (hstarts.mpr heq), decide_eq_true heq]
      rfl
    · rw [if_neg (fun hs => heq (hstarts.mp hs)), decide_eq_false heq]
      exact ih fun e' hmem => h e' (List.mem_cons_of_mem _ hmem)

/-! ## Passphrases and their numbers -/

/-- The word of a number. -/
def wordOf (entries : List Entry) (number : String) : Option String :=
  (entries.find? fun e => e.number = number).map Entry.word

/-- The words are collected number by number, up to the first number without one. -/
theorem collectWords_entries (h : IsWordlist entries) (numbers words : List String)
    (hnumbers : ∀ number ∈ numbers, IsNumber number) :
    collectWords (entries.map Entry.line) numbers (entries.map Entry.line) words =
      match numbers.find? fun number => (wordOf entries number).isNone with
      | some number => .error (.value s!"Number {number} not found in wordlist")
      | none => .ok (words ++ numbers.filterMap (wordOf entries)) := by
  induction numbers generalizing words with
  | nil => exact congrArg Except.ok (List.append_nil _).symm
  | cons number numbers ih =>
    have hfind := findLine_entries h.number (hnumbers number List.mem_cons_self)
    have hrest := fun words => ih words fun number' hmem => hnumbers number' (List.mem_cons_of_mem _ hmem)
    rw [collectWords, List.find?_cons]
    cases hentry : entries.find? fun e => e.number = number with
    | none =>
      rw [hentry] at hfind
      rw [wordOf, hentry, Option.map_eq_none_iff.mp hfind]
      rfl
    | some e =>
      rw [hentry] at hfind
      obtain ⟨⟨line, rest⟩, hline, rfl⟩ := Option.map_eq_some_iff.mp hfind
      have hmem := List.mem_of_find?_eq_some hentry
      have hword : wordOf entries number = some e.word := by rw [wordOf, hentry]; rfl
      rw [hline, hword]
      simp only [secondWord_line (h.number e hmem) (h.word e hmem)]
      rw [hrest, List.filterMap_cons, hword]
      simp only [List.append_assoc, List.singleton_append, Option.isNone_some]

theorem wordOf_eq_some {word : String} (h : wordOf entries number = some word) :
    ∃ e ∈ entries, e.number = number ∧ e.word = word := by
  obtain ⟨e, he, rfl⟩ := Option.map_eq_some_iff.mp h
  exact ⟨e, List.mem_of_find?_eq_some he, by simpa using List.find?_some he, rfl⟩

/-- No word has two numbers. -/
theorem wordOf_injective (h : IsWordlist entries) {number number' word : String}
    (hn : wordOf entries number = some word) (hn' : wordOf entries number' = some word) : number = number' := by
  obtain ⟨e, he, rfl, hword⟩ := wordOf_eq_some hn
  obtain ⟨e', he', rfl, hword'⟩ := wordOf_eq_some hn'
  rw [List.inj_on_of_nodup_map h.words he he' (hword.trans hword'.symm)]

theorem isWord_of_wordOf (h : IsWordlist entries) {word : String} (hn : wordOf entries number = some word) :
    Text.IsWord word.toList := by
  obtain ⟨e, he, -, rfl⟩ := wordOf_eq_some hn
  exact h.word e he

/-- The words of a passphrase. -/
theorem split_passphrase (h : IsWordlist entries) (numbers : List String) :
    Text.split (" ".intercalate (numbers.filterMap (wordOf entries))) = numbers.filterMap (wordOf entries) := by
  have hspace : " ".toList = [' '] := rfl
  have hwords : ∀ text ∈ (numbers.filterMap (wordOf entries)).map String.toList, Text.IsWord text := by
    intro text htext
    obtain ⟨word, hword, rfl⟩ := List.mem_map.mp htext
    obtain ⟨number, -, hnumber⟩ := List.mem_filterMap.mp hword
    exact isWord_of_wordOf h hnumber
  rw [Text.split, String.toList_intercalate, hspace, Text.words_intercalate rfl hwords, List.map_map]
  conv_rhs => rw [← List.map_id (numbers.filterMap (wordOf entries))]
  exact List.map_congr_left fun word _ => String.ofList_toList

/-- Numbers that all have words are told apart by them. -/
theorem filterMap_wordOf_injective (h : IsWordlist entries) {numbers numbers' : List String}
    (hn : ∀ number ∈ numbers, (wordOf entries number).isSome = true)
    (hn' : ∀ number ∈ numbers', (wordOf entries number).isSome = true)
    (heq : numbers.filterMap (wordOf entries) = numbers'.filterMap (wordOf entries)) : numbers = numbers' := by
  induction numbers generalizing numbers' with
  | nil =>
    cases numbers' with
    | nil => rfl
    | cons number' numbers' =>
      obtain ⟨word, hword⟩ := Option.isSome_iff_exists.mp (hn' number' List.mem_cons_self)
      rw [List.filterMap_nil, List.filterMap_cons, hword] at heq
      cases heq
  | cons number numbers ih =>
    obtain ⟨word, hword⟩ := Option.isSome_iff_exists.mp (hn number List.mem_cons_self)
    cases numbers' with
    | nil =>
      rw [List.filterMap_nil, List.filterMap_cons, hword] at heq
      cases heq
    | cons number' numbers' =>
      obtain ⟨word', hword'⟩ := Option.isSome_iff_exists.mp (hn' number' List.mem_cons_self)
      rw [List.filterMap_cons, List.filterMap_cons, hword, hword'] at heq
      obtain ⟨rfl, hrest⟩ := List.cons.inj heq
      rw [wordOf_injective h hword hword', ih (fun n hmem => hn n (List.mem_cons_of_mem _ hmem))
        (fun n hmem => hn' n (List.mem_cons_of_mem _ hmem)) hrest]

theorem getPassphrase_entries (h : IsWordlist entries) {numbers : List String}
    (hnumbers : ∀ number ∈ numbers, IsNumber number) :
    getPassphrase (entries.map Entry.line) numbers =
      match numbers.find? fun number => (wordOf entries number).isNone with
      | some number => .error (.value s!"Number {number} not found in wordlist")
      | none => .ok (" ".intercalate (numbers.filterMap (wordOf entries))) := by
  rw [getPassphrase, collectWords_entries h numbers [] hnumbers]
  cases numbers.find? fun number => (wordOf entries number).isNone <;> rfl

/-- Every number of a list has a word in it. -/
theorem isSome_of_find_eq_none {numbers : List String}
    (h : (numbers.find? fun number => (wordOf entries number).isNone) = none) :
    ∀ number ∈ numbers, (wordOf entries number).isSome = true := by
  intro number hmem
  have hword := List.find?_eq_none.mp h number hmem
  simpa [Option.isSome_iff_ne_none] using hword

/-- A passphrase comes from one list of numbers only. -/
theorem getPassphrase_injective (h : IsWordlist entries) {numbers numbers' : List String}
    (hnumbers : ∀ number ∈ numbers, IsNumber number) (hnumbers' : ∀ number ∈ numbers', IsNumber number)
    {passphrase : String} (hp : getPassphrase (entries.map Entry.line) numbers = .ok passphrase)
    (hp' : getPassphrase (entries.map Entry.line) numbers' = .ok passphrase) : numbers = numbers' := by
  rw [getPassphrase_entries h hnumbers] at hp
  rw [getPassphrase_entries h hnumbers'] at hp'
  cases hfind : numbers.find? fun number => (wordOf entries number).isNone with
  | some number =>
    rw [hfind] at hp
    cases hp
  | none =>
    cases hfind' : numbers'.find? fun number => (wordOf entries number).isNone with
    | some number =>
      rw [hfind'] at hp'
      cases hp'
    | none =>
      rw [hfind] at hp
      rw [hfind'] at hp'
      have hsplit := congrArg Text.split ((Except.ok.inj hp).trans (Except.ok.inj hp').symm)
      rw [split_passphrase h, split_passphrase h] at hsplit
      exact filterMap_wordOf_injective h (isSome_of_find_eq_none hfind) (isSome_of_find_eq_none hfind') hsplit

/-- There is a passphrase, or a first number without a word, which is reported. -/
theorem getPassphrase_cases (h : IsWordlist entries) {numbers : List String}
    (hnumbers : ∀ number ∈ numbers, IsNumber number) :
    (∃ passphrase, getPassphrase (entries.map Entry.line) numbers = .ok passphrase) ∨
      ∃ before number after, numbers = before ++ number :: after ∧ (∀ e ∈ entries, e.number ≠ number) ∧
        (∀ n ∈ before, ∃ e ∈ entries, e.number = n) ∧
        getPassphrase (entries.map Entry.line) numbers =
          .error (.value s!"Number {number} not found in wordlist") := by
  rw [getPassphrase_entries h hnumbers]
  cases hfind : numbers.find? fun number => (wordOf entries number).isNone with
  | none => exact .inl ⟨_, rfl⟩
  | some number =>
    obtain ⟨hnone, before, after, rfl, hbefore⟩ := List.find?_eq_some_iff_append.mp hfind
    refine .inr ⟨before, number, after, rfl, fun e he heq => ?_, fun n hn => ?_, rfl⟩
    · rw [wordOf, Option.isNone_iff_eq_none, Option.map_eq_none_iff, List.find?_eq_none] at hnone
      exact hnone e he (by simpa using heq)
    · have hsome : (wordOf entries n).isSome = true := by simpa [Option.isSome_iff_ne_none] using hbefore n hn
      obtain ⟨word, hword⟩ := Option.isSome_iff_exists.mp hsome
      obtain ⟨e, he, hnumber, -⟩ := wordOf_eq_some hword
      exact ⟨e, he, hnumber⟩

/-- The numbers tell what was thrown. -/
theorem choice_of_generated {choice choice' : ℕ → ℕ → Char} {length length' : ℕ}
    (h : generatePassphraseNumbers choice length = generatePassphraseNumbers choice' length') :
    length = length' ∧ ∀ i < length, ∀ j < 5, choice i j = choice' i j := by
  have hlength : length = length' := by simpa [generatePassphraseNumbers] using congrArg List.length h
  subst hlength
  refine ⟨rfl, fun i hi j hj => ?_⟩
  have hnumber := List.map_inj_left.mp h i (List.mem_range.mpr hi)
  have hchars : (List.range 5).map (choice i) = (List.range 5).map (choice' i) := String.ofList_injective hnumber
  exact List.map_inj_left.mp hchars j (List.mem_range.mpr hj)

/-- With a word list in which no word occurs twice, a generated passphrase tells every die that was thrown for it; and
there is one, unless some number has no word, of which the first is reported. -/
theorem passphrase_of_dice (h : IsWordlist entries) {choice : ℕ → ℕ → Char}
    (hchoice : ∀ i j, choice i j ∈ "123456".toList) (length : ℕ) :
    (∀ choice' length' passphrase, (∀ i j, choice' i j ∈ "123456".toList) →
      getPassphrase (entries.map Entry.line) (generatePassphraseNumbers choice length) = .ok passphrase →
      getPassphrase (entries.map Entry.line) (generatePassphraseNumbers choice' length') = .ok passphrase →
      length = length' ∧ ∀ i < length, ∀ j < 5, choice i j = choice' i j) ∧
    ((∃ passphrase,
        getPassphrase (entries.map Entry.line) (generatePassphraseNumbers choice length) = .ok passphrase) ∨
      ∃ before number after, generatePassphraseNumbers choice length = before ++ number :: after ∧
        (∀ e ∈ entries, e.number ≠ number) ∧ (∀ n ∈ before, ∃ e ∈ entries, e.number = n) ∧
        getPassphrase (entries.map Entry.line) (generatePassphraseNumbers choice length) =
          .error (.value s!"Number {number} not found in wordlist")) :=
  ⟨fun _ _ _ hchoice' hp hp' => choice_of_generated
    (getPassphrase_injective h (isNumber_of_generated hchoice _) (isNumber_of_generated hchoice' _) hp hp'),
    getPassphrase_cases h (isNumber_of_generated hchoice length)⟩

/-- The first two lines of a list. -/
def abacus : List Entry := [⟨"11111", "abacus"⟩, ⟨"11112", "abdomen"⟩]

theorem isWordlist_abacus : IsWordlist abacus where
  number := by decide
  word := by decide
  words := by decide

/-- Only ones are thrown. -/
theorem passphrase_of_dice_abacus :
    getPassphrase (abacus.map Entry.line) (generatePassphraseNumbers (fun _ _ => '1') 2) = .ok "abacus abacus" ∧
    ∀ choice' length', (∀ i j, choice' i j ∈ "123456".toList) →
      getPassphrase (abacus.map Entry.line) (generatePassphraseNumbers choice' length') = .ok "abacus abacus" →
      2 = length' ∧ ∀ i < 2, ∀ j < 5, '1' = choice' i j := by
  have hp : getPassphrase (abacus.map Entry.line) (generatePassphraseNumbers (fun _ _ => '1') 2) =
      .ok "abacus abacus" := by decide +kernel
  have hones : ∀ _ _ : ℕ, '1' ∈ "123456".toList := fun _ _ => by decide
  exact ⟨hp, fun choice' length' hchoice' hp' =>
    (passphrase_of_dice isWordlist_abacus hones 2).1 choice' length' _ hchoice' hp hp'⟩

end Freeshard.Passphrase

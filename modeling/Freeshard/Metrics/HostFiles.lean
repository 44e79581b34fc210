import Freeshard.Util.Search
import Freeshard.Util.Whitespace
import Mathlib.Algebra.Order.Ring.Rat
import Mathlib.Tactic.FieldSimp
import Mathlib.Tactic.Ring

/-! # What the kernel reports

The memory pressure that `service/memory_pressure.py` reads for every tick, and the use of swap that
`service/telemetry.py` reads for every report. Both are found in the text of a file of the host, which may be missing. -/

namespace Freeshard.HostFiles
set_option autoImplicit false

/-- `ValueError`. -/
inductive Exn where
  | valueError (text : String)
  deriving DecidableEq, Repr

/-! ## Memory pressure -/

/-- `float(text)` of digits and dots, exactly. -/
def float (text : List Char) : Except Exn ℚ :=
  let digits (text : List Char) : ℚ := Nat.ofDigitChars 10 text 0
  match text.splitOnP (· == '.') with
  | [whole] => if whole = [] then .error (.valueError (String.ofList text)) else .ok (digits whole)
  | [whole, fraction] =>
    if whole ++ fraction = [] then .error (.valueError (String.ofList text))
    else .ok (digits (whole ++ fraction) / 10 ^ fraction.length)
  | _ => .error (.valueError (String.ofList text))

/-- `_PSI_SOME_AVG10_RE`, up to its group. -/
def psiSomeAvg10 : Text.Matcher (List Char) :=
  Text.literal "some".toList (Text.lazily (Text.literal "avg10=".toList
    (Text.some1 (fun c => c.isDigit || c == '.') fun group _ => some group)))

/-- `read_memory_pressure`; there is no file if it cannot be read. -/
def readMemoryPressure (file : Option String) : Except Exn ℚ :=
  match file with
  | none => .ok 0
  | some text =>
    match Text.search psiSomeAvg10 text.toList with
    | none => .ok 0
    | some group => float group

/-! ## Swap -/

/-- The pattern of `_read_swap_kib` for this key. -/
def swapKib (key : String) : Text.Matcher ℕ :=
  Text.literal (key.toList ++ [':']) (Text.some1 Text.isSpace fun _ => Text.some1 Char.isDigit fun digits =>
    Text.literal " kB".toList fun _ => some (Nat.ofDigitChars 10 digits 0))

/-- `_read_swap_kib`: total and free. -/
def readSwapKib (file : Option String) : Option ℕ × Option ℕ :=
  match file with
  | none => (none, none)
  | some text =>
    (Text.searchLines (swapKib "SwapTotal") true text.toList, Text.searchLines (swapKib "SwapFree") true text.toList)

/-! ## What the kernel writes -/

/-- A line of `/proc/pressure/memory`; the averages are in hundredths of a percent. -/
structure Pressure where
  avg10 : ℕ
  avg60 : ℕ
  avg300 : ℕ
  total : ℕ

def hundredths (n : ℕ) : List Char :=
  Nat.toDigits 10 (n / 100) ++ ['.', Nat.digitChar (n / 10 % 10), Nat.digitChar (n % 10)]

def Pressure.line (kind : String) (p : Pressure) : List Char :=
  kind.toList ++ (" avg10=".toList ++ (hundredths p.avg10 ++ (" avg60=".toList ++ (hundredths p.avg60 ++
    (" avg300=".toList ++ (hundredths p.avg300 ++ (" total=".toList ++ (Nat.toDigits 10 p.total ++ ['\n']))))))))

/-- A line of `/proc/meminfo`; a count has no unit. -/
structure Meminfo where
  key : String
  padding : ℕ
  value : ℕ
  isKib : Bool

def Meminfo.line (e : Meminfo) : List Char :=
  e.key.toList ++ (':' :: (List.replicate (e.padding + 1) ' ' ++ (Nat.toDigits 10 e.value ++
    if e.isKib then " kB".toList else [])))

def meminfo (entries : List Meminfo) : List Char := entries.flatMap fun e => e.line ++ ['\n']

/-! ## Numbers -/

theorem isDigit_digitChar_mod (n : ℕ) : (Nat.digitChar (n % 10)).isDigit = true := by
  rw [Nat.isDigit_digitChar]
  exact decide_eq_true (Nat.mod_lt _ (by norm_num))

theorem isDigit_of_mem_toDigits {n : ℕ} {c : Char} (h : c ∈ Nat.toDigits 10 n) : c.isDigit = true :=
  Nat.isDigit_of_mem_toDigits (by norm_num) (by norm_num) h

theorem dot_of_isDigit {c : Char} (h : c.isDigit = true) : (c == '.') = false := by
  refine beq_eq_false_iff_ne.mpr ?_
  rintro rfl
  cases h

theorem newline_of_isDigit {c : Char} (h : c.isDigit = true) : c ≠ '\n' := by
  rintro rfl
  cases h

theorem isSpace_of_isDigit {c : Char} (h : c.isDigit = true) : Text.isSpace c = false := by
  have hrange : 48 ≤ c.toNat ∧ c.toNat ≤ 57 := by
    simpa [Char.isDigit, UInt32.le_iff_toNat_le] using h
  simp only [Text.isSpace, Bool.or_eq_false_iff, Bool.and_eq_false_iff, decide_eq_false_iff_not, beq_eq_false_iff_ne]
  omega

theorem mem_hundredths {n : ℕ} {c : Char} (h : c ∈ hundredths n) : (c.isDigit || c == '.') = true := by
  simp only [hundredths, List.mem_append, List.mem_cons, List.not_mem_nil, or_false] at h
  obtain hc | rfl | rfl | rfl := h
  · rw [isDigit_of_mem_toDigits hc, Bool.true_or]
  · rfl
  · rw [isDigit_digitChar_mod, Bool.true_or]
  · rw [isDigit_digitChar_mod, Bool.true_or]

theorem hundredths_ne_nil (n : ℕ) : hundredths n ≠ [] :=
  List.append_ne_nil_of_left_ne_nil Nat.toDigits_ne_nil _

/-- Two decimals are read as they were written. -/
theorem float_hundredths (n : ℕ) : float (hundredths n) = .ok (n / 100) := by
  have hwhole : (Nat.toDigits 10 (n / 100)).splitOnP (· == '.') = [Nat.toDigits 10 (n / 100)] :=
    List.splitOnP_eq_singleton fun c hc => dot_of_isDigit (isDigit_of_mem_toDigits hc)
  have hfraction : [Nat.digitChar (n / 10 % 10), Nat.digitChar (n % 10)].splitOnP (· == '.') =
      [[Nat.digitChar (n / 10 % 10), Nat.digitChar (n % 10)]] := by
    refine List.splitOnP_eq_singleton fun c hc => dot_of_isDigit ?_
    simp only [List.mem_cons, List.not_mem_nil, or_false] at hc
    obtain rfl | rfl := hc <;> exact isDigit_digitChar_mod _
  have hsplit : (hundredths n).splitOnP (· == '.') =
      [Nat.toDigits 10 (n / 100), [Nat.digitChar (n / 10 % 10), Nat.digitChar (n % 10)]] := by
    rw [hundredths, List.splitOnP_append_cons _ _ (by rfl), hwhole, hfraction]
    rfl
  have hdigits : Nat.ofDigitChars 10
      (Nat.toDigits 10 (n / 100) ++ [Nat.digitChar (n / 10 % 10), Nat.digitChar (n % 10)]) 0 = n := by
    rw [Nat.ofDigitChars_append, Nat.ofDigitChars_ten_toDigits,
      Nat.ofDigitChars_cons_digitChar_of_lt_ten (Nat.mod_lt _ (by norm_num)),
      Nat.ofDigitChars_cons_digitChar_of_lt_ten (Nat.mod_lt _ (by norm_num)), Nat.ofDigitChars_nil]
    omega
  unfold float
  rw [hsplit]
  dsimp only
  rw [if_neg (List.append_ne_nil_of_left_ne_nil Nat.toDigits_ne_nil _), hdigits]
  norm_num

/-! ## Memory pressure -/

/-- `some avg10` is read off a line of this kind, whatever follows. -/
theorem psiSomeAvg10_line (p : Pressure) (rest : List Char) :
    psiSomeAvg10 (p.line "some" ++ rest) = some (hundredths p.avg10) := by
  have hspace : ∀ {m : Text.Matcher (List Char)} {s : List Char},
      Text.lazily (Text.literal "avg10=".toList m) (' ' :: s) = Text.lazily (Text.literal "avg10=".toList m) s := by
    intro m s
    refine Text.lazily_cons (Text.literal_eq_none fun h => ?_) (by decide)
    cases (List.cons_prefix_cons.mp h).1
  have hlabel : " avg10=".toList = ' ' :: "avg10=".toList := rfl
  unfold psiSomeAvg10 Pressure.line
  rw [hlabel, List.append_assoc, Text.literal_append, List.cons_append, List.cons_append, hspace]
  refine Text.lazily_of_some ?_
  rw [List.append_assoc, Text.literal_append, List.append_assoc,
    Text.some1_append (hundredths_ne_nil _) (fun c hc => mem_hundredths hc)]
  rintro c ⟨⟩
  rfl

/-- A line of another kind says nothing. -/
theorem search_psiSomeAvg10_full (p : Pressure) : Text.search psiSomeAvg10 (p.line "full") = none := by
  have hdigits : ∀ n : ℕ, 's' ∉ Nat.toDigits 10 n := fun n h => by cases isDigit_of_mem_toDigits h
  have hhundredths : ∀ n : ℕ, 's' ∉ hundredths n := fun n h => by cases mem_hundredths h
  have hsome : "some".toList = 's' :: "ome".toList := rfl
  unfold psiSomeAvg10
  rw [hsome]
  refine Text.search_literal_eq_none ?_
  simp only [Pressure.line, List.mem_append, not_or]
  exact ⟨by decide, by decide, hhundredths _, by decide, hhundredths _, by decide, hhundredths _, by decide,
    hdigits _, by decide⟩

/-- The memory pressure is the average of `some` over ten seconds, whatever else the kernel reports, and `0` where it does
not report any. -/
theorem memory_pressure_read (p q : Pressure) :
    readMemoryPressure (some (String.ofList (p.line "some" ++ q.line "full"))) = .ok (p.avg10 / 100) ∧
    readMemoryPressure (some (String.ofList (q.line "full"))) = .ok 0 ∧ readMemoryPressure none = .ok 0 := by
  refine ⟨?_, ?_, rfl⟩
  · unfold readMemoryPressure
    dsimp only
    rw [String.toList_ofList, Text.search_of_some (psiSomeAvg10_line p _)]
    exact float_hundredths p.avg10
  · unfold readMemoryPressure
    dsimp only
    rw [String.toList_ofList, search_psiSomeAvg10_full]

/-! ## Swap -/

structure Meminfo.WellFormed (e : Meminfo) : Prop where
  colon : ':' ∉ e.key.toList
  newline : '\n' ∉ e.key.toList

theorem newline_notMem_line {e : Meminfo} (h : e.WellFormed) : '\n' ∉ e.line := by
  simp only [Meminfo.line, List.mem_append, List.mem_cons, not_or]
  refine ⟨h.newline, by decide, fun hmem => ?_, fun hmem => ?_, ?_⟩
  · cases List.eq_of_mem_replicate hmem
  · exact newline_of_isDigit (isDigit_of_mem_toDigits hmem) rfl
  · cases e.isKib <;> decide

/-- A text up to its colon. -/
theorem eq_of_colon {key key' rest : List Char} (h : ':' ∉ key) (h' : ':' ∉ key')
    (hstart : key ++ [':'] <+: key' ++ ':' :: rest) : key = key' := by
  induction key generalizing key' with
  | nil =>
    cases key' with
    | nil => rfl
    | cons c key' =>
      obtain ⟨rfl, -⟩ := List.cons_prefix_cons.mp hstart
      exact absurd List.mem_cons_self h'
  | cons c key ih =>
    cases key' with
    | nil =>
      obtain ⟨rfl, -⟩ := List.cons_prefix_cons.mp hstart
      exact absurd List.mem_cons_self h
    | cons c' key' =>
      obtain ⟨rfl, hrest⟩ := List.cons_prefix_cons.mp hstart
      rw [ih (fun hmem => h (List.mem_cons_of_mem _ hmem)) (fun hmem => h' (List.mem_cons_of_mem _ hmem)) hrest]

/-- A line of another key does not match. -/
theorem swapKib_other {e : Meminfo} (h : e.WellFormed) {key : String} (hkey : ':' ∉ key.toList) (hne : e.key ≠ key)
    (rest : List Char) : swapKib key (e.line ++ rest) = none := by
  refine Text.literal_eq_none fun hstart => hne ?_
  rw [Meminfo.line, List.append_assoc, List.cons_append] at hstart
  exact (String.toList_inj.mp (eq_of_colon hkey h.colon hstart)).symm

/-- A line of this key matches if it has a unit. -/
theorem swapKib_self (e : Meminfo) (rest : List Char) :
    swapKib e.key (e.line ++ '\n' :: rest) = if e.isKib then some e.value else none := by
  have hline : e.line ++ '\n' :: rest = (e.key.toList ++ [':']) ++ (List.replicate (e.padding + 1) ' ' ++
      (Nat.toDigits 10 e.value ++ ((if e.isKib then " kB".toList else []) ++ '\n' :: rest))) := by
    simp [Meminfo.line]
  have hpadding : List.replicate (e.padding + 1) ' ' ≠ [] := by simp
  have hspaces : ∀ c ∈ List.replicate (e.padding + 1) ' ', Text.isSpace c = true := fun c hc => by
    rw [List.eq_of_mem_replicate hc]
    rfl
  have hdigit : ∀ c ∈ (Nat.toDigits 10 e.value ++ ((if e.isKib then " kB".toList else []) ++ '\n' :: rest)).head?,
      Text.isSpace c = false := by
    intro c hc
    rw [List.head?_append_of_ne_nil _ Nat.toDigits_ne_nil] at hc
    exact isSpace_of_isDigit (isDigit_of_mem_toDigits (List.mem_of_mem_head? hc))
  rw [swapKib, hline, Text.literal_append, Text.some1_append hpadding hspaces hdigit]
  have hend : ∀ c ∈ ((if e.isKib then " kB".toList else []) ++ '\n' :: rest).head?, c.isDigit = false := by
    intro c hc
    cases hkib : e.isKib <;> rw [hkib] at hc <;> cases hc <;> rfl
  rw [Text.some1_append Nat.toDigits_ne_nil (fun c hc => isDigit_of_mem_toDigits hc) hend]
  cases hkib : e.isKib with
  | true =>
    rw [if_pos rfl, if_pos rfl, Text.literal_append, Nat.ofDigitChars_ten_toDigits]
  | false =>
    rw [if_neg Bool.false_ne_true, if_neg Bool.false_ne_true, List.nil_append]
    refine Text.literal_eq_none fun h => ?_
    cases (List.cons_prefix_cons.mp h).1

/-- What the kernel reports for a key. -/
def reported (key : String) (entries : List Meminfo) : Option ℕ :=
  (entries.find? fun e => e.key = key ∧ e.isKib).map Meminfo.value

theorem searchLines_meminfo {entries : List Meminfo} (h : ∀ e ∈ entries, e.WellFormed) {key : String}
    (hkey : ':' ∉ key.toList) :
    Text.searchLines (swapKib key) true (meminfo entries) = reported key entries := by
  induction entries with
  | nil =>
    refine Text.literal_eq_none fun hstart => ?_
    exact List.append_ne_nil_of_right_ne_nil _ (List.cons_ne_nil _ _) (List.prefix_nil.mp hstart)
  | cons e entries ih =>
    have hrest := ih fun e' he' => h e' (List.mem_cons_of_mem _ he')
    have hwell := h e List.mem_cons_self
    have htext : meminfo (e :: entries) = e.line ++ '\n' :: meminfo entries := by
      simp [meminfo]
    rw [htext, reported, List.find?_cons]
    by_cases hmatch : e.key = key ∧ e.isKib = true
    · obtain ⟨rfl, hkib⟩ := hmatch
      rw [Text.searchLines_of_some (a := e.value) (by rw [swapKib_self, if_pos hkib]), decide_eq_true ⟨rfl, hkib⟩]
      rfl
    · have hnone : swapKib key (e.line ++ '\n' :: meminfo entries) = none := by
        by_cases heq : e.key = key
        · subst heq
          rw [swapKib_self, if_neg fun hkib => hmatch ⟨rfl, hkib⟩]
        · exact swapKib_other hwell hkey heq _
      rw [Text.searchLines_skip (newline_notMem_line hwell) hnone, hrest, decide_eq_false hmatch]
      rfl

/-- The use of swap is what the kernel reports, whatever else it reports, and in whichever order. -/
theorem swap_read {entries : List Meminfo} (h : ∀ e ∈ entries, e.WellFormed) :
    readSwapKib (some (String.ofList (meminfo entries))) =
      (reported "SwapTotal" entries, reported "SwapFree" entries) := by
  unfold readSwapKib
  dsimp only
  rw [String.toList_ofList, searchLines_meminfo h (by decide), searchLines_meminfo h (by decide)]

/-- A host with a swap partition. -/
def withSwap : List Meminfo :=
  [⟨"MemTotal", 7, 16384, true⟩, ⟨"SwapFree", 8, 1024, true⟩, ⟨"HugePages_Total", 3, 0, false⟩,
    ⟨"SwapTotal", 6, 2048, true⟩]

theorem swap_read_host : readSwapKib (some (String.ofList (meminfo withSwap))) = (some 2048, some 1024) := by
  have hwell : ∀ e ∈ withSwap, e.WellFormed := by
    intro e he
    simp only [withSwap, List.mem_cons, List.not_mem_nil, or_false] at he
    obtain rfl | rfl | rfl | rfl := he <;> exact ⟨by decide, by decide⟩
  rw [swap_read hwell]
  decide

end Freeshard.HostFiles

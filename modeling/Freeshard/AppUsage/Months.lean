import Freeshard.Service.AppUsageReporting
import Mathlib.Algebra.GroupWithZero.Nat

/-! # Every month in one report

The report of a run is about the calendar month before it, and consecutive months are reported without gap or
overlap. -/

namespace Freeshard.AppUsage
open Calendar Coroutine Coroutine.Prog
set_option autoImplicit false

/-! ## Counting -/

/-- How often an app is listed. -/
def listings (tracks : List Track) (app : String) : ℕ := (tracks.map (·.installedApps.count app)).sum

/-- What `n` more listings make of an entry. -/
def tally (entry : Option ℕ) (n : ℕ) : Option ℕ := if n = 0 then entry else some (entry.getD 0 + n)

theorem tally_tally (entry : Option ℕ) (m n : ℕ) : tally (tally entry m) n = tally entry (m + n) := by
  unfold tally
  by_cases hm : m = 0
  · rw [if_pos hm, hm, Nat.zero_add]
  · by_cases hn : n = 0
    · rw [if_pos hn, hn, Nat.add_zero]
    · rw [if_neg hm, if_neg hn, if_neg (by omega), Option.getD_some, Nat.add_assoc]

theorem get_countListing (usage : PyDict ℕ) (listed app : String) :
    (countListing usage listed).get app = tally (usage.get app) (if listed = app then 1 else 0) := by
  unfold countListing
  dsimp only
  rw [PyDict.get_set]
  by_cases happ : app = listed
  · subst happ
    rw [if_pos rfl, if_pos rfl, tally, if_neg Nat.one_ne_zero]
    split
    · next hnone =>
      rw [PyDict.get_set_self, hnone]
      rfl
    · rfl
  · have hne : ¬ listed = app := fun h => happ h.symm
    rw [if_neg happ, if_neg hne]
    change _ = usage.get app
    split
    · exact PyDict.get_set_of_ne _ _ happ
    · rfl

theorem get_foldl_countListing (usage : PyDict ℕ) (listed : List String) (app : String) :
    (listed.foldl countListing usage).get app = tally (usage.get app) (listed.count app) := by
  induction listed generalizing usage with
  | nil => rfl
  | cons first listed ih =>
    rw [List.foldl_cons, ih, get_countListing, tally_tally, List.count_cons, Nat.add_comm]
    simp only [beq_iff_eq]

theorem get_usageOf (tracks : List Track) (app : String) :
    (usageOf tracks).get app = if listings tracks app = 0 then none else some (listings tracks app) := by
  have hfold : ∀ usage : PyDict ℕ, (tracks.foldl (fun usage t => t.installedApps.foldl countListing usage)
      usage).get app = tally (usage.get app) (listings tracks app) := by
    induction tracks with
    | nil =>
      intro usage
      rfl
    | cons t tracks ih =>
      intro usage
      rw [List.foldl_cons, ih, get_foldl_countListing, tally_tally]
      rfl
  rw [usageOf, hfold, PyDict.get_empty, tally, Option.getD_none, Nat.zero_add]

/-! ## Sending -/

variable {w : World} {sent : List Report}

theorem send_posts (w : World) (sent : List Report) (report : Report) (i attempts : ℕ) :
    ∃ n, ((send report i (attempts + 1)).eval w.effect sent).2 = sent ++ List.replicate (n + 1) report := by
  induction attempts generalizing i sent with
  | zero =>
    refine ⟨0, ?_⟩
    unfold send
    rw [eval_bind, eval_perform]
    dsimp only [World.effect]
    cases w.respond sent.length with
    | error e => rfl
    | ok statusCode =>
      dsimp only
      split
      · rfl
      · split
        · rw [eval_bind, eval_perform]
          dsimp only [World.effect]
          cases w.sleep (sent ++ [report]).length <;> rfl
        · rfl
  | succ attempts ih =>
    unfold send
    rw [eval_bind, eval_perform]
    dsimp only [World.effect]
    cases w.respond sent.length with
    | error e => exact ⟨0, rfl⟩
    | ok statusCode =>
      dsimp only
      split
      · exact ⟨0, rfl⟩
      · split
        · rw [eval_bind, eval_perform]
          dsimp only [World.effect]
          cases w.sleep (sent ++ [report]).length with
          | error e => exact ⟨0, rfl⟩
          | ok u =>
            obtain ⟨n, hn⟩ := ih (sent ++ [report]) (i + 1)
            refine ⟨n + 1, hn.trans ?_⟩
            rw [List.append_assoc, List.replicate_succ (n := n + 1)]
            rfl
        · exact ⟨0, rfl⟩

/-! ## Months -/

/-- The tracks of a calendar month. -/
def tracksOf (month : ℕ) (tracks : List Track) : List Track :=
  tracks.filter fun t => t.timestamp.date.monthIndex = month

theorem reportedMonth_eq {today : Date} (h : 2 ≤ today.year) : ∃ lastDayOfLastMonth : Date,
    lastDayOfLastMonth.monthIndex + 1 = today.monthIndex ∧
    reportedMonth today = .ok (lastDayOfLastMonth.firstOfMonth.midnight, today.firstOfMonth.midnight) := by
  obtain ⟨yesterday, hyesterday⟩ := Date.exists_yesterday (d := today.firstOfMonth) h
  refine ⟨yesterday, Date.monthIndex_yesterday hyesterday, ?_⟩
  unfold reportedMonth
  dsimp only
  rw [hyesterday]

/-- The tracks that a run counts. -/
def World.relevantTracks (w : World) : List Track :=
  match reportedMonth w.today with
  | .ok (start, stop) => w.searchByTimeRange start stop
  | .error _ => []

theorem relevantTracks_eq (h : 2 ≤ w.today.year) :
    w.relevantTracks = tracksOf (w.today.monthIndex - 1) w.appUsageTracks := by
  obtain ⟨yesterday, hmonth, heq⟩ := reportedMonth_eq h
  unfold World.relevantTracks
  rw [heq]
  dsimp only
  unfold World.searchByTimeRange tracksOf
  refine List.filter_congr fun t _ => ?_
  rw [decide_eq_decide, @DateTime.mem_month_iff yesterday _ hmonth.symm, ← hmonth, Nat.add_sub_cancel]

/-- A report of a month: its year and month, and the listings of every app that is listed. -/
structure ReportsMonth (month : ℕ) (tracks : List Track) (r : Report) : Prop where
  year : r.year = month / 12
  month : r.month = month % 12 + 1
  usage : ∀ app, r.usage.get app = if listings tracks app = 0 then none else some (listings tracks app)

theorem sent_eq (h : 2 ≤ w.today.year) :
    (w.relevantTracks = [] → w.sent = []) ∧
    (w.relevantTracks ≠ [] → ∃ r n, w.sent = List.replicate (n + 1) r ∧
      ReportsMonth (w.today.monthIndex - 1) w.relevantTracks r) := by
  obtain ⟨yesterday, hmonth, heq⟩ := reportedMonth_eq h
  have hrelevant : w.relevantTracks =
      w.searchByTimeRange yesterday.firstOfMonth.midnight w.today.firstOfMonth.midnight := by
    unfold World.relevantTracks
    rw [heq]
  rw [hrelevant]
  unfold World.sent reportAppUsage
  rw [eval_bind, eval_perform]
  dsimp only [World.effect]
  rw [heq]
  dsimp only
  rw [eval_bind_ok (a := (yesterday.firstOfMonth.midnight, w.today.firstOfMonth.midnight)) rfl, eval_bind, eval_perform]
  dsimp only [World.effect]
  generalize w.searchByTimeRange yesterday.firstOfMonth.midnight w.today.firstOfMonth.midnight = tracks
  constructor
  · rintro rfl
    rfl
  · intro hne
    rw [if_neg fun hempty => hne (List.isEmpty_iff.mp hempty)]
    obtain ⟨n, hn⟩ := send_posts w []
      { year := yesterday.year, month := yesterday.month, usage := usageOf tracks } 0 9
    refine ⟨_, n, hn, ⟨?_, ?_, get_usageOf tracks⟩⟩
    · rw [← hmonth, Nat.add_sub_cancel, Date.monthIndex_div]
    · rw [← hmonth, Nat.add_sub_cancel, Date.monthIndex_mod]

/-! ## Main results -/

/-- Runs of consecutive months, the first of them not in the first year. -/
structure Consecutive (runs : ℕ → World) (n : ℕ) : Prop where
  year : 2 ≤ (runs 0).today.year
  next : ∀ i, i + 1 < n → (runs (i + 1)).today.monthIndex = (runs i).today.monthIndex + 1

theorem Consecutive.monthIndex {runs : ℕ → World} {n : ℕ} (h : Consecutive runs n) {i : ℕ} (hi : i < n) :
    (runs i).today.monthIndex = (runs 0).today.monthIndex + i := by
  induction i with
  | zero => rfl
  | succ i ih => rw [h.next i hi, ih (Nat.lt_of_succ_lt hi), Nat.add_assoc]

theorem two_le_year_iff (d : Date) : 2 ≤ d.year ↔ 24 ≤ d.monthIndex := by
  have hmonth := d.month_le
  have hone := d.one_le_month
  unfold Date.monthIndex
  omega

theorem Consecutive.relevantTracks_eq {runs : ℕ → World} {n : ℕ} (h : Consecutive runs n) {i : ℕ} (hi : i < n) :
    (runs i).relevantTracks = tracksOf ((runs 0).today.monthIndex + i - 1) (runs i).appUsageTracks := by
  have hyear := (two_le_year_iff _).mp h.year
  have hmonth := h.monthIndex hi
  rw [AppUsage.relevantTracks_eq ((two_le_year_iff _).mpr (by omega)), hmonth]

/-- A run sends nothing if the month before has no tracks, and else reports of that month with the exact number of
listings of every app. Consecutive months have adjoining bounds. In runs of consecutive months every track of the
months they report on is counted in one run, as often as it is in the table, and in no other one. -/
theorem app_usage_reports :
    (∀ w : World, 2 ≤ w.today.year →
      (tracksOf (w.today.monthIndex - 1) w.appUsageTracks = [] → w.sent = []) ∧
      (tracksOf (w.today.monthIndex - 1) w.appUsageTracks ≠ [] → w.sent ≠ [] ∧ ∀ r ∈ w.sent,
        ReportsMonth (w.today.monthIndex - 1) (tracksOf (w.today.monthIndex - 1) w.appUsageTracks) r)) ∧
    (∀ today today' : Date, 2 ≤ today.year → today'.monthIndex = today.monthIndex + 1 → ∃ start middle stop,
      reportedMonth today = .ok (start, middle) ∧ reportedMonth today' = .ok (middle, stop)) ∧
    ∀ (runs : ℕ → World) (n : ℕ), Consecutive runs n → ∀ t : Track,
      (runs 0).today.monthIndex ≤ t.timestamp.date.monthIndex + 1 →
      t.timestamp.date.monthIndex + 1 < (runs 0).today.monthIndex + n →
      ∃ i < n, (runs i).relevantTracks.count t = (runs i).appUsageTracks.count t ∧
        ∀ j < n, j ≠ i → t ∉ (runs j).relevantTracks := by
  refine ⟨fun w h => ?_, fun today today' h hnext => ?_, fun runs n h t hfirst hlast => ?_⟩
  · obtain ⟨hnone, hsome⟩ := sent_eq h
    rw [relevantTracks_eq h] at hnone hsome
    refine ⟨hnone, fun hne => ?_⟩
    obtain ⟨r, n, hsent, hreports⟩ := hsome hne
    rw [hsent]
    refine ⟨List.cons_ne_nil _ _, fun r' hr' => ?_⟩
    rw [List.eq_of_mem_replicate hr']
    exact hreports
  · have h' : 2 ≤ today'.year := by
      rw [two_le_year_iff] at *
      omega
    obtain ⟨yesterday, -, heq⟩ := reportedMonth_eq h
    obtain ⟨yesterday', hmonth', heq'⟩ := reportedMonth_eq h'
    rw [hnext] at hmonth'
    rw [Date.firstOfMonth_eq (Nat.succ.inj hmonth')] at heq'
    exact ⟨_, _, _, heq, heq'⟩
  · have hyear := (two_le_year_iff _).mp h.year
    refine ⟨t.timestamp.date.monthIndex + 1 - (runs 0).today.monthIndex, by omega, ?_, fun j hj hne hmem => ?_⟩
    · rw [h.relevantTracks_eq (by omega)]
      exact List.count_filter (by rw [decide_eq_true_eq]; omega)
    · rw [h.relevantTracks_eq hj, tracksOf, List.mem_filter, decide_eq_true_eq] at hmem
      omega

/-- A run on the first of March of a leap year. -/
def leapYear : World where
  today := ⟨2024, 3, 1, by decide, by decide, by decide, by decide, by decide⟩
  appUsageTracks := [
    ⟨⟨⟨2024, 2, 29, by decide, by decide, by decide, by decide, by decide⟩, 1, by decide⟩, ["notes", "wiki"]⟩,
    ⟨Date.midnight ⟨2024, 3, 1, by decide, by decide, by decide, by decide, by decide⟩, ["notes"]⟩]
  respond _ := .ok 201

theorem app_usage_reports_leap_day : leapYear.sent ≠ [] ∧ ∀ r ∈ leapYear.sent,
    r.year = 2024 ∧ r.month = 2 ∧ r.usage.get "notes" = some 1 := by
  have hne : tracksOf (leapYear.today.monthIndex - 1) leapYear.appUsageTracks ≠ [] := by decide
  obtain ⟨hsent, hreports⟩ := (app_usage_reports.1 leapYear (by decide)).2 hne
  exact ⟨hsent, fun r hr => ⟨(hreports r hr).year, (hreports r hr).month, (hreports r hr).usage "notes"⟩⟩

end Freeshard.AppUsage

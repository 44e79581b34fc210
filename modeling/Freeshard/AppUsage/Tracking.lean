import Freeshard.AppUsage.Months
import Freeshard.Service.AppUsageTracking

/-! # Reports count what trackings found

Whatever is installed, removed and tracked while reports are made: the number that a report gives for an app is the
number of trackings in the reported month that found the app installed. -/

namespace Freeshard.UsageTracking
open AppUsage Calendar Coroutine
set_option autoImplicit false

/-! ## What a task has done -/

inductive Phase where
  | idle
  /-- It has read these apps. -/
  | listed (allApps : List InstalledApp)
  | stamped (allApps : List InstalledApp) (timestamp : DateTime)
  /-- It has inserted its track. -/
  | tracked
  /-- It has found these tracks between two points in time. -/
  | searched (start stop : DateTime) (tracks : List Track)

def Phase.after (l : Phase) (op : Op) (r : Answer op) : Phase :=
  match op, r with
  | .getAll, .ok allApps => .listed allApps
  | .utcnow, .ok timestamp =>
    match l with
    | .listed allApps => .stamped allApps timestamp
    | l => l
  | .insert _, _ => .tracked
  | .reporting (.searchByTimeRange start stop), .ok tracks => .searched start stop tracks
  | _, _ => l

/-- The report on these tracks of a month. -/
def reportOf (start : DateTime) (tracks : List Track) : Report :=
  { year := start.date.year, month := start.date.month, usage := usageOf tracks }

/-- A track is inserted once, with the apps that have been read; a report is sent on the tracks that have been found. -/
def taskProtocol : Protocol Op Ans Exn Phase where
  allows l op :=
    match op with
    | .getAll => l = .idle
    | .utcnow => ∃ allApps, l = .listed allApps
    | .insert track => ∃ allApps, l = .stamped allApps track.timestamp ∧ track.installedApps = allApps.map (·.name)
    | .reporting (.searchByTimeRange start stop) => l = .idle ∧ ∃ today, reportedMonth today = .ok (start, stop)
    | .reporting (.post report) => ∃ start stop tracks, l = .searched start stop tracks ∧ report = reportOf start tracks
    | _ => True
  after := Phase.after

abbrev Conforms {α : Type} (p : Coro α) (l : Phase) (Q : Except Exn α → Phase → Prop) : Prop :=
  p.Conforms taskProtocol l Q

theorem conforms_trackCurrentlyInstalledApps : Conforms trackCurrentlyInstalledApps .idle fun _ _ => True := by
  refine Prog.Conforms.perform_bind rfl (fun allApps => ?_) fun _ => trivial
  refine Prog.Conforms.perform_bind ⟨allApps, rfl⟩ (fun timestamp => ?_) fun _ => trivial
  exact Prog.Conforms.perform ⟨allApps, rfl, rfl⟩ fun _ => trivial

/-- The protocol as far as `report_app_usage` goes. -/
def reportProtocol : Protocol AppUsage.Op AppUsage.Ans Exn Phase where
  allows l op := taskProtocol.allows l (.reporting op)
  after l op r := l.after (.reporting op) r

theorem conforms_reporting {α : Type} {p : AppUsage.Coro α} {l : Phase} {Q : Except Exn α → Phase → Prop}
    (h : p.Conforms reportProtocol l Q) : Conforms (reporting p) l Q := by
  induction p generalizing l with
  | ret a => exact h
  | raise e => exact h
  | await op next ih => exact ⟨h.1, fun r => ih r (h.2 r)⟩

theorem conforms_send (start stop : DateTime) (tracks : List Track) (i attempts : ℕ) :
    (send (reportOf start tracks) i attempts).Conforms reportProtocol (.searched start stop tracks)
      fun _ _ => True := by
  induction attempts generalizing i with
  | zero => trivial
  | succ attempts ih =>
    refine Prog.Conforms.perform_bind ⟨start, stop, tracks, rfl, rfl⟩ (fun statusCode => ?_) fun _ => trivial
    split
    · trivial
    · split
      · exact Prog.Conforms.perform_bind trivial (fun _ => ih (i + 1)) fun _ => trivial
      · trivial

theorem conforms_reportAppUsage : reportAppUsage.Conforms reportProtocol .idle fun _ _ => True := by
  refine Prog.Conforms.perform_bind trivial (fun today => ?_) fun _ => trivial
  cases hmonth : reportedMonth today with
  | error e => trivial
  | ok month =>
    obtain ⟨start, stop⟩ := month
    refine Prog.Conforms.perform_bind ⟨rfl, today, hmonth⟩ (fun tracks => ?_) fun _ => trivial
    split
    · trivial
    · exact conforms_send start stop tracks 0 10

theorem conforms_program (i : Task) : Conforms i.program .idle fun _ _ => True := by
  cases i with
  | track id => exact conforms_trackCurrentlyInstalledApps
  | report id => exact conforms_reporting conforms_reportAppUsage
  | install id app => exact Prog.Conforms.perform trivial fun _ => trivial
  | uninstall id name => exact Prog.Conforms.perform trivial fun _ => trivial

/-! ## What an operation leaves -/

section Operations
variable {i : Task} {w w' : World} {op : Op} {r : Answer op}

theorem World.effect_tracks {w : World} {rw : Answer op × World} (h : w.effect op = some rw) :
    rw.2.tracks = w.tracks ∨ ∃ track, op = .insert track ∧ rw.2.tracks = w.tracks ++ [track] := by
  cases op with
  | insert track =>
    cases h
    exact .inr ⟨track, rfl, rfl⟩
  | insertApp app =>
    simp only [World.effect] at h
    split at h <;> cases h <;> exact .inl rfl
  | getAll | removeApp name =>
    cases h
    exact .inl rfl
  | utcnow => cases h
  | reporting op =>
    cases op with
    | searchByTimeRange start stop | sleep seconds =>
      cases h
      exact .inl rfl
    | today | post report => cases h

/-- The table after an operation. -/
theorem Act.tracks (h : Act i w op r w') :
    w'.tracks = w.tracks ∨ ∃ track, op = .insert track ∧ w'.tracks = w.tracks ++ [track] := by
  obtain ⟨choice, h⟩ := h
  cases choice with
  | proceed => exact World.effect_tracks h
  | clock time =>
    cases op <;> cases h
    exact .inl rfl
  | day today | status code =>
    cases op with
    | reporting op =>
      cases op <;> cases h
      exact .inl rfl
    | _ => cases h
  | raise e =>
    cases h
    exact .inl rfl
  | proceedRaise e =>
    obtain ⟨rw, heffect, heq⟩ := Option.map_eq_some_iff.mp h
    cases heq
    exact World.effect_tracks heffect

theorem Act.getAll {allApps : List InstalledApp} (h : Act i w .getAll (.ok allApps) w') :
    allApps = w.installedApps.rows := by
  obtain ⟨choice, h⟩ := h
  cases choice <;> cases h
  rfl

theorem Act.searchByTimeRange {start stop : DateTime} {tracks : List Track}
    (h : Act i w (.reporting (.searchByTimeRange start stop)) (.ok tracks) w') :
    tracks = w.searchByTimeRange start stop := by
  obtain ⟨choice, h⟩ := h
  cases choice <;> cases h
  rfl

end Operations

/-! ## Trackings -/

/-- The track lists the apps that were installed when the tracking read the table. -/
def ListedBy (e : Entry Op Ans Exn World Task) (track : Track) : Prop :=
  e.op = .getAll ∧ track.installedApps = e.before.installedApps.rows.map (·.name)

/-- Every track comes from a tracking of its own. -/
structure Found (log : Log) (tracks : List Track) (trackings : List (Entry Op Ans Exn World Task × Track)) : Prop where
  tracks : trackings.map Prod.snd = tracks
  callers : (trackings.map fun p => p.1.caller).Nodup
  listed : ∀ p ∈ trackings, p.1 ∈ log ∧ ListedBy p.1 p.2

/-- A usage report has no entry for an app that it does not count. -/
def counted (n : ℕ) : Option ℕ := if n = 0 then none else some n

/-- The tracking found the app installed, and its track belongs to the time from `start` to `stop`. -/
def Counts (start stop : DateTime) (app : String) (p : Entry Op Ans Exn World Task × Track) : Bool :=
  start.instant ≤ p.2.timestamp.instant && p.2.timestamp.instant < stop.instant &&
    p.1.before.installedApps.contains app

/-- The task has searched the tracks of a month, and each of these comes from a tracking of its own. -/
def Searched (i : Task) (start stop : DateTime) (tracks : List Track) (log : Log) : Prop :=
  ∃ newer search older trackings, log = newer ++ search :: older ∧ search.caller = i ∧
    search.op = .reporting (.searchByTimeRange start stop) ∧ (∃ today, reportedMonth today = .ok (start, stop)) ∧
    Found older search.before.tracks trackings ∧ tracks = search.before.searchByTimeRange start stop

/-- The report is on a month, and counts for every app the trackings that found it installed, of those that had inserted
their tracks when the task searched the table. -/
def CountsTrackings (i : Task) (report : Report) (log : Log) : Prop :=
  ∃ newer search older start stop trackings, log = newer ++ search :: older ∧ search.caller = i ∧
    search.op = .reporting (.searchByTimeRange start stop) ∧ (∃ today, reportedMonth today = .ok (start, stop)) ∧
    Found older search.before.tracks trackings ∧
    report.year = start.date.year ∧ report.month = start.date.month ∧
    ∀ app, report.usage.get app = counted (trackings.countP (Counts start stop app))

theorem count_names (t : InstalledApps) (app : String) :
    (t.rows.map (·.name)).count app = if t.contains app then 1 else 0 := by
  have hcontains : t.contains app = true ↔ app ∈ t.rows.map (·.name) := by
    simp [InstalledApps.contains, List.any_eq_true]
  split
  · next h => exact List.count_eq_one_of_mem t.nodup (hcontains.mp h)
  · next h => exact List.count_eq_zero.mpr fun hmem => h (hcontains.mpr hmem)

/-- As many listings as trackings that found the app. -/
theorem listings_found {start stop : DateTime} {app : String}
    {trackings : List (Entry Op Ans Exn World Task × Track)} (h : ∀ p ∈ trackings, ListedBy p.1 p.2) :
    listings ((trackings.map Prod.snd).filter fun t =>
      start.instant ≤ t.timestamp.instant ∧ t.timestamp.instant < stop.instant) app =
      trackings.countP (Counts start stop app) := by
  induction trackings with
  | nil => rfl
  | cons p trackings ih =>
    have hrest := ih fun p hp => h p (List.mem_cons_of_mem _ hp)
    have hlisted := (h p List.mem_cons_self).2
    rw [List.map_cons, List.filter_cons, List.countP_cons]
    by_cases htime : start.instant ≤ p.2.timestamp.instant ∧ p.2.timestamp.instant < stop.instant
    · rw [if_pos (by simpa using htime), listings, List.map_cons, List.sum_cons, hlisted, count_names, Nat.add_comm]
      change listings _ app + _ = _
      rw [hrest]
      simp [Counts, htime]
    · rw [if_neg (by simpa using htime), hrest]
      have hcounts : Counts start stop app p = false := by
        rw [not_and_or] at htime
        obtain htime | htime := htime <;> simp [Counts, htime]
      rw [hcounts]
      rfl

theorem Searched.counts {i : Task} {start stop : DateTime} {tracks : List Track} {log : Log}
    (h : Searched i start stop tracks log) : CountsTrackings i (reportOf start tracks) log := by
  obtain ⟨newer, search, older, trackings, hlog, hcaller, hop, hmonth, hfound, rfl⟩ := h
  refine ⟨newer, search, older, start, stop, trackings, hlog, hcaller, hop, hmonth, hfound, rfl, rfl, fun app => ?_⟩
  change (usageOf _).get app = _
  rw [get_usageOf, World.searchByTimeRange, ← hfound.tracks, listings_found fun p hp => (hfound.listed p hp).2]
  rfl

/-! ## Runs -/

def phaseOf (i : Task) (log : Log) : Phase := Recorded.phaseOf (fun _ => taskProtocol) (fun _ => .idle) i log

/-- What the tasks have read is what was there, and the reports sent so far count the trackings. -/
structure Accounted (s : State) : Prop where
  listed : ∀ i allApps, (phaseOf i s.log = .listed allApps ∨ ∃ time, phaseOf i s.log = .stamped allApps time) →
    ∃ e ∈ s.log, e.caller = i ∧ e.op = .getAll ∧ allApps = e.before.installedApps.rows
  found : ∃ trackings, Found s.log s.world.tracks trackings ∧ ∀ p ∈ trackings, phaseOf p.1.caller s.log = .tracked
  searched : ∀ i start stop tracks, phaseOf i s.log = .searched start stop tracks →
    Searched i start stop tracks s.log
  reports : Recorded.Throughout (fun e earlier => ∀ report, e.op = .reporting (.post report) →
    CountsTrackings e.caller report earlier) s.log

section Step
variable {s : State} {i : Task} {op : Op} {r : Answer op} {w' : World}

theorem phaseOf_next_self : phaseOf i (s.next i op r w').log = (phaseOf i s.log).after op r :=
  Recorded.phaseOf_next_self s i op r w'

theorem phaseOf_next_ne {j : Task} (h : j ≠ i) : phaseOf j (s.next i op r w').log = phaseOf j s.log :=
  Recorded.phaseOf_next_ne s op r w' h

theorem Found.cons {log : Log} {tracks : List Track} {trackings : List (Entry Op Ans Exn World Task × Track)}
    (h : Found log tracks trackings) (e : Entry Op Ans Exn World Task) : Found (e :: log) tracks trackings :=
  ⟨h.tracks, h.callers, fun p hp => ⟨List.mem_cons_of_mem _ (h.listed p hp).1, (h.listed p hp).2⟩⟩

theorem Searched.cons {start stop : DateTime} {tracks : List Track} {log : Log}
    (h : Searched i start stop tracks log) (e : Entry Op Ans Exn World Task) :
    Searched i start stop tracks (e :: log) := by
  obtain ⟨newer, search, older, trackings, rfl, h⟩ := h
  exact ⟨e :: newer, search, older, trackings, rfl, h⟩

theorem Accounted.listed_step (hs : Accounted s) (hallowed : taskProtocol.allows (phaseOf i s.log) op)
    (ha : Act i s.world op r w') {allApps : List InstalledApp}
    (h : (phaseOf i s.log).after op r = .listed allApps ∨
      ∃ time, (phaseOf i s.log).after op r = .stamped allApps time) :
    ∃ e ∈ (s.next i op r w').log, e.caller = i ∧ e.op = .getAll ∧ allApps = e.before.installedApps.rows := by
  have hkeep : (phaseOf i s.log = .listed allApps ∨ ∃ time, phaseOf i s.log = .stamped allApps time) →
      ∃ e ∈ (s.next i op r w').log, e.caller = i ∧ e.op = .getAll ∧ allApps = e.before.installedApps.rows := by
    intro hl
    obtain ⟨e, he, hlisted⟩ := hs.listed i allApps hl
    exact ⟨e, List.mem_cons_of_mem _ he, hlisted⟩
  cases op with
  | getAll =>
    cases r with
    | error e => exact hkeep h
    | ok read =>
      obtain rfl : read = allApps := by
        obtain h | ⟨_, h⟩ := h <;> cases h
        rfl
      exact ⟨_, List.mem_cons_self, rfl, rfl, Act.getAll ha⟩
  | utcnow =>
    cases r with
    | error e => exact hkeep h
    | ok time =>
      obtain ⟨read, hl⟩ := hallowed
      rw [hl] at h
      obtain rfl : read = allApps := by
        obtain h | ⟨_, h⟩ := h <;> cases h
        rfl
      exact hkeep (.inl hl)
  | insert track => obtain h | ⟨_, h⟩ := h <;> cases h
  | reporting op =>
    cases op with
    | searchByTimeRange start stop =>
      cases r with
      | error e => exact hkeep h
      | ok tracks => obtain h | ⟨_, h⟩ := h <;> cases h
    | today | post report | sleep seconds => exact hkeep h
  | insertApp app | removeApp name => exact hkeep h

theorem Accounted.found_step (hs : Accounted s) (hallowed : taskProtocol.allows (phaseOf i s.log) op)
    (ha : Act i s.world op r w') : ∃ trackings, Found (s.next i op r w').log w'.tracks trackings ∧
      ∀ p ∈ trackings, phaseOf p.1.caller (s.next i op r w').log = .tracked := by
  obtain ⟨trackings, hfound, htracked⟩ := hs.found
  have hstay : ∀ p ∈ trackings, phaseOf p.1.caller (s.next i op r w').log = .tracked := by
    intro p hp
    by_cases hi : p.1.caller = i
    · have hl := htracked p hp
      rw [hi] at hl ⊢
      rw [phaseOf_next_self]
      rw [hl] at hallowed ⊢
      cases op with
      | getAll => cases hallowed
      | utcnow => obtain ⟨_, h⟩ := hallowed; cases h
      | insert track => rfl
      | reporting op =>
        cases op with
        | searchByTimeRange start stop => cases hallowed.1
        | today | post report | sleep seconds => rfl
      | insertApp app | removeApp name => rfl
    · rw [phaseOf_next_ne hi]
      exact htracked p hp
  obtain hsame | ⟨track, rfl, hadded⟩ := ha.tracks
  · rw [hsame]
    exact ⟨trackings, hfound.cons _, hstay⟩
  · obtain ⟨allApps, hl, hnames⟩ := hallowed
    obtain ⟨e, he, hcaller, hop, hread⟩ := hs.listed i allApps (.inr ⟨_, hl⟩)
    refine ⟨trackings ++ [(e, track)], ⟨?_, ?_, ?_⟩, ?_⟩
    · rw [List.map_append, hfound.tracks, hadded]
      rfl
    · rw [List.map_append, List.nodup_append]
      refine ⟨hfound.callers, List.nodup_singleton _, ?_⟩
      rintro _ hmem _ hlast rfl
      obtain ⟨p, hp, heq⟩ := List.mem_map.mp hmem
      rw [List.mem_singleton.mp hlast] at heq
      have hsame : p.1.caller = i := heq.trans hcaller
      have hp := htracked p hp
      rw [hsame, hl] at hp
      cases hp
    · intro p hp
      obtain hp | hp := List.mem_append.mp hp
      · exact (hfound.cons _).listed p hp
      · obtain rfl := List.mem_singleton.mp hp
        refine ⟨List.mem_cons_of_mem _ he, hop, ?_⟩
        rw [hnames, hread]
    · intro p hp
      obtain hp | hp := List.mem_append.mp hp
      · exact hstay p hp
      · obtain rfl := List.mem_singleton.mp hp
        rw [hcaller, phaseOf_next_self]
        rfl

theorem Accounted.searched_step (hs : Accounted s) (hallowed : taskProtocol.allows (phaseOf i s.log) op)
    (ha : Act i s.world op r w') {start stop : DateTime} {tracks : List Track}
    (h : (phaseOf i s.log).after op r = .searched start stop tracks) :
    Searched i start stop tracks (s.next i op r w').log := by
  have hkeep : phaseOf i s.log = .searched start stop tracks → Searched i start stop tracks (s.next i op r w').log :=
    fun hl => (hs.searched i start stop tracks hl).cons _
  cases op with
  | getAll =>
    cases r with
    | error e => exact hkeep h
    | ok read => cases h
  | utcnow =>
    cases r with
    | error e => exact hkeep h
    | ok time =>
      obtain ⟨read, hl⟩ := hallowed
      rw [hl] at h
      cases h
  | insert track => cases h
  | reporting op =>
    cases op with
    | searchByTimeRange from' to' =>
      cases r with
      | error e => exact hkeep h
      | ok found =>
        cases h
        obtain ⟨trackings, hfound, -⟩ := hs.found
        exact ⟨[], _, s.log, trackings, rfl, rfl, rfl, hallowed.2, hfound, Act.searchByTimeRange ha⟩
    | today | post report | sleep seconds => exact hkeep h
  | insertApp app | removeApp name => exact hkeep h

theorem Accounted.step (hs : Accounted s) (hallowed : taskProtocol.allows (phaseOf i s.log) op)
    (ha : Act i s.world op r w') : Accounted (s.next i op r w') where
  listed j allApps h := by
    by_cases hj : j = i
    · subst hj
      rw [phaseOf_next_self] at h
      exact hs.listed_step hallowed ha h
    · rw [phaseOf_next_ne hj] at h
      obtain ⟨e, he, hlisted⟩ := hs.listed j allApps h
      exact ⟨e, List.mem_cons_of_mem _ he, hlisted⟩
  found := hs.found_step hallowed ha
  searched j start stop tracks h := by
    by_cases hj : j = i
    · subst hj
      rw [phaseOf_next_self] at h
      exact hs.searched_step hallowed ha h
    · rw [phaseOf_next_ne hj] at h
      exact (hs.searched j start stop tracks h).cons _
  reports := by
    refine ⟨fun report hop => ?_, hs.reports⟩
    obtain rfl : op = .reporting (.post report) := hop
    obtain ⟨start, stop, tracks, hl, rfl⟩ := hallowed
    exact (hs.searched i start stop tracks hl).counts

end Step

/-- However trackings, reports, installations and removals overlap and whatever fails: every report sent is on the month
that its task has searched, and gives for every app the number of trackings that found it installed, among those that
had inserted their tracks by then; and no tracking is counted twice. -/
theorem usage_counts_trackings {w : World} {c : Config Op Ans Exn State Task} (hw : w.tracks = []) (h : Runs w c)
    {later earlier : Log} {e : Entry Op Ans Exn World Task} (hlog : c.state.log = later ++ e :: earlier)
    {report : Report} (hpost : e.op = .reporting (.post report)) : CountsTrackings e.caller report earlier := by
  have haccounted : Accounted c.state := by
    refine Recorded.Runs.invariant (I := Accounted) conforms_program ?_ ?_ h
    · have hfound : Found [] w.tracks [] := ⟨hw.symm, List.nodup_nil, fun p hp => by cases hp⟩
      refine ⟨fun i allApps h => ?_, ⟨[], hfound, fun p hp => by cases hp⟩, fun i start stop tracks h => (by cases h),
        trivial⟩
      obtain h | ⟨_, h⟩ := h <;> cases h
    · exact fun i s op r w' hallowed hs _ ha => hs.step hallowed ha
  have hreports := haccounted.reports
  rw [hlog] at hreports
  exact hreports.of_append report hpost

/-! ## A month -/

/-- The day before the report. -/
def leapDay : Date := leapYear.today.yesterday.getD leapYear.today

/-- Notes are installed before the second of two trackings, and removed before the report. -/
def februaryTurns : List (Turn Task Choice) :=
  Turn.call (Task.track 0) [Choice.proceed, .clock leapDay.firstOfMonth.midnight, .proceed] ++
  Turn.call (Task.install 0 { name := "notes" }) [Choice.proceed] ++
  Turn.call (Task.track 1) [Choice.proceed, .clock leapDay.midnight, .proceed] ++
  Turn.call (Task.uninstall 0 "notes") [Choice.proceed] ++
  Turn.call (Task.report 0) [Choice.day leapYear.today, .proceed, .status 201]

/-- A report that gives one for the notes has just been sent. -/
def reportsNotes : Log → Bool
  | ⟨_, .reporting (.post report), _, _⟩ :: _ => report.usage.get "notes" == some 1
  | _ => false

theorem usage_counts_trackings_february : ∃ c e earlier report, Runs ⟨.empty, []⟩ c ∧
    c.state.log = e :: earlier ∧ e.op = .reporting (.post report) ∧ report.usage.get "notes" = some 1 ∧
    CountsTrackings e.caller report earlier := by
  obtain ⟨c, hrun, hF⟩ := exists_run ⟨.empty, []⟩ februaryTurns (fun c => reportsNotes c.state.log)
    (by decide +kernel)
  unfold reportsNotes at hF
  split at hF
  · next i report r before earlier hlog =>
    have hsplit : c.state.log = [] ++ ⟨i, .reporting (.post report), r, before⟩ :: earlier := hlog
    exact ⟨c, _, earlier, report, hrun, hlog, rfl, eq_of_beq hF, usage_counts_trackings rfl hrun hsplit rfl⟩
  · cases hF

end Freeshard.UsageTracking

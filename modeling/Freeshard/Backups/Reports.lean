import Freeshard.Backups.Sections
import Mathlib.Algebra.Order.Ring.Int

/-! # The reports of backups

Every report in the table is the report of what its task has done under the lock: of all directories that exist, with
the stats that `rclone` has printed for them. As backups do not overlap, the times of all reports together are in order
as long as nobody sets the clock back, and the latest report is the one that was inserted last. -/

namespace Freeshard.Backup
open Coroutine Posix
open Sql (Json)
set_option autoImplicit false

variable {loads : String → Except Exn Json} {settings : Settings} {C : Condition Op Ans Exn World Task}
  {w w' : World} {c : Loop} {s : State} {i : Task} {op : Op} {r : Answer op}

/-! ## What is inserted -/

/-- The row was inserted by a task whose progress it documents. -/
def Inserted (loads : String → Except Exn Json) (settings : Settings) (log : Log) (report : BackupReport) : Prop :=
  ∃ later i r before earlier p, log = later ++ ⟨i, .insert report, r, before⟩ :: earlier ∧
    stageOf loads settings i earlier = .inside p ∧ Documents loads settings p report

theorem Inserted.cons {log : Log} {report : BackupReport} (h : Inserted loads settings log report)
    (e : Entry Op Ans Exn World Task) : Inserted loads settings (e :: log) report := by
  obtain ⟨later, i, r, before, earlier, p, rfl, hp⟩ := h
  exact ⟨e :: later, i, r, before, earlier, p, rfl, hp⟩

/-- The table changes only when a report is inserted. -/
theorem Act.backups (h : Act i w op r w') :
    w'.backups = w.backups ∨ ∃ report, op = .insert report ∧ w'.backups = report :: w.backups := by
  have heffect := h.effect
  cases op with
  | insert report =>
    cases r with
    | ok _ => exact .inr ⟨report, rfl, (congrArg World.backups heffect :)⟩
    | error e =>
      obtain hw | hw := heffect
      · exact .inl (congrArg World.backups hw)
      · exact .inr ⟨report, rfl, (congrArg World.backups hw :)⟩
  | acquire =>
    cases r with
    | ok _ => exact .inl (congrArg World.backups heffect.2 :)
    | error e => exact .inl (congrArg World.backups heffect)
  | release => exact .inl (congrArg World.backups heffect :)
  | createTask response =>
    cases r with
    | ok _ =>
      obtain ⟨id, -, hw⟩ := heffect
      exact .inl (congrArg World.backups hw :)
    | error e => exact .inl (congrArg World.backups heffect)
  | locked =>
    cases r with
    | ok _ => exact .inl (congrArg World.backups heffect.2)
    | error e => exact .inl (congrArg World.backups heffect)
  | now =>
    cases r with
    | ok time => exact .inl (congrArg World.backups heffect :)
    | error e => exact .inl (congrArg World.backups heffect)
  | _ => exact .inl (congrArg World.backups heffect)

/-- Every row that a run adds was inserted by a task as the report of its progress under the lock. -/
theorem reports_documented (h : Runs loads settings C w c) :
    ∃ added, c.state.world.backups = added ++ w.backups ∧
      ∀ report ∈ added, Inserted loads settings c.state.log report := by
  refine Recorded.TaskRuns.invariant (I := fun s => ∃ added, s.world.backups = added ++ w.backups ∧
    ∀ report ∈ added, Inserted loads settings s.log report) conforms_create ⟨[], rfl, fun _ h => by cases h⟩ ?_ h
  rintro i s op r w' hallowed ⟨added, hadded, hinserted⟩ - ha
  obtain hsame | ⟨report, rfl, hnew⟩ := ha.backups
  · exact ⟨added, hsame.trans hadded, fun report hmem => (hinserted report hmem).cons _⟩
  · refine ⟨report :: added, by rw [Recorded.next_world, hnew, hadded, List.cons_append], fun report' hmem => ?_⟩
    obtain rfl | hmem := List.mem_cons.mp hmem
    · obtain ⟨p, hp, hdocuments⟩ := hallowed
      exact ⟨[], i, r, s.world, s.log, p, rfl, hp, hdocuments⟩
    · exact (hinserted report' hmem).cons _

/-- A report of the only directory. -/
theorem reports_documented_run : ∃ c, Runs Script.emptyStats Script.dataOnly Recorded.anyway {} c ∧
    c.state.world.backups.map (·.directories.map (·.directory)) = [["data"]] ∧
    ∃ added, c.state.world.backups = added ++ [] ∧
      ∀ report ∈ added, Inserted Script.emptyStats Script.dataOnly c.state.log report := by
  obtain ⟨c, hrun, hc⟩ := exists_run Script.emptyStats Script.dataOnly Recorded.anyway {}
    (Script.starts 0 ++ Script.copies 0 1 ++ Script.reports 0 2)
    (fun c => c.state.world.backups.map (·.directories.map (·.directory)) == [["data"]]) (by decide +kernel)
  exact ⟨c, hrun, by simpa using hc, reports_documented hrun⟩

/-! ## Times in order -/

/-- The times of all reports, from the first row on. -/
def timelines (backups : List BackupReport) : List ℤ := backups.reverse.flatMap BackupReport.timeline

theorem timelines_cons (report : BackupReport) (backups : List BackupReport) :
    timelines (report :: backups) = timelines backups ++ report.timeline := by
  rw [timelines, List.reverse_cons, List.flatMap_append, List.flatMap_singleton]
  rfl

theorem pairwise_append_singleton {times : List ℤ} {time : ℤ} :
    (times ++ [time]).Pairwise (· ≤ ·) ↔ times.Pairwise (· ≤ ·) ∧ ∀ t ∈ times, t ≤ time := by
  simp [List.pairwise_append]

/-- The clock has been set back since it was read before. -/
def setBack : Entry Op Ans Exn World Task → Bool
  | ⟨_, .now, .ok time, before⟩ => time < before.clock
  | _ => false

/-- Nobody has set the clock back: no reading is earlier than the one before it. -/
def Forward (log : Log) : Prop := ∀ e ∈ log, setBack e = false

instance (log : Log) : Decidable (Forward log) := inferInstanceAs (Decidable (∀ e ∈ _, _))

/-- Of a world: no report ends after the time that has been read last. -/
def InOrder (w : World) : Prop := (timelines w.backups ++ [w.clock]).Pairwise (· ≤ ·)

theorem inOrder_empty : InOrder {} := List.pairwise_singleton _ _

/-- The task with the lock has read its times after those of the reports. -/
structure Timely (loads : String → Except Exn Json) (settings : Settings) (s : State) : Prop where
  rows : InOrder s.world
  times : ∀ i p, stageOf loads settings i s.log = .inside p →
    (timelines s.world.backups ++ p.times ++ [s.world.clock]).Pairwise (· ≤ ·)

theorem pairwise_later {times : List ℤ} {time time' : ℤ} (h : (times ++ [time]).Pairwise (· ≤ ·))
    (hle : time ≤ time') : (times ++ [time']).Pairwise (· ≤ ·) := by
  rw [pairwise_append_singleton] at h ⊢
  exact ⟨h.1, fun t ht => (h.2 t ht).trans hle⟩

theorem pairwise_twice {times : List ℤ} {time : ℤ} (h : (times ++ [time]).Pairwise (· ≤ ·)) :
    (times ++ [time] ++ [time]).Pairwise (· ≤ ·) := by
  refine pairwise_append_singleton.mpr ⟨h, fun t ht => ?_⟩
  obtain ht | ht := List.mem_append.mp ht
  · exact (pairwise_append_singleton.mp h).2 t ht
  · rw [List.mem_singleton.mp ht]

/-- A task has the lock if it has just got it, or has done one thing more with it. -/
theorem inside_of_after {l : Stage} {p' : Progress} (h : l.after op r = .inside p') :
    p'.times = [] ∨ ∃ p, l = .inside p ∧ p' = p.after op r := by
  cases op with
  | acquire =>
    cases r with
    | ok _ =>
      cases h
      exact .inl rfl
    | error e =>
      cases l with
      | inside p =>
        cases h
        exact .inr ⟨p, rfl, rfl⟩
      | _ => cases h
  | release => cases l <;> cases h
  | locked =>
    cases r with
    | ok locked =>
      cases locked <;> cases l <;> cases h <;> exact .inr ⟨_, rfl, rfl⟩
    | error e =>
      cases l <;> cases h
      exact .inr ⟨_, rfl, rfl⟩
  | _ =>
    cases l <;> cases h
    exact .inr ⟨_, rfl, rfl⟩

/-- What an operation that is no look at the clock and inserts nothing leaves of times. -/
theorem Act.kept (h : Act i w op r w') (hnow : ∀ time, op = .now → ¬HEq r (Except.ok time : Answer .now))
    (hinsert : ∀ report, op ≠ .insert report) :
    w'.backups = w.backups ∧ w'.clock = w.clock ∧ ∀ p : Progress, (p.after op r).times = p.times := by
  have heffect := h.effect
  cases op with
  | insert report => exact absurd rfl (hinsert report)
  | now =>
    cases r with
    | ok time => exact absurd HEq.rfl (hnow time rfl)
    | error e => exact ⟨congrArg World.backups heffect, congrArg World.clock heffect, fun p => rfl⟩
  | acquire =>
    cases r with
    | ok _ => exact ⟨(congrArg World.backups heffect.2 :), (congrArg World.clock heffect.2 :), fun p => rfl⟩
    | error e => exact ⟨congrArg World.backups heffect, congrArg World.clock heffect, fun p => rfl⟩
  | release => exact ⟨(congrArg World.backups heffect :), (congrArg World.clock heffect :), fun p => rfl⟩
  | createTask response =>
    cases r with
    | ok _ =>
      obtain ⟨id, -, hw⟩ := heffect
      exact ⟨(congrArg World.backups hw :), (congrArg World.clock hw :), fun p => rfl⟩
    | error e => exact ⟨congrArg World.backups heffect, congrArg World.clock heffect, fun p => rfl⟩
  | locked =>
    cases r with
    | ok _ => exact ⟨congrArg World.backups heffect.2, congrArg World.clock heffect.2, fun p => rfl⟩
    | error e => exact ⟨congrArg World.backups heffect, congrArg World.clock heffect, fun p => rfl⟩
  | _ =>
    refine ⟨congrArg World.backups heffect, congrArg World.clock heffect, fun p => ?_⟩
    cases r <;> rfl

theorem Timely.now (h : Timely loads settings s) {time : ℤ} (hle : s.world.clock ≤ time) :
    Timely loads settings (s.next i .now (.ok time) { s.world with clock := time }) where
  rows := pairwise_later h.rows hle
  times j p hp := by
    by_cases hj : j = i
    · subst hj
      rw [stageOf_next_self] at hp
      obtain hnil | ⟨p, hl, rfl⟩ := inside_of_after hp
      · rw [hnil, List.append_nil]
        exact pairwise_later h.rows hle
      · have htimes := pairwise_twice (pairwise_later (h.times j p hl) hle)
        rw [List.append_assoc (timelines _)] at htimes
        exact htimes
    · rw [stageOf_next_ne _ _ _ _ hj] at hp
      exact pairwise_later (h.times j p hp) hle

/-- The report of the task with the lock comes after the others, and nobody else has the lock. -/
theorem Timely.insert (h : Timely loads settings s) {report : BackupReport} {r : Answer (.insert report)}
    (howned : backupLock.Owned (fun i => stageOf loads settings i s.log) s.world) {p : Progress}
    (hp : stageOf loads settings i s.log = .inside p) (hdocuments : Documents loads settings p report)
    (hrows : w'.backups = s.world.backups ∨ w'.backups = report :: s.world.backups)
    (hclock : w'.clock = s.world.clock) : Timely loads settings (s.next i (.insert report) r w') := by
  have hsorted : InOrder w' := by
    obtain hsame | hnew := hrows
    · rw [InOrder, hsame, hclock]
      exact h.rows
    · rw [InOrder, hnew, hclock, timelines_cons, ← hdocuments.times]
      exact h.times i p hp
  refine ⟨hsorted, fun j p' hp' => ?_⟩
  by_cases hj : j = i
  · subst hj
    rw [stageOf_next_self] at hp'
    have htimes : p'.times = [] := by
      obtain hnil | ⟨p, -, rfl⟩ := inside_of_after hp'
      · exact hnil
      · cases r <;> rfl
    rw [htimes, List.append_nil]
    exact hsorted
  · rw [stageOf_next_ne _ _ _ _ hj] at hp'
    exact absurd (howned.exclusive j i () ⟨p', hp'⟩ ⟨p, hp⟩) hj

theorem Timely.step (h : Timely loads settings s)
    (howned : backupLock.Owned (fun i => stageOf loads settings i s.log) s.world)
    (hallowed : (stageProtocol loads settings).allows (stageOf loads settings i s.log) op)
    (ha : Act i s.world op r w') (hforward : setBack ⟨i, op, r, s.world⟩ = false) :
    Timely loads settings (s.next i op r w') := by
  by_cases hnow : ∃ time, op = .now ∧ HEq r (Except.ok time : Answer .now)
  · obtain ⟨time, rfl, hr⟩ := hnow
    obtain rfl := eq_of_heq hr
    obtain rfl := ha.effect
    exact h.now (not_lt.mp (of_decide_eq_false hforward))
  by_cases hinsert : ∃ report, op = .insert report
  · obtain ⟨report, rfl⟩ := hinsert
    obtain ⟨p, hp, hdocuments⟩ := hallowed
    have heffect := ha.effect
    cases r with
    | ok _ =>
      exact h.insert howned hp hdocuments (.inr (congrArg World.backups heffect :)) (congrArg World.clock heffect :)
    | error e =>
      obtain hw | hw := heffect
      · exact h.insert howned hp hdocuments (.inl (congrArg World.backups hw)) (congrArg World.clock hw)
      · exact h.insert howned hp hdocuments (.inr (congrArg World.backups hw :)) (congrArg World.clock hw :)
  obtain ⟨hbackups, hclock, hprogress⟩ := ha.kept (fun time hop hr => hnow ⟨time, hop, hr⟩)
    fun report hop => hinsert ⟨report, hop⟩
  have hrows : InOrder w' := by
    rw [InOrder, hbackups, hclock]
    exact h.rows
  refine ⟨hrows, fun j p hp => ?_⟩
  by_cases hj : j = i
  · subst hj
    rw [stageOf_next_self] at hp
    obtain hnil | ⟨p, hl, rfl⟩ := inside_of_after hp
    · rw [hnil, List.append_nil]
      exact hrows
    · rw [Recorded.next_world, hbackups, hclock, hprogress]
      exact h.times j p hl
  · rw [stageOf_next_ne _ _ _ _ hj] at hp
    rw [Recorded.next_world, hbackups, hclock]
    exact h.times j p hp

/-- The run lemma. -/
theorem inOrder_of_run (hfree : w.locked = false) (hw : InOrder w) (h : Runs loads settings C w c)
    (hforward : Forward c.state.log) : InOrder c.state.world := by
  have h₀ : backupLock.Owned (fun i => stageOf loads settings i (⟨w, []⟩ : State).log) w :=
    ⟨fun k => ⟨fun hk => absurd hk (Bool.eq_false_iff.mp hfree), fun ⟨i, p, hp⟩ => absurd hp (outside_ne_inside p)⟩,
      fun i j k ⟨p, hp⟩ _ => absurd hp (outside_ne_inside p)⟩
  have hinv : backupLock.Owned (fun i => stageOf loads settings i c.state.log) c.state.world ∧
      (Forward c.state.log → Timely loads settings c.state) := by
    refine Recorded.TaskRuns.invariant (I := fun s => backupLock.Owned (fun i => stageOf loads settings i s.log) s.world ∧
      (Forward s.log → Timely loads settings s)) conforms_create
      ⟨h₀, fun _ => ⟨hw, fun i p hp => absurd hp (outside_ne_inside p)⟩⟩ ?_ h
    rintro i s op r w' hallowed ⟨howned, hs⟩ - ha
    refine ⟨howned.step backupLock_sound hallowed ha, fun hforward => ?_⟩
    obtain ⟨hlast, hbefore⟩ := List.forall_mem_cons.mp hforward
    exact (hs hbefore).step howned hallowed ha hlast
  exact (hinv.2 hforward).rows

/-! ## The latest report -/

/-- `db_backups.get_latest`: some row that none ends after. -/
def GetLatest (backups : List BackupReport) (row : Option BackupReport) : Prop :=
  match row with
  | none => backups = []
  | some row => row ∈ backups ∧ ∀ other ∈ backups, other.endTime ≤ row.endTime

theorem mem_timelines {backups : List BackupReport} {report : BackupReport} (h : report ∈ backups) :
    report.endTime ∈ timelines backups := by
  refine List.mem_flatMap.mpr ⟨report, List.mem_reverse.mpr h, ?_⟩
  rw [BackupReport.timeline]
  exact List.mem_append_right _ List.mem_cons_self

theorem latest_of_inOrder (h : InOrder w) {row : BackupReport} (hrow : GetLatest w.backups (some row)) :
    ∃ last earlier, w.backups = last :: earlier ∧ row.endTime = last.endTime ∧
      (last.startTime < last.endTime → row = last) := by
  obtain ⟨hmem, hlatest⟩ := hrow
  cases hbackups : w.backups with
  | nil =>
    rw [hbackups] at hmem
    cases hmem
  | cons last earlier =>
    refine ⟨last, earlier, rfl, ?_⟩
    rw [hbackups] at hmem hlatest
    have hbefore : ∀ other ∈ earlier, other.endTime ≤ last.startTime ∧ last.startTime ≤ last.endTime := by
      intro other hother
      rw [InOrder, hbackups, timelines_cons, List.append_assoc] at h
      obtain ⟨-, hlast, hacross⟩ := List.pairwise_append.mp h
      refine ⟨hacross _ (mem_timelines hother) _ List.mem_cons_self, ?_⟩
      refine List.rel_of_pairwise_cons hlast ?_
      simp
    obtain rfl | hmem := List.mem_cons.mp hmem
    · exact ⟨rfl, fun _ => rfl⟩
    · have hrow := hlatest last List.mem_cons_self
      obtain ⟨hend, hspan⟩ := hbefore row hmem
      have heq : row.endTime = last.endTime := le_antisymm (hend.trans hspan) hrow
      refine ⟨heq, fun hlt => absurd hlt (not_lt.mpr ?_)⟩
      rw [← heq]
      exact hend

/-- As long as nobody sets the clock back, the times of all reports, each with those of its directories, stay in order: no
report begins before the one that was inserted before it has ended. So what is read as the latest report has ended when
the one that was inserted last has, and is that one if its backup has taken any time. -/
theorem reports_in_order (hfree : w.locked = false) (hw : InOrder w) (h : Runs loads settings C w c)
    (hforward : Forward c.state.log) :
    InOrder c.state.world ∧ ∀ row, GetLatest c.state.world.backups (some row) →
      ∃ last earlier, c.state.world.backups = last :: earlier ∧ row.endTime = last.endTime ∧
        (last.startTime < last.endTime → row = last) :=
  ⟨inOrder_of_run hfree hw h hforward, fun _ hrow => latest_of_inOrder (inOrder_of_run hfree hw h hforward) hrow⟩

/-- Two reports. -/
theorem reports_in_order_run : ∃ c, Runs Script.emptyStats Script.dataOnly Recorded.anyway {} c ∧
    timelines c.state.world.backups = [1, 1, 2, 2, 3, 3, 4, 4] ∧ InOrder c.state.world ∧
    ∀ row, GetLatest c.state.world.backups (some row) →
      ∃ last earlier, c.state.world.backups = last :: earlier ∧ row.endTime = last.endTime ∧
        (last.startTime < last.endTime → row = last) := by
  obtain ⟨c, hrun, hc⟩ := exists_run Script.emptyStats Script.dataOnly Recorded.anyway {}
    (Script.starts 0 ++ Script.copies 0 1 ++ Script.reports 0 2 ++ Script.starts 1 ++ Script.copies 1 3 ++
      Script.reports 1 4)
    (fun c => timelines c.state.world.backups == [1, 1, 2, 2, 3, 3, 4, 4] && decide (Forward c.state.log))
    (by decide +kernel)
  rw [Bool.and_eq_true, beq_iff_eq, decide_eq_true_eq] at hc
  exact ⟨c, hrun, hc.1, reports_in_order rfl inOrder_empty hrun hc.2⟩

end Freeshard.Backup

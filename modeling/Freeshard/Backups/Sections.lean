import Freeshard.Coroutine.Locks
import Freeshard.Service.Backup

/-! # Backups do not overlap

A task backs up directories only while it holds the lock, and what it does since it holds the lock is its progress.
When it inserts a report, that is the report of its progress. It gives the lock back however it ends. -/

namespace Freeshard.Backup
open Coroutine Posix
open Sql (Json)
set_option autoImplicit false

/-! ## The progress of a task -/

/-- What a task has done since it holds the lock. -/
structure Progress where
  /-- The times it has read for its report. -/
  times : List ℤ := []
  snapshot : Bool := false
  /-- The directories it has looked for, and whether they exist. -/
  checks : List (Posix.Path × Bool) := []
  /-- The processes it has waited for, by their arguments. -/
  runs : List (List String × Completed) := []
  inserted : Bool := false

/-- The directories it has found. -/
def Progress.found (p : Progress) : List Posix.Path := (p.checks.filter (·.2)).map (·.1)

def Progress.after (p : Progress) : (op : Op) → Answer op → Progress
  | .now, .ok time => { p with times := p.times ++ [time] }
  | .writeDbSnapshot, .ok _ => { p with snapshot := true }
  | .isDir directory, .ok found => { p with checks := p.checks ++ [(directory, found)] }
  | .communicate argv, .ok process => { p with runs := p.runs ++ [(argv, process)] }
  | .insert _, .ok _ => { p with times := [], inserted := true }
  | .insert _, .error _ => { p with times := [] }
  | _, _ => p

inductive Stage where
  | outside
  /-- It has just seen that the lock is free. -/
  | checked
  /-- It holds the lock. -/
  | inside (p : Progress)
  /-- It has released the lock. -/
  | left (p : Progress)

def Stage.after (l : Stage) (op : Op) (r : Answer op) : Stage :=
  match op, r with
  | .acquire, .ok _ => .inside {}
  | .release, _ =>
    match l with
    | .inside p => .left p
    | l => l
  | .locked, .ok false =>
    match l with
    | .inside p => .inside p
    | _ => .checked
  | op, r =>
    match l with
    | .inside p => .inside (p.after op r)
    | .checked => .outside
    | l => l

/-- What is done only under the lock. -/
def Op.underLock : Op → Bool
  | .writeDbSnapshot => true
  | .getPassphrase => true
  | .obscure _ => true
  | .isDir _ => true
  | .createSubprocessExec _ => true
  | .communicate _ => true
  | .insert _ => true
  | .uploadMarker _ _ _ => true
  | _ => false

/-! ## Reports -/

/-- The times of a report, in order. -/
def BackupReport.timeline (report : BackupReport) : List ℤ :=
  report.startTime :: report.directories.flatMap (fun stats => [stats.startTime, stats.endTime]) ++ [report.endTime]

variable (loads : String → Except Exn Json) (settings : Settings)

/-- The stats of the directory, as seen from `path_root`. -/
def IsOf (directory : Posix.Path) (stats : BackupStats) : Prop :=
  (directory.relativeTo settings.pathRoot).map Posix.Path.text = some stats.directory

/-- The process has succeeded in copying the directory of the stats, and has printed them. -/
structure Copied (sasToken obscuredPassphrase containerName : String) (stats : BackupStats)
    (run : List String × Completed) : Prop where
  argv : run.1 = arguments sasToken obscuredPassphrase containerName stats.directory
  returncode : run.2.returncode = 0
  stats : readStats loads run.2.stderr = .ok (.object stats.rcloneStats)

/-- The stats of the directories found so far, each from a run of `rclone` for this directory. -/
structure Copies (sasToken obscuredPassphrase containerName : String) (p : Progress)
    (dirStats : List BackupStats) : Prop where
  snapshot : p.snapshot = true
  directories : List.Forall₂ (IsOf settings) p.found dirStats
  runs : List.Forall₂ (Copied loads sasToken obscuredPassphrase containerName) dirStats p.runs

/-- The report of a progress: of a snapshot, of all directories that are to be backed up as far as they exist, and of
the times at which this was done. -/
structure Documents (p : Progress) (report : BackupReport) : Prop where
  checks : p.checks.map (·.1) = settings.paths
  times : p.times = report.timeline
  copies : ∃ sasToken obscuredPassphrase containerName,
    Copies loads settings sasToken obscuredPassphrase containerName p report.directories

/-! ## The protocol -/

def stageProtocol : Protocol Op Ans Exn Stage where
  allows l op :=
    match op with
    | .acquire => l = .checked
    | .release => ∃ p, l = .inside p
    | .insert report => ∃ p, l = .inside p ∧ Documents loads settings p report
    | op => op.underLock = true → ∃ p, l = .inside p
  after l op r := l.after op r

/-- What a task ends in. -/
def Ending (i : Task) (r : Except Exn Unit) (l : Stage) : Prop :=
  (∀ p, l ≠ .inside p) ∧
    match i with
    | .backup _ => r = .ok () → ∃ p, l = .left p ∧ p.inserted = true
    | _ => True

variable {loads settings}

theorem outside_ne_inside (p : Progress) : Stage.outside ≠ .inside p := by
  intro h
  cases h

theorem left_ne_inside (p p' : Progress) : Stage.left p ≠ .inside p' := by
  intro h
  cases h

theorem ending_error (i : Task) (e : Exn) {l : Stage} (h : ∀ p, l ≠ .inside p) : Ending i (.error e) l := by
  refine ⟨h, ?_⟩
  cases i with
  | backup id =>
    intro he
    cases he
  | _ => trivial

/-- It still has the lock, whatever has happened. -/
def Inside {α : Type} (_ : Except Exn α) (l : Stage) : Prop := ∃ p, l = .inside p

theorem conforms_ofExcept {α : Type} (x : Except Exn α) {l : Stage} {Q : Except Exn α → Stage → Prop}
    (h : Q x l) : (ofExcept x).Conforms (stageProtocol loads settings) l Q := by
  cases x <;> exact h

theorem conforms_getObscuredPassphrase {p : Progress} : getObscuredPassphrase.Conforms
    (stageProtocol loads settings) (.inside p) fun _ l => l = .inside p := by
  refine Prog.Conforms.perform_bind (fun _ => ⟨p, rfl⟩) (fun passphrase => ?_) fun _ => rfl
  exact Prog.Conforms.perform_bind (fun _ => ⟨p, rfl⟩) (fun stdout => rfl) fun _ => rfl

/-- `_backup_directory` adds one run of `rclone`, and succeeds only if that has. -/
theorem conforms_backupDirectory (containerName relDirectory obscuredPassphrase sasToken : String) (p : Progress) :
    (backupDirectory loads containerName relDirectory obscuredPassphrase sasToken).Conforms
      (stageProtocol loads settings) (.inside p) fun r l => Inside r l ∧ ∀ json, r = .ok json →
        ∃ process : Completed, process.returncode = 0 ∧ readStats loads process.stderr = .ok json ∧
          l = .inside { p with
            runs := p.runs ++ [(arguments sasToken obscuredPassphrase containerName relDirectory, process)] } := by
  refine Prog.Conforms.perform_bind (fun _ => ⟨p, rfl⟩) (fun _ => ?_) fun e => ⟨⟨_, rfl⟩, fun _ he => by cases he⟩
  refine Prog.Conforms.perform_bind (fun _ => ⟨_, rfl⟩) (fun process => ?_) fun e => ⟨⟨_, rfl⟩, fun _ he => by cases he⟩
  split
  · exact ⟨⟨_, rfl⟩, fun _ he => by cases he⟩
  · next hcode =>
    refine conforms_ofExcept _ ⟨⟨_, rfl⟩, fun json hjson => ?_⟩
    exact ⟨process, not_not.mp hcode, hjson, rfl⟩

/-- The times of stats. -/
def spans (dirStats : List BackupStats) : List ℤ := dirStats.flatMap fun stats => [stats.startTime, stats.endTime]

theorem spans_append (dirStats : List BackupStats) (stats : BackupStats) :
    spans (dirStats ++ [stats]) = spans dirStats ++ [stats.startTime, stats.endTime] := by
  rw [spans, List.flatMap_append, List.flatMap_singleton]
  rfl

theorem Progress.found_append (p : Progress) (directory : Posix.Path) (found : Bool) :
    { p with checks := p.checks ++ [(directory, found)] }.found = p.found ++ if found then [directory] else [] := by
  cases found <;> simp [Progress.found]

/-- The loop: what holds of the stats of the directories before holds of the stats of all of them. -/
theorem conforms_backupEach {containerName obscuredPassphrase sasToken : String} {start : ℤ}
    (directories : List Posix.Path) (dirStats : List BackupStats) (p : Progress)
    (hcopies : Copies loads settings sasToken obscuredPassphrase containerName p dirStats)
    (htimes : p.times = start :: spans dirStats) :
    (backupEach loads settings containerName obscuredPassphrase sasToken directories dirStats).Conforms
      (stageProtocol loads settings) (.inside p) fun r l => Inside r l ∧ ∀ allStats, r = .ok allStats →
        ∃ p', l = .inside p' ∧ p'.checks.map (·.1) = p.checks.map (·.1) ++ directories ∧
          p'.times = start :: spans allStats ∧
          Copies loads settings sasToken obscuredPassphrase containerName p' allStats := by
  induction directories generalizing dirStats p with
  | nil =>
    refine ⟨⟨p, rfl⟩, ?_⟩
    rintro _ ⟨⟩
    exact ⟨p, rfl, (List.append_nil _).symm, htimes, hcopies⟩
  | cons directory directories ih =>
    refine Prog.Conforms.perform_bind (fun _ => ⟨p, rfl⟩) (fun found => ?_) fun e => ⟨⟨_, rfl⟩, fun _ he => by cases he⟩
    cases found with
    | false =>
      have hfound := p.found_append directory false
      refine (ih dirStats { p with checks := p.checks ++ [(directory, false)] } ⟨hcopies.snapshot, ?_, hcopies.runs⟩
        htimes).mono ?_
      · rw [hfound, if_neg Bool.false_ne_true, List.append_nil]
        exact hcopies.directories
      · rintro r l ⟨hinside, hok⟩
        refine ⟨hinside, fun allStats hr => ?_⟩
        obtain ⟨p', hl, hchecks, hp'⟩ := hok allStats hr
        refine ⟨p', hl, ?_, hp'⟩
        rw [hchecks, List.map_append, List.append_assoc]
        rfl
    | true =>
      have hfound := p.found_append directory true
      refine Prog.Conforms.perform_bind (fun _ => ⟨_, rfl⟩) (fun startTime => ?_)
        fun e => ⟨⟨_, rfl⟩, fun _ he => by cases he⟩
      unfold getRelativeDirectory
      cases hrel : directory.relativeTo settings.pathRoot with
      | none => exact ⟨⟨_, rfl⟩, fun _ he => by cases he⟩
      | some relDirectory =>
        refine (conforms_backupDirectory containerName relDirectory.text obscuredPassphrase sasToken _).bind
          (fun json l hl => ?_) fun e l hl => ⟨hl.1, fun _ he => by cases he⟩
        obtain ⟨process, hcode, hjson, rfl⟩ := hl.2 json rfl
        refine Prog.Conforms.perform_bind (fun _ => ⟨_, rfl⟩) (fun endTime => ?_)
          fun e => ⟨⟨_, rfl⟩, fun _ he => by cases he⟩
        cases json with
        | object members =>
          have hstats : IsOf settings directory ⟨relDirectory.text, startTime, endTime, members⟩ := by
            rw [IsOf, hrel]
            rfl
          have hcopied : Copied loads sasToken obscuredPassphrase containerName
              ⟨relDirectory.text, startTime, endTime, members⟩
              (arguments sasToken obscuredPassphrase containerName relDirectory.text, process) := by
            refine ⟨?_, hcode, hjson⟩
            dsimp only
          simp only [makeStats, Prog.pure_eq_ret, Prog.ret_bind]
          refine (ih (dirStats ++ [⟨relDirectory.text, startTime, endTime, members⟩])
            { p with
              times := p.times ++ [startTime] ++ [endTime]
              checks := p.checks ++ [(directory, true)]
              runs := p.runs ++ [(arguments sasToken obscuredPassphrase containerName relDirectory.text, process)] }
            ⟨hcopies.snapshot, ?_, ?_⟩ ?_).mono ?_
          · refine Eq.subst hfound.symm (motive := fun found => List.Forall₂ (IsOf settings) found _) ?_
            exact List.rel_append hcopies.directories (.cons hstats .nil)
          · exact List.rel_append hcopies.runs (.cons hcopied .nil)
          · rw [spans_append]
            simp [htimes]
          · rintro r l ⟨hinside, hok⟩
            refine ⟨hinside, fun allStats hr => ?_⟩
            obtain ⟨p', hl, hchecks, hp'⟩ := hok allStats hr
            refine ⟨p', hl, ?_, hp'⟩
            rw [hchecks, List.map_append, List.append_assoc]
            rfl
        | _ => exact ⟨⟨_, rfl⟩, fun _ he => by cases he⟩

theorem conforms_writeMarkerBlob (containerName sasToken : String) (p : Progress) :
    (writeMarkerBlob containerName sasToken).Conforms (stageProtocol loads settings) (.inside p)
      fun r l => r = .ok () ∧ ∃ p', l = .inside p' ∧ p'.inserted = p.inserted := by
  refine Prog.Conforms.tryCatch (R := fun _ l => ∃ p', l = .inside p' ∧ p'.inserted = p.inserted) ?_
    (fun _ l hl => ⟨rfl, hl⟩) fun e l hl => ⟨rfl, hl⟩
  refine Prog.Conforms.perform_bind (fun _ => ⟨p, rfl⟩) (fun timestamp => ?_) fun e => ⟨_, rfl, rfl⟩
  exact Prog.Conforms.perform (fun _ => ⟨_, rfl⟩) fun r => ⟨_, rfl, rfl⟩

theorem conforms_backupLocked (containerName sasToken : String) :
    (backupLocked loads settings settings.paths containerName sasToken).Conforms (stageProtocol loads settings)
      (.inside {}) fun r l => ∃ p, l = .inside p ∧ (r = .ok () → p.inserted = true) := by
  refine Prog.Conforms.perform_bind (fun _ => ⟨_, rfl⟩) (fun startTime => ?_) fun e => ⟨_, rfl, fun he => by cases he⟩
  refine Prog.Conforms.perform_bind (fun _ => ⟨_, rfl⟩) (fun _ => ?_) fun e => ⟨_, rfl, fun he => by cases he⟩
  refine conforms_getObscuredPassphrase.bind (fun obscuredPassphrase l hl => ?_)
    fun e l hl => ⟨_, hl, fun he => by cases he⟩
  subst hl
  refine (conforms_backupEach settings.paths [] _ ⟨rfl, .nil, .nil⟩ (rfl : _ = startTime :: spans [])).bind
    (fun dirStats l hl => ?_) fun e l hl => ⟨_, hl.1.choose_spec, fun he => by cases he⟩
  obtain ⟨p, rfl, hchecks, htimes, hcopies⟩ := hl.2 dirStats rfl
  refine Prog.Conforms.perform_bind (fun _ => ⟨p, rfl⟩) (fun endTime => ?_) fun e => ⟨_, rfl, fun he => by cases he⟩
  have hreport : Documents loads settings (p.after .now (.ok endTime)) ⟨dirStats, startTime, endTime⟩ := by
    refine ⟨hchecks, ?_, _, _, _, hcopies.snapshot, hcopies.directories, hcopies.runs⟩
    rw [Progress.after, htimes]
    rfl
  refine Prog.Conforms.perform_bind ⟨_, rfl, hreport⟩ (fun _ => ?_) fun e => ⟨_, rfl, fun he => by cases he⟩
  refine (conforms_writeMarkerBlob containerName sasToken _).mono ?_
  rintro r l ⟨rfl, p', rfl, hp'⟩
  exact ⟨p', rfl, fun _ => hp'⟩

theorem conforms_backupDirectories (id : ℕ) (containerName sasToken : String) :
    (backupDirectories loads settings settings.paths containerName sasToken).Conforms (stageProtocol loads settings)
      .outside (Ending (.backup id)) := by
  have hfails : ∀ e, Ending (.backup id) (.error e) .outside := fun e => ending_error _ e outside_ne_inside
  refine Prog.Conforms.perform_bind (fun h => by cases h) (fun locked => ?_) hfails
  cases locked with
  | true => exact hfails _
  | false =>
    refine Prog.Conforms.perform_bind (l := Stage.checked) rfl (fun _ => ?_) hfails
    refine (conforms_backupLocked containerName sasToken).tryFinally ?_
    rintro r l ⟨p, rfl, hp⟩
    refine Prog.Conforms.perform ⟨p, rfl⟩ fun r' => ?_
    cases r' with
    | ok _ => exact ⟨left_ne_inside p, fun hr => ⟨p, rfl, hp hr⟩⟩
    | error e => exact ending_error _ e (left_ne_inside p)

theorem conforms_startBackup (id : ℕ) :
    startBackup.Conforms (stageProtocol loads settings) .outside (Ending (.start id)) := by
  have hends : ∀ r, Ending (.start id) r .outside := fun r => ⟨outside_ne_inside, trivial⟩
  refine Prog.Conforms.perform_bind (fun h => by cases h) (fun locked => ?_) fun e => hends _
  cases locked with
  | true => exact hends _
  | false =>
    refine Prog.Conforms.bind (R := fun _ l => l = .outside) ?_ (fun response l hl => ?_)
      fun e l hl => by rw [hl]; exact hends _
    · refine Prog.Conforms.tryCatch (R := fun _ l => l = .outside)
        (Prog.Conforms.perform (fun h => by cases h) fun r => by cases r <;> rfl) (fun _ _ hl => hl) fun e l hl => ?_
      cases e <;> exact hl
    · subst hl
      exact Prog.Conforms.perform (fun h => by cases h) fun r => by cases r <;> exact hends _

theorem conforms_onTaskDone (id : ℕ) (r : Except Exn Unit) :
    (onTaskDone r).Conforms (stageProtocol loads settings) .outside (Ending (.onTaskDone id)) := by
  have hends : ∀ r, Ending (.onTaskDone id) r .outside := fun r => ⟨outside_ne_inside, trivial⟩
  have hsend : ∀ error, (awaitOp (.send error)).Conforms (stageProtocol loads settings) .outside
      (Ending (.onTaskDone id)) := fun error =>
    Prog.Conforms.perform (fun h => by cases h) fun r => by cases r <;> exact hends _
  match r with
  | .error .cancelled => exact hends _
  | .ok () => exact hsend none
  | .error (.httpError _) | .error (.backupStartFailed _) | .error .backupInProgress | .error (.backupFailed _)
  | .error .jsonDecode | .error .index | .error (.key _) | .error (.type _) | .error (.value _)
  | .error .validation | .error (.other _) => exact hsend _

theorem conforms_create (c : Loop) (i : Task) (p : Prog Op Ans Exn Unit)
    (hp : create loads settings c i = some p) :
    p.Conforms (stageProtocol loads settings) .outside (Ending i) := by
  cases i with
  | start id =>
    cases hp
    exact conforms_startBackup id
  | backup id =>
    obtain ⟨response, -, rfl⟩ := Option.map_eq_some_iff.mp hp
    exact conforms_backupDirectories id _ _
  | onTaskDone id =>
    obtain ⟨r, -, rfl⟩ := Option.map_eq_some_iff.mp hp
    exact conforms_onTaskDone id r

/-! ## What the operations do to the world -/

/-- What an operation leaves, whatever the environment chooses. -/
def Effect (i : Task) (w : World) (op : Op) (r : Answer op) (w' : World) : Prop :=
  match op, r with
  | .locked, .ok locked => locked = w.locked ∧ w' = w
  | .acquire, .ok _ => w.locked = false ∧ w' = { w with locked := true }
  | .release, _ => w' = { w with locked := false }
  | .createTask response, .ok _ =>
    ∃ id, i = .start id ∧ w' = { w with tasks := Function.update w.tasks id (some response) }
  | .insert report, .ok _ => w' = { w with backups := report :: w.backups }
  | .insert report, .error _ => w' = w ∨ w' = { w with backups := report :: w.backups }
  | .now, .ok time => w' = { w with clock := time }
  | _, _ => w' = w

theorem Act.effect {i : Task} {w w' : World} {op : Op} {r : Answer op} (h : Act i w op r w') :
    Effect i w op r w' := by
  obtain ⟨choice, h⟩ := h
  cases op with
  | acquire =>
    cases choice with
    | proceed =>
      simp only [World.exec] at h
      split at h
      · cases h
      · next hlocked =>
        cases h
        exact ⟨Bool.eq_false_iff.mpr hlocked, rfl⟩
    | raise e =>
      cases h
      rfl
    | _ => cases h
  | release =>
    cases choice with
    | proceed =>
      simp only [World.exec] at h
      split at h
      · cases h
        rfl
      · next hlocked =>
        cases h
        obtain ⟨locked, clock, backups, tasks⟩ := w
        obtain rfl := Bool.eq_false_iff.mpr hlocked
        rfl
    | _ => cases h
  | createTask response =>
    cases choice with
    | proceed =>
      cases i with
      | start id =>
        cases h
        exact ⟨id, rfl, rfl⟩
      | _ => cases h
    | _ => cases h
  | insert report =>
    cases choice with
    | proceed =>
      cases h
      rfl
    | raise e =>
      cases h
      exact .inl rfl
    | commitRaise e =>
      cases h
      exact .inr rfl
    | _ => cases h
  | now =>
    cases choice with
    | reads time =>
      cases h
      rfl
    | _ => cases h
  | locked =>
    cases choice with
    | proceed =>
      cases h
      exact ⟨rfl, rfl⟩
    | _ => cases h
  | _ =>
    cases choice with
    | raise e => first | (cases h; rfl) | cases h
    | _ => first | (cases h; rfl) | cases h

/-- The lock afterwards. -/
def lockedAfter (w : World) (op : Op) (r : Answer op) : Bool :=
  match op, r with
  | .acquire, .ok _ => true
  | .release, _ => false
  | _, _ => w.locked

theorem Act.locked {i : Task} {w w' : World} {op : Op} {r : Answer op} (h : Act i w op r w') :
    w'.locked = lockedAfter w op r := by
  have heffect := h.effect
  cases op with
  | acquire =>
    cases r with
    | ok _ => exact congrArg World.locked heffect.2
    | error e => exact congrArg World.locked heffect
  | locked =>
    cases r with
    | ok _ => exact congrArg World.locked heffect.2
    | error e => exact congrArg World.locked heffect
  | createTask response =>
    cases r with
    | ok _ =>
      obtain ⟨id, -, hw⟩ := heffect
      exact (congrArg World.locked hw :)
    | error e => exact congrArg World.locked heffect
  | insert report =>
    cases r with
    | ok _ => exact (congrArg World.locked (show w' = { w with backups := report :: w.backups } from heffect) :)
    | error e => obtain hw | hw := heffect <;> exact (congrArg World.locked hw :)
  | now =>
    cases r with
    | ok time => exact (congrArg World.locked heffect :)
    | error e => exact congrArg World.locked heffect
  | _ => exact congrArg World.locked heffect

/-! ## The lock -/

def Stage.isInside : Stage → Bool
  | .inside _ => true
  | _ => false

theorem Stage.isInside_iff {l : Stage} : l.isInside = true ↔ ∃ p, l = .inside p := by
  cases l <;> simp [Stage.isInside]

def acquired (op : Op) (r : Answer op) : Bool :=
  match op, r with
  | .acquire, .ok _ => true
  | _, _ => false

theorem Stage.isInside_after (l : Stage) (op : Op) (r : Answer op) :
    (l.after op r).isInside = ((l.isInside || acquired op r) && match op with
      | .release => false
      | _ => true) := by
  cases op with
  | acquire => cases r <;> cases l <;> rfl
  | locked =>
    cases r with
    | ok locked => cases locked <;> cases l <;> rfl
    | error e => cases l <;> rfl
  | _ => cases l <;> rfl

/-- `BACKUP_IN_PROGESS_LOCK`. -/
def backupLock : Locks Op Ans Exn World Stage Unit where
  locked w _ := w.locked = true
  takes op r _ := acquired op r = true
  releases op _ := op = .release
  holds l _ := ∃ p, l = .inside p

theorem backupLock_sound : backupLock.Sound (fun _ => stageProtocol loads settings) Act where
  free {i w op r w' k} ha htakes := by
    cases op with
    | acquire =>
      cases r with
      | ok _ => exact Bool.eq_false_iff.mp ha.effect.1
      | error e => cases htakes
    | _ => cases htakes
  locked {i w op r w' k} ha := by
    have hlocked := ha.locked
    cases op with
    | acquire => cases r <;> simp [backupLock, hlocked, lockedAfter, acquired]
    | _ => simp [backupLock, hlocked, lockedAfter, acquired]
  holds {i l op r k} := by
    have hinside := Stage.isInside_after l op r
    simp only [backupLock, ← Stage.isInside_iff, stageProtocol]
    rw [hinside]
    cases op with
    | acquire => cases r <;> simp [acquired]
    | _ => simp [acquired]
  own {i l op k} hallowed hreleases := by
    obtain rfl := hreleases
    exact hallowed

/-! ## Main results -/

variable (loads settings)

abbrev stageOf (i : Task) (log : Log) : Stage :=
  Recorded.phaseOf (fun _ => stageProtocol loads settings) (fun _ => .outside) i log

variable {loads settings} {C : Condition Op Ans Exn World Task} {w : World} {c : Loop}

theorem stageOf_next_self (s : State) (i : Task) (op : Op) (r : Answer op) (w' : World) :
    stageOf loads settings i (s.next i op r w').log = (stageOf loads settings i s.log).after op r :=
  Recorded.phaseOf_next_self s i op r w'

theorem stageOf_next_ne (s : State) {i j : Task} (op : Op) (r : Answer op) (w' : World) (h : j ≠ i) :
    stageOf loads settings j (s.next i op r w').log = stageOf loads settings j s.log :=
  Recorded.phaseOf_next_ne s op r w' h

theorem stages_of_run (hfree : w.locked = false) (h : Runs loads settings C w c) :
    backupLock.Owned (fun i => stageOf loads settings i c.state.log) c.state.world ∧
      Locks.Orderly backupLock (fun _ => stageProtocol loads settings) (fun _ => .outside) c.state.log :=
  Locks.owned_of_run backupLock_sound conforms_create (fun _ => Bool.eq_false_iff.mp hfree)
    (fun _ _ ⟨p, hp⟩ => outside_ne_inside p hp) h

theorem underLock_allowed {l : Stage} {op : Op} (hop : op.underLock = true)
    (h : (stageProtocol loads settings).allows l op) : ∃ p, l = .inside p := by
  cases op with
  | insert report =>
    obtain ⟨p, hp, -⟩ := h
    exact ⟨p, hp⟩
  | acquire | release => cases hop
  | _ => exact h hop

/-- Whatever fails: what two tasks do under the lock is separated by a release of the first one, and once nothing is in
flight the lock is free. -/
theorem backups_exclusive (hfree : w.locked = false) (h : Runs loads settings C w c) :
    (∀ later between earlier e e', c.state.log = later ++ e' :: between ++ e :: earlier →
      e.op.underLock = true → e'.op.underLock = true → e.caller ≠ e'.caller →
      ∃ e'' ∈ between, e''.caller = e.caller ∧ e''.op = .release) ∧
    (c.Quiescent → c.state.world.locked = false) := by
  obtain ⟨-, horderly⟩ := stages_of_run hfree h
  constructor
  · intro later between earlier e e' hlog he he' hne
    rw [hlog] at horderly
    have hlater : Locks.Orderly backupLock (fun _ => stageProtocol loads settings) (fun _ => .outside)
        (e' :: (between ++ e :: earlier)) := by
      rw [List.append_assoc] at horderly
      exact Locks.Orderly.of_append horderly
    have hearlier : Locks.Orderly backupLock (fun _ => stageProtocol loads settings) (fun _ => .outside)
        (e :: earlier) := Locks.Orderly.of_append horderly
    refine horderly.released backupLock_sound (k := ()) hne ?_ ?_ ?_
    · intro hrelease
      rw [show e.op = .release from hrelease] at he
      cases he
    · exact underLock_allowed he hearlier.1
    · exact underLock_allowed he' hlater.1
  · intro hq
    refine Bool.eq_false_iff.mpr (Locks.free_of_run backupLock_sound conforms_create
      (fun _ => Bool.eq_false_iff.mp hfree) (fun _ _ ⟨p, hp⟩ => outside_ne_inside p hp) ?_ h hq ())
    rintro i r l - hends ⟨p, hp⟩
    exact hends.1 p hp

/-! ## Scripts of whole backups -/

namespace Script

/-- Every log ends in an object with empty stats. -/
def emptyStats : String → Except Exn Json := fun _ => .ok (.object [("stats", .object [])])

def dataOnly : Settings := ⟨⟨true, ["core"]⟩, ["data"]⟩

def box : SasUrlResponse := ⟨"box", "sas"⟩

/-- A call of `start_backup` that creates its task. -/
def starts (id : ℕ) : List (Turn Task Choice) :=
  Turn.call (.start id) [.proceed, .grants box, .proceed]

/-- What a task does from the lock to the end of `rclone` for its only directory, at this time. -/
def copies (id : ℕ) (time : ℤ) : List (Turn Task Choice) :=
  Turn.call (.backup id) [.proceed, .proceed, .reads time, .proceed, .prints "words", .prints "hidden", .finds true,
    .reads time, .proceed, .exits ⟨0, "{}\n"⟩]

/-- The rest of a backup. -/
def reports (id : ℕ) (time : ℤ) : List (Turn Task Choice) :=
  [.reads time, .reads time, .proceed, .reads time, .proceed, .proceed].map (Turn.fire (.backup id))

end Script

/-- The operation of the caller is in the log. -/
def performed (i : Task) (φ : Op → Bool) (log : Log) : Bool := log.any fun e => e.caller == i && φ e.op

/-- Two backups, one after the other. -/
theorem backups_exclusive_run : ∃ c, Runs Script.emptyStats Script.dataOnly Recorded.anyway {} c ∧
    performed (.backup 0) Op.underLock c.state.log = true ∧ performed (.backup 1) Op.underLock c.state.log = true ∧
    ∀ later between earlier e e', c.state.log = later ++ e' :: between ++ e :: earlier →
      e.op.underLock = true → e'.op.underLock = true → e.caller ≠ e'.caller →
      ∃ e'' ∈ between, e''.caller = e.caller ∧ e''.op = .release := by
  obtain ⟨c, hrun, hc⟩ := exists_run Script.emptyStats Script.dataOnly Recorded.anyway {}
    (Script.starts 0 ++ Script.copies 0 1 ++ Script.reports 0 2 ++ Script.starts 1 ++ Script.copies 1 3)
    (fun c => performed (.backup 0) Op.underLock c.state.log && performed (.backup 1) Op.underLock c.state.log)
    (by decide +kernel)
  rw [Bool.and_eq_true] at hc
  exact ⟨c, hrun, hc.1, hc.2, (backups_exclusive rfl hrun).1⟩

/-! ## Nobody waits for the lock -/

/-- Nothing runs between the look of a backup at the lock, when it is free, and what this backup does next: there is no
`await` in between. Between the look of `start_backup` and the creation of its task there is one. -/
def undivided : Condition Op Ans Exn World Task := fun s i _ =>
  match s.log with
  | ⟨.backup id, .locked, .ok false, _⟩ :: _ => i = .backup id
  | _ => True

instance (s : State) (i : Task) (op : Op) : Decidable (undivided s i op) := by
  unfold undivided
  split <;> infer_instance

/-- What a backup that has just seen the lock free can tell. -/
def Unlocked (loads : String → Except Exn Json) (settings : Settings) (s : State) : Prop :=
  ∀ id, stageOf loads settings (.backup id) s.log = .checked →
    s.world.locked = false ∧ ∃ before log, s.log = ⟨.backup id, .locked, .ok false, before⟩ :: log

theorem checked_of_after {l : Stage} {op : Op} {r : Answer op} (h : l.after op r = .checked) :
    (op = .locked ∧ HEq r (Except.ok false : Answer .locked)) ∨ (op = .release ∧ l = .checked) := by
  cases op with
  | locked =>
    cases r with
    | ok locked =>
      cases locked with
      | false => exact .inl ⟨rfl, HEq.rfl⟩
      | true => cases l <;> cases h
    | error e => cases l <;> cases h
  | release =>
    cases l with
    | checked => exact .inr ⟨rfl, rfl⟩
    | _ => cases h
  | acquire => cases r <;> cases l <;> cases h
  | _ => cases l <;> cases h

theorem Unlocked.step {s : State} {i : Task} {op : Op} {r : Answer op} {w' : World}
    (hallowed : (stageProtocol loads settings).allows (stageOf loads settings i s.log) op)
    (h : Unlocked loads settings s) (hC : undivided s i op) (ha : Act i s.world op r w') :
    Unlocked loads settings (s.next i op r w') := by
  intro id hj
  by_cases hji : .backup id = i
  · subst hji
    rw [stageOf_next_self] at hj
    obtain ⟨rfl, hr⟩ | ⟨rfl, hl⟩ := checked_of_after hj
    · obtain rfl := eq_of_heq hr
      refine ⟨?_, s.world, s.log, rfl⟩
      rw [Recorded.next_world, ha.locked]
      exact ha.effect.1.symm
    · obtain ⟨p, hp⟩ : ∃ p, stageOf loads settings (.backup id) s.log = .inside p := hallowed
      rw [show stageOf loads settings (.backup id) s.log = .checked from hl] at hp
      cases hp
  · rw [stageOf_next_ne _ _ _ _ hji] at hj
    obtain ⟨-, before, log, hlog⟩ := h id hj
    rw [undivided, hlog] at hC
    exact absurd hC.symm hji

/-- A backup that is about to acquire the lock finds it free: none is queued behind another one. -/
theorem backup_never_waits (h : Runs loads settings undivided w c) {id : ℕ}
    {next : Answer .acquire → Prog Op Ans Exn Unit} (hid : c.pool (.backup id) = some (.await .acquire next)) :
    c.state.world.locked = false := by
  have hunlocked : Unlocked loads settings c.state := by
    refine Recorded.TaskRuns.invariant (I := Unlocked loads settings) conforms_create ?_ ?_ h
    · intro id hid
      cases hid
    · exact fun i s op r w' hallowed hs hC ha => hs.step hallowed hC ha
  exact (hunlocked id (h.awaited conforms_create hid)).1

def Op.acquires : Op → Bool
  | .acquire => true
  | _ => false

theorem Op.eq_acquire {op : Op} (h : op.acquires = true) : op = .acquire := by
  unfold Op.acquires at h
  split at h
  · rfl
  · cases h

/-- A backup is about to acquire the lock after another one has released it; both were started while it was free. -/
theorem backup_never_waits_run : ∃ c next, Runs Script.emptyStats Script.dataOnly undivided {} c ∧
    c.pool (.backup 1) = some (.await .acquire next) ∧ performed (.backup 0) Op.underLock c.state.log = true ∧
    c.state.world.locked = false := by
  obtain ⟨c, hrun, hc⟩ := exists_run Script.emptyStats Script.dataOnly undivided {}
    ([Turn.start (.start 0), .fire (.start 0) .proceed] ++ Script.starts 1 ++
      [Turn.fire (.start 0) (.grants Script.box), .fire (.start 0) .proceed] ++ Script.copies 0 1 ++ Script.reports 0 2 ++
      Turn.call (Task.backup 1) [Choice.proceed])
    (fun c => performed (.backup 0) Op.underLock c.state.log && (c.awaiting (.backup 1)).any Op.acquires)
    (by decide +kernel)
  obtain ⟨hperformed, hwaits⟩ := Bool.and_eq_true_iff.mp hc
  obtain ⟨op, hawaiting, hacquires⟩ := (Option.any_eq_true _ _).mp hwaits
  obtain rfl := Op.eq_acquire hacquires
  obtain ⟨next, hnext⟩ := Config.pool_of_awaiting hawaiting
  exact ⟨c, next, hrun, hnext, hperformed, backup_never_waits hrun hnext⟩

end Freeshard.Backup

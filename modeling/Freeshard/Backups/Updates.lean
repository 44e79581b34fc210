import Freeshard.Backups.Reports

/-! # What is announced of backups

The callback of a task sends `on_backup_update` once: without an exception if the task has returned, with the exception it
has raised otherwise, and not at all if the task was cancelled. What is announced as done has its report in the table. -/

namespace Freeshard.Backup
open Coroutine Posix
open Sql (Json)
set_option autoImplicit false

variable {loads : String → Except Exn Json} {settings : Settings} {C : Condition Op Ans Exn World Task}
  {w w' : World} {c c' : Loop} {s : State}

/-! ## Announcements -/

/-- What the callback of a task has sent, latest first. -/
def updates (id : ℕ) : Log → List (Option Exn)
  | [] => []
  | ⟨.onTaskDone other, .send error, _, _⟩ :: log =>
    if other = id then error :: updates id log else updates id log
  | _ :: log => updates id log

/-- What is to be sent of a task that has ended so. -/
def announcement : Except Exn Unit → List (Option Exn)
  | .ok () => [none]
  | .error .cancelled => []
  | .error e => [some e]

theorem updates_of_ne {id : ℕ} {e : Entry Op Ans Exn World Task} (log : Log) (h : e.caller ≠ .onTaskDone id) :
    updates id (e :: log) = updates id log := by
  obtain ⟨caller, op, r, before⟩ := e
  cases caller with
  | onTaskDone other =>
    have hne : other ≠ id := fun he => h (congrArg Task.onTaskDone he)
    cases op with
    | send error => rw [updates, if_neg hne]
    | _ => rfl
  | _ => rfl

/-- The callback of a task: not called yet, called with what the task has ended in, or done with the announcement. -/
def Announced (id : ℕ) (c : Loop) : Prop :=
  (c.pool (.onTaskDone id) = none ∧ updates id c.state.log = []) ∨
    ∃ r, c.outcome (.backup id) = some r ∧
      ((c.pool (.onTaskDone id) = some (onTaskDone r) ∧ updates id c.state.log = []) ∨
        (c.finished (.onTaskDone id) = true ∧ updates id c.state.log = announcement r))

/-- A callback that has something to do sends the announcement, and that is all. -/
theorem onTaskDone_await {r : Except Exn Unit} {op : Op} {next : Answer op → Prog Op Ans Exn Unit}
    (h : onTaskDone r = .await op next) : ∃ error, op = .send error ∧ announcement r = [error] ∧
      ∀ answer, (∃ a, next answer = .ret a) ∨ ∃ e, next answer = .raise e := by
  have hsend : ∀ error, awaitOp (.send error) = .await op next → op = .send error ∧
      ∀ answer, (∃ a, next answer = .ret a) ∨ ∃ e, next answer = .raise e := by
    intro error h
    cases h
    refine ⟨rfl, fun answer => ?_⟩
    cases answer with
    | ok a => exact .inl ⟨a, rfl⟩
    | error e => exact .inr ⟨e, rfl⟩
  cases r with
  | ok a => exact ⟨none, (hsend none h).1, rfl, (hsend none h).2⟩
  | error e =>
    cases e with
    | cancelled => cases h
    | _ => exact ⟨_, (hsend _ h).1, rfl, (hsend _ h).2⟩

/-- A callback with nothing to do has nothing to announce. -/
theorem announcement_of_ended {r : Except Exn Unit} (h : ∀ op next, onTaskDone r ≠ .await op next) :
    announcement r = [] := by
  cases r with
  | ok a => exact absurd rfl (h (.send none) _)
  | error e =>
    cases e with
    | cancelled => rfl
    | _ => exact absurd rfl (h (.send (some _)) _)

theorem finished_of_pool {i : Task} (h : c'.pool i = c.pool i) : c'.finished i = c.finished i := by
  rw [Config.finished, Config.finished, h]

theorem Announced.keeps {id : ℕ} (h : Announced id c) (hpool : c'.pool (.onTaskDone id) = c.pool (.onTaskDone id))
    (hlog : updates id c'.state.log = updates id c.state.log)
    (houtcome : ∀ r, c.outcome (.backup id) = some r → c'.outcome (.backup id) = some r) : Announced id c' := by
  obtain ⟨hnone, hupdates⟩ | ⟨r, hr, hstate⟩ := h
  · exact .inl ⟨hpool.trans hnone, hlog.trans hupdates⟩
  · refine .inr ⟨r, houtcome r hr, ?_⟩
    obtain ⟨hcalled, hupdates⟩ | ⟨hdone, hupdates⟩ := hstate
    · exact .inl ⟨hpool.trans hcalled, hlog.trans hupdates⟩
    · exact .inr ⟨(finished_of_pool hpool).trans hdone, hlog.trans hupdates⟩

/-- The step lemma. -/
theorem Announced.step {id : ℕ} (h : Announced id c)
    (hs : TaskStep (Recorded.Act Act C) (create loads settings) c c') : Announced id c' := by
  have houtcome : ∀ r, c.outcome (.backup id) = some r → c'.outcome (.backup id) = some r :=
    fun r hr => hs.outcome hr
  cases hs with
  | @create i p hi hp =>
    by_cases hid : i = .onTaskDone id
    · subst hid
      obtain ⟨-, hupdates⟩ | ⟨r, -, ⟨hcalled, -⟩ | ⟨hdone, -⟩⟩ := h
      · obtain ⟨r, hr, rfl⟩ := Option.map_eq_some_iff.mp hp
        exact .inr ⟨r, houtcome r hr, .inl ⟨Config.setProg_pool_self _ _ _, hupdates⟩⟩
      · rw [hi] at hcalled
        cases hcalled
      · rw [Config.finished, hi] at hdone
        cases hdone
    · exact h.keeps (Config.setProg_pool_ne _ _ (Ne.symm hid)) rfl houtcome
  | @fires _ i op answer hf =>
    obtain ⟨next, s', hp, ⟨-, w', ha, rfl⟩, rfl⟩ := hf
    by_cases hid : i = .onTaskDone id
    · subst hid
      obtain ⟨hnone, -⟩ | ⟨r, hr, ⟨hcalled, hupdates⟩ | ⟨hdone, -⟩⟩ := h
      · rw [hp] at hnone
        cases hnone
      · rw [hp] at hcalled
        obtain ⟨error, rfl, hannounce, hnext⟩ := onTaskDone_await (Option.some.inj hcalled).symm
        refine .inr ⟨r, houtcome r hr, .inr ⟨?_, ?_⟩⟩
        · rw [Config.finished, Config.setProg_pool_self]
          obtain ⟨a, ha⟩ | ⟨e, he⟩ := hnext answer
          · rw [ha]
          · rw [he]
        · rw [hannounce, ← hupdates]
          change updates id (⟨.onTaskDone id, .send error, answer, _⟩ :: c.state.log) = _
          rw [updates, if_pos rfl]
      · rw [Config.finished, hp] at hdone
        cases hdone
    · exact h.keeps (Config.setProg_pool_ne _ _ (Ne.symm hid)) (updates_of_ne _ hid) houtcome

theorem announced_of_run (h : Runs loads settings C w c) (id : ℕ) : Announced id c := by
  have hall : ∀ id, Announced id c := by
    induction h with
    | refl => exact fun id => .inl ⟨rfl, rfl⟩
    | tail _ hs ih => exact fun id => (ih id).step hs
  exact hall id

/-! ## Reports of announced backups -/

/-- The task has inserted a report, and it is in the table. -/
def InsertedBy (i : Task) (s : State) : Prop :=
  ∃ report ∈ s.world.backups, ∃ e ∈ s.log, e.caller = i ∧ e.op = .insert report

def Stage.hasInserted : Stage → Bool
  | .inside p => p.inserted
  | .left p => p.inserted
  | _ => false

theorem hasInserted_after {l : Stage} {op : Op} {r : Answer op} (h : (l.after op r).hasInserted = true) :
    l.hasInserted = true ∨ ∃ report a, op = .insert report ∧ r = .ok a := by
  cases op with
  | insert report =>
    cases r with
    | ok a => exact .inr ⟨report, a, rfl, rfl⟩
    | error e => cases l <;> exact .inl h
  | acquire =>
    cases r with
    | ok _ => cases h
    | error e => cases l <;> exact .inl h
  | release => cases l <;> exact .inl h
  | locked =>
    cases r with
    | ok locked => cases locked <;> cases l <;> first | exact .inl h | cases h
    | error e => cases l <;> exact .inl h
  | now | writeDbSnapshot | isDir _ | communicate _ => cases l <;> cases r <;> exact .inl h
  | _ => cases l <;> exact .inl h

theorem InsertedBy.next {i j : Task} {op : Op} {r : Answer op} (h : InsertedBy i s) (ha : Act j s.world op r w') :
    InsertedBy i (s.next j op r w') := by
  obtain ⟨report, hmem, e, he, hby⟩ := h
  refine ⟨report, ?_, e, List.mem_cons_of_mem _ he, hby⟩
  rw [Recorded.next_world]
  obtain hsame | ⟨report', -, hnew⟩ := ha.backups
  · rw [hsame]
    exact hmem
  · rw [hnew]
    exact List.mem_cons_of_mem _ hmem

theorem insertedBy_of_run (h : Runs loads settings C w c) (i : Task)
    (hi : (stageOf loads settings i c.state.log).hasInserted = true) : InsertedBy i c.state := by
  have hinv : ∀ i, (stageOf loads settings i c.state.log).hasInserted = true → InsertedBy i c.state := by
    refine Recorded.TaskRuns.invariant
      (I := fun s => ∀ i, (stageOf loads settings i s.log).hasInserted = true → InsertedBy i s) conforms_create
      (fun i hi => by cases hi) ?_ h
    rintro j s op r w' - hs - ha i hi
    by_cases hij : i = j
    · subst hij
      rw [stageOf_next_self] at hi
      obtain hbefore | ⟨report, a, rfl, rfl⟩ := hasInserted_after hi
      · exact (hs i hbefore).next ha
      · refine ⟨report, ?_, _, List.mem_cons_self, rfl, rfl⟩
        rw [Recorded.next_world, show w' = { s.world with backups := report :: s.world.backups } from ha.effect]
        exact List.mem_cons_self
    · rw [stageOf_next_ne _ _ _ _ hij] at hi
      exact (hs i hi).next ha
  exact hinv i hi

/-! ## Main result -/

/-- At any time the callback of a task has announced nothing, or what the task has ended in; when it is done, it has
announced that. And what was announced without an exception has inserted its report. -/
theorem backup_updates (h : Runs loads settings C w c) (id : ℕ) :
    (updates id c.state.log = [] ∨ ∃ r, c.outcome (.backup id) = some r ∧ updates id c.state.log = announcement r) ∧
    (c.finished (.onTaskDone id) = true →
      ∃ r, c.outcome (.backup id) = some r ∧ updates id c.state.log = announcement r) ∧
    (none ∈ updates id c.state.log → InsertedBy (.backup id) c.state) := by
  have hann := announced_of_run h id
  have hsent : updates id c.state.log = [] ∨
      ∃ r, c.outcome (.backup id) = some r ∧ updates id c.state.log = announcement r := by
    obtain ⟨-, hupdates⟩ | ⟨r, hr, ⟨-, hupdates⟩ | ⟨-, hupdates⟩⟩ := hann
    · exact .inl hupdates
    · exact .inl hupdates
    · exact .inr ⟨r, hr, hupdates⟩
  refine ⟨hsent, fun hdone => ?_, fun hnone => ?_⟩
  · obtain ⟨hpool, -⟩ | ⟨r, hr, ⟨hcalled, hupdates⟩ | ⟨-, hupdates⟩⟩ := hann
    · rw [Config.finished, hpool] at hdone
      cases hdone
    · refine ⟨r, hr, hupdates.trans (announcement_of_ended fun op next he => ?_).symm⟩
      rw [Config.finished, hcalled, he] at hdone
      cases hdone
    · exact ⟨r, hr, hupdates⟩
  · obtain hnil | ⟨r, hr, hupdates⟩ := hsent
    · rw [hnil] at hnone
      cases hnone
    · have hok : r = .ok () := by
        rw [hupdates] at hnone
        cases r with
        | ok a => rfl
        | error e => cases e <;> simp [announcement] at hnone
      subst hok
      obtain ⟨p, hp, hinserted⟩ := (h.post conforms_create hr).2 rfl
      refine insertedBy_of_run h _ ?_
      rw [show stageOf loads settings (.backup id) c.state.log = .left p from hp]
      exact hinserted

/-- One backup that is announced as done, and one that is announced as failed since the other one is in progress. -/
theorem backup_updates_run : ∃ c, Runs Script.emptyStats Script.dataOnly Recorded.anyway {} c ∧
    updates 0 c.state.log = [none] ∧ updates 1 c.state.log = [some .backupInProgress] ∧
    InsertedBy (.backup 0) c.state := by
  obtain ⟨c, hrun, hc⟩ := exists_run Script.emptyStats Script.dataOnly Recorded.anyway {}
    (Script.starts 0 ++ Script.starts 1 ++ Script.copies 0 1 ++ Turn.call (Task.backup 1) [Choice.proceed] ++
      Turn.call (Task.onTaskDone 1) [Choice.proceed] ++ Script.reports 0 2 ++ Turn.call (Task.onTaskDone 0) [Choice.proceed])
    (fun c => updates 0 c.state.log == [none] && updates 1 c.state.log == [some .backupInProgress])
    (by decide +kernel)
  rw [Bool.and_eq_true, beq_iff_eq, beq_iff_eq] at hc
  refine ⟨c, hrun, hc.1, hc.2, (backup_updates hrun 0).2.2 ?_⟩
  rw [hc.1]
  exact List.mem_cons_self

end Freeshard.Backup

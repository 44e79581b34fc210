import Freeshard.Service.BackupPassphrase

/-! # One passphrase for all backups

Once there is a passphrase it does not change any more, however often the shard is started or stopped half-way: all
backups are encrypted with it, and it is the one that is shown. And it is shown to nobody before the access is on
record. -/

namespace Freeshard.BackupPassphrase
open Coroutine
set_option autoImplicit false

/-! ## What a task has done -/

inductive Phase where
  | idle
  /-- It has found no passphrase. -/
  | absent
  | read (passphrase : String)
  /-- It has read the passphrase and recorded its access. -/
  | recorded (passphrase : String) (info : LastAccessInfo)
  deriving DecidableEq, Repr

def Phase.after (l : Phase) (op : Op) (r : Answer op) : Phase :=
  match op, r with
  | .getValue, .ok passphrase => .read passphrase
  | .getValue, .error (.keyError _) => .absent
  | .setLastAccess info, .ok _ =>
    match l with
    | .read passphrase => .recorded passphrase info
    | l => l
  | .setValue _, _ => .idle
  | _, _ => l

/-- Only the startup stores a passphrase, when it has found none; only accesses are recorded, and a passphrase is shown
after that. -/
def taskProtocol (i : Task) : Protocol Op Ans Exn Phase where
  allows l op :=
    match op with
    | .setValue _ => i = .ensure ∧ l = .absent
    | .setLastAccess info => (∃ id, i = .access id (some info.terminalId)) ∧ info.terminalId ≠ "" ∧
        ∃ passphrase, l = .read passphrase
    | .obscure passphrase => l = .read passphrase
    | .respond passphrase => ∃ info, l = .recorded passphrase info
    | _ => True
  after := Phase.after

abbrev Conforms {α : Type} (i : Task) (p : Coro α) (l : Phase) (Q : Except Exn α → Phase → Prop) : Prop :=
  p.Conforms (taskProtocol i) l Q

theorem conforms_hasPassphrase {i : Task} :
    Conforms i hasPassphrase .idle fun r l => r = .ok false → l = .absent := by
  have htry : Conforms i (do let _ ← awaitOp .getValue; return true) .idle fun r l =>
      r ≠ .ok false ∧ ∀ key, r = .error (.keyError key) → l = .absent := by
    refine Prog.Conforms.perform_bind trivial (fun passphrase => ?_) fun e => ?_
    · exact ⟨fun h => (by cases h), fun key h => by cases h⟩
    · refine ⟨fun h => (by cases h), fun key h => ?_⟩
      cases h
      rfl
  refine htry.tryCatch (fun found l hl hr => absurd hr hl.1) fun e l hl => ?_
  cases e with
  | keyError key => exact fun _ => hl.2 key rfl
  | _ => exact fun h => by cases h

theorem conforms_ensureBackupPassphrase (file : List String) :
    Conforms .ensure (ensureBackupPassphrase file) .idle fun _ _ => True := by
  refine conforms_hasPassphrase.bind (fun found l hl => ?_) fun _ _ _ => trivial
  cases found with
  | true => trivial
  | false =>
    obtain rfl := hl rfl
    refine Prog.Conforms.perform_bind trivial (fun numbers => ?_) fun _ => trivial
    cases Passphrase.getPassphrase file numbers with
    | error e => trivial
    | ok passphrase => exact Prog.Conforms.perform ⟨rfl, rfl⟩ fun _ => trivial

theorem conforms_showBackupPassphrase (id : ℕ) (xPtlClientId : Option String) :
    Conforms (.access id xPtlClientId) (showBackupPassphrase xPtlClientId) .idle fun _ _ => True := by
  unfold showBackupPassphrase
  split
  · trivial
  · trivial
  · next terminalId hne =>
    have hshown : Conforms (.access id (some terminalId)) (getBackupPassphrase terminalId) .idle fun r l =>
        ∀ passphrase, r = .ok passphrase → ∃ info, l = .recorded passphrase info := by
      refine Prog.Conforms.perform_bind trivial (fun passphrase => ?_) fun e _ h => by cases h
      refine Prog.Conforms.perform_bind trivial (fun time => ?_) fun e _ h => by cases h
      refine Prog.Conforms.perform_bind ⟨⟨id, rfl⟩, hne, passphrase, rfl⟩ (fun _ => ?_) fun e _ h => by cases h
      rintro _ ⟨⟩
      exact ⟨_, rfl⟩
    refine hshown.bind (fun passphrase l hl => ?_) fun _ _ _ => trivial
    exact Prog.Conforms.perform (hl passphrase rfl) fun _ => trivial

theorem conforms_program (file : List String) (i : Task) :
    Conforms i (i.program file) .idle fun _ _ => True := by
  cases i with
  | ensure => exact conforms_ensureBackupPassphrase file
  | access id xPtlClientId => exact conforms_showBackupPassphrase id xPtlClientId
  | backup id =>
    refine Prog.Conforms.perform_bind trivial (fun passphrase => ?_) fun _ => trivial
    exact Prog.Conforms.perform_bind rfl (fun _ => trivial) fun _ => trivial

/-! ## What an operation leaves -/

variable {w w' : World} {s : State} {i j : Task} {op : Op} {r : Answer op}

/-- The passphrase after an operation. -/
theorem Act.passphrase (h : Act i w op r w') :
    w'.passphrase = w.passphrase ∨ ∃ passphrase, op = .setValue passphrase ∧ w'.passphrase = some passphrase := by
  obtain ⟨choice, h⟩ := h
  cases choice with
  | proceed =>
    cases op with
    | getValue =>
      simp only [World.exec] at h
      split at h <;> cases h <;> exact .inl rfl
    | setValue passphrase =>
      cases h
      exact .inr ⟨passphrase, rfl, rfl⟩
    | setLastAccess info | respond passphrase =>
      cases h
      exact .inl rfl
    | choose | now | obscure passphrase => cases h
  | dice choice | clock time | obscured text =>
    cases op <;> cases h
    exact .inl rfl
  | raise e =>
    simp only [World.exec] at h
    split at h
    · cases h
      exact .inl rfl
    · cases h
  | proceedRaise e =>
    cases op with
    | setValue passphrase =>
      simp only [World.exec] at h
      split at h
      · cases h
        exact .inr ⟨passphrase, rfl, rfl⟩
      · cases h
    | setLastAccess info =>
      simp only [World.exec] at h
      split at h
      · cases h
        exact .inl rfl
      · cases h
    | getValue | choose | now | obscure passphrase | respond passphrase => cases h

/-- What is read is stored. -/
theorem Act.getValue {r : Answer .getValue} (h : Act i w .getValue r w') :
    (∀ passphrase, r = .ok passphrase → w.passphrase = some passphrase) ∧
      ∀ key, r = .error (.keyError key) → w.passphrase = none := by
  obtain ⟨choice, h⟩ := h
  cases choice with
  | proceed =>
    simp only [World.exec] at h
    split at h
    · next passphrase hstored =>
      cases h
      exact ⟨fun _ h => Except.ok.inj h ▸ hstored, fun _ h => by cases h⟩
    · next hnone =>
      cases h
      exact ⟨fun _ h => (by cases h), fun _ _ => hnone⟩
  | raise e =>
    simp only [World.exec] at h
    split at h
    · next hforeign =>
      cases h
      refine ⟨fun _ h => (by cases h), fun key h => ?_⟩
      cases h
      cases hforeign
    · cases h
  | dice choice | clock time | obscured text | proceedRaise e => cases h

/-- The last access after an operation. -/
theorem Act.lastAccess (h : Act i w op r w') :
    (w'.lastAccess = w.lastAccess ∧ ∀ info, op = .setLastAccess info → r.isOk = false) ∨
      ∃ info, op = .setLastAccess info ∧ w'.lastAccess = some info := by
  obtain ⟨choice, h⟩ := h
  cases choice with
  | proceed =>
    cases op with
    | getValue =>
      simp only [World.exec] at h
      split at h <;> cases h <;> exact .inl ⟨rfl, fun _ hop => by cases hop⟩
    | setLastAccess info =>
      cases h
      exact .inr ⟨info, rfl, rfl⟩
    | setValue passphrase | respond passphrase =>
      cases h
      exact .inl ⟨rfl, fun _ hop => by cases hop⟩
    | choose | now | obscure passphrase => cases h
  | dice choice | clock time | obscured text =>
    cases op <;> cases h
    exact .inl ⟨rfl, fun _ hop => by cases hop⟩
  | raise e =>
    simp only [World.exec] at h
    split at h
    · cases h
      exact .inl ⟨rfl, fun _ _ => rfl⟩
    · cases h
  | proceedRaise e =>
    cases op with
    | setLastAccess info =>
      simp only [World.exec] at h
      split at h
      · cases h
        exact .inr ⟨info, rfl, rfl⟩
      · cases h
    | setValue passphrase =>
      simp only [World.exec] at h
      split at h
      · cases h
        exact .inl ⟨rfl, fun _ hop => by cases hop⟩
      · cases h
    | getValue | choose | now | obscure passphrase | respond passphrase => cases h

/-! ## One passphrase -/

abbrev phaseOf (i : Task) (log : Log) : Phase := Recorded.phaseOf taskProtocol (fun _ => .idle) i log

/-- The passphrase with which a backup is encrypted, or which is shown. -/
def Op.uses : Op → Option String
  | .obscure passphrase => some passphrase
  | .respond passphrase => some passphrase
  | _ => none

/-- What a task in this phase knows of the stored passphrase. -/
def Knows (i : Task) (stored : Option String) : Phase → Prop
  | .idle => True
  | .absent => i = .ensure → stored = none
  | .read passphrase => stored = some passphrase
  | .recorded passphrase _ => stored = some passphrase

structure Stable (w : World) (s : State) : Prop where
  kept : ∀ passphrase, w.passphrase = some passphrase → s.world.passphrase = some passphrase
  used : ∀ e ∈ s.log, ∀ passphrase, e.op.uses = some passphrase → s.world.passphrase = some passphrase
  knows : ∀ i, Knows i s.world.passphrase (phaseOf i s.log)

theorem Knows.of_none {l : Phase} (h : Knows i none l) : l = .idle ∨ l = .absent := by
  cases l with
  | idle => exact .inl rfl
  | absent => exact .inr rfl
  | read passphrase | recorded passphrase info => cases h

/-- What the performing task knows afterwards, if the passphrase has stayed. -/
theorem Knows.after {l : Phase} (h : Knows i w.passphrase l) (ha : Act i w op r w')
    (hsame : w'.passphrase = w.passphrase) : Knows i w'.passphrase (l.after op r) := by
  rw [hsame]
  cases op with
  | getValue =>
    obtain ⟨hok, hkey⟩ := ha.getValue
    cases r with
    | ok passphrase => exact hok passphrase rfl
    | error e =>
      cases e with
      | keyError key => exact fun _ => hkey key rfl
      | _ => exact h
  | setLastAccess info =>
    cases r with
    | ok _ => cases l <;> exact h
    | error e => exact h
  | setValue passphrase => exact trivial
  | _ => exact h

/-- The step lemma. -/
theorem Stable.step (h : Stable w s) (hallowed : (taskProtocol i).allows (phaseOf i s.log) op)
    (ha : Act i s.world op r w') : Stable w (s.next i op r w') := by
  obtain hsame | ⟨new, rfl, hnew⟩ := ha.passphrase
  · refine ⟨fun passphrase hp => ?_, ?_, fun j => ?_⟩
    · rw [Recorded.next_world, hsame]
      exact h.kept passphrase hp
    · rw [Recorded.next_log, Recorded.next_world, hsame]
      refine List.forall_mem_cons.mpr ⟨fun passphrase huses => ?_, h.used⟩
      have hknows := h.knows i
      cases op with
      | obscure passphrase' =>
        obtain rfl : passphrase' = passphrase := Option.some.inj huses
        rw [show phaseOf i s.log = .read passphrase' from hallowed] at hknows
        exact hknows
      | respond passphrase' =>
        obtain rfl : passphrase' = passphrase := Option.some.inj huses
        obtain ⟨info, hphase⟩ : ∃ info, phaseOf i s.log = .recorded passphrase' info := hallowed
        rw [hphase] at hknows
        exact hknows
      | _ => cases huses
    · by_cases hj : j = i
      · subst hj
        rw [phaseOf, Recorded.phaseOf_next_self]
        exact (h.knows j).after ha hsame
      · rw [phaseOf, Recorded.phaseOf_next_ne _ _ _ _ hj, Recorded.next_world, hsame]
        exact h.knows j
  · -- the startup stores a passphrase that nobody has seen
    obtain ⟨rfl, habsent⟩ : i = .ensure ∧ phaseOf i s.log = .absent := hallowed
    have hnone : s.world.passphrase = none := by
      have hknows := h.knows .ensure
      rw [habsent] at hknows
      exact hknows rfl
    refine ⟨fun passphrase hp => ?_, ?_, fun j => ?_⟩
    · have hkept := h.kept passphrase hp
      rw [hnone] at hkept
      cases hkept
    · rw [Recorded.next_log]
      refine List.forall_mem_cons.mpr ⟨fun passphrase huses => (by cases huses), fun e he passphrase huses => ?_⟩
      have hused := h.used e he passphrase huses
      rw [hnone] at hused
      cases hused
    · by_cases hj : j = .ensure
      · subst hj
        rw [phaseOf, Recorded.phaseOf_next_self]
        cases r <;> trivial
      · rw [phaseOf, Recorded.phaseOf_next_ne _ _ _ _ hj]
        have hknows := h.knows j
        rw [hnone] at hknows
        obtain hidle | habsent := hknows.of_none
        · rw [show Recorded.phaseOf _ _ j s.log = _ from hidle]
          trivial
        · rw [show Recorded.phaseOf _ _ j s.log = _ from habsent]
          exact fun heq => absurd heq hj

theorem stable_of_run {file : List String} {c : Config Op Ans Exn State Task} (h : Runs file w c) :
    Stable w c.state := by
  refine Recorded.Runs.invariant (I := Stable w) (conforms_program file) ?_ ?_ h
  · exact ⟨fun _ hp => hp, fun _ he => (by cases he), fun _ => trivial⟩
  · exact fun i s op r w' hallowed hs _ ha => hs.step hallowed ha

/-- Over all lives of a shard: a stored passphrase is never replaced, and the passphrase of every backup and the one that
is shown in any access is the one that is stored. -/
theorem passphrase_stable {log : Log} (h : Lives w log w') :
    (∀ passphrase, w.passphrase = some passphrase → w'.passphrase = some passphrase) ∧
    ∀ e ∈ log, ∀ passphrase, e.op.uses = some passphrase → w'.passphrase = some passphrase := by
  induction h with
  | new => exact ⟨fun _ hp => hp, fun _ he => by cases he⟩
  | life _ hrun ih =>
    have hstable := stable_of_run hrun
    refine ⟨fun passphrase hp => hstable.kept passphrase (ih.1 passphrase hp), fun e he passphrase huses => ?_⟩
    obtain hmem | hmem := List.mem_append.mp he
    · exact hstable.used e hmem passphrase huses
    · exact hstable.kept passphrase (ih.2 e hmem passphrase huses)

/-! ## Accesses are on record -/

/-- The task has recorded the access, after which only other accesses have been recorded. -/
def RecordedBy (i : Task) (info : LastAccessInfo) (lastAccess : Option LastAccessInfo) (log : Log) : Prop :=
  ∃ newer before older last, log = newer ++ ⟨i, .setLastAccess info, .ok (), before⟩ :: older ∧
    lastAccess = some last ∧ (last = info ∨ ∃ e ∈ newer, e.op = .setLastAccess last)

theorem RecordedBy.next {info : LastAccessInfo} (h : RecordedBy j info s.world.lastAccess s.log)
    (ha : Act i s.world op r w') : RecordedBy j info w'.lastAccess (s.next i op r w').log := by
  obtain ⟨newer, before, older, last, hlog, hlast, hwhich⟩ := h
  have hlog' : (s.next i op r w').log =
      (⟨i, op, r, s.world⟩ :: newer) ++ ⟨j, .setLastAccess info, .ok (), before⟩ :: older := by
    rw [Recorded.next_log, hlog]
    rfl
  obtain ⟨hsame, -⟩ | ⟨new, rfl, hnew⟩ := ha.lastAccess
  · refine ⟨_, before, older, last, hlog', hsame.trans hlast, ?_⟩
    exact hwhich.imp id fun ⟨e, he, hop⟩ => ⟨e, List.mem_cons_of_mem _ he, hop⟩
  · exact ⟨_, before, older, new, hlog', hnew, .inr ⟨_, List.mem_cons_self, rfl⟩⟩

/-- A passphrase has been shown only after the access to it was recorded, for the terminal it is shown to. -/
def Shown (e : Entry Op Ans Exn World Task) (log : Log) : Prop :=
  ∀ passphrase, e.op = .respond passphrase → ∃ id info, e.caller = .access id (some info.terminalId) ∧
    info.terminalId ≠ "" ∧ RecordedBy e.caller info e.before.lastAccess log

structure Audited (s : State) : Prop where
  recorded : ∀ i passphrase info, phaseOf i s.log = .recorded passphrase info →
    (∃ id, i = .access id (some info.terminalId)) ∧ info.terminalId ≠ "" ∧
      RecordedBy i info s.world.lastAccess s.log
  shown : Recorded.Throughout Shown s.log

/-- The step lemma. -/
theorem Audited.step (h : Audited s) (hallowed : (taskProtocol i).allows (phaseOf i s.log) op)
    (ha : Act i s.world op r w') : Audited (s.next i op r w') := by
  refine ⟨fun j passphrase info hphase => ?_, ⟨fun passphrase hop => ?_, h.shown⟩⟩
  · have hkeep : phaseOf j s.log = .recorded passphrase info →
        (∃ id, j = .access id (some info.terminalId)) ∧ info.terminalId ≠ "" ∧
          RecordedBy j info w'.lastAccess (s.next i op r w').log := by
      intro hbefore
      obtain ⟨hj, hne, hrecorded⟩ := h.recorded j passphrase info hbefore
      exact ⟨hj, hne, hrecorded.next ha⟩
    by_cases hj : j = i
    · subst hj
      rw [phaseOf, Recorded.phaseOf_next_self] at hphase
      change (phaseOf j s.log).after op r = _ at hphase
      cases op with
      | setLastAccess info' =>
        obtain ⟨haccess, hne, passphrase', hread⟩ := hallowed
        cases r with
        | error e => exact hkeep hphase
        | ok u =>
          rw [hread] at hphase
          obtain ⟨rfl, rfl⟩ := Phase.recorded.inj hphase
          obtain ⟨-, hfailed⟩ | ⟨new, hop, hnew⟩ := ha.lastAccess
          · cases hfailed info' rfl
          · obtain rfl := Op.setLastAccess.inj hop
            exact ⟨haccess, hne, [], s.world, s.log, info', rfl, hnew, .inl rfl⟩
      | getValue =>
        cases r with
        | ok passphrase' => cases hphase
        | error e =>
          cases e with
          | keyError key => cases hphase
          | _ => exact hkeep hphase
      | setValue passphrase' => cases r <;> cases hphase
      | choose | now | obscure passphrase' | respond passphrase' => cases r <;> exact hkeep hphase
    · rw [phaseOf, Recorded.phaseOf_next_ne _ _ _ _ hj] at hphase
      exact hkeep hphase
  · obtain rfl : op = .respond passphrase := hop
    obtain ⟨info, hphase⟩ : ∃ info, phaseOf i s.log = .recorded passphrase info := hallowed
    obtain ⟨⟨id, hi⟩, hne, hrecorded⟩ := h.recorded i passphrase info hphase
    exact ⟨id, info, hi, hne, hrecorded⟩

/-- Whenever a passphrase is shown, the access to it by the same terminal has been recorded before, and what is on record
as the last access is that one or one that has been recorded after it. -/
theorem passphrase_access_recorded {file : List String} {c : Config Op Ans Exn State Task} (h : Runs file w c)
    {later earlier : Log} {e : Entry Op Ans Exn World Task} (hlog : c.state.log = later ++ e :: earlier) :
    Shown e earlier := by
  have haudited : Audited c.state := by
    refine Recorded.Runs.invariant (I := Audited) (conforms_program file) ?_ ?_ h
    · exact ⟨fun i passphrase info hphase => (by cases hphase), trivial⟩
    · exact fun i s op r w' hallowed hs _ ha => hs.step hallowed ha
  have hshown := haudited.shown
  rw [hlog] at hshown
  exact hshown.of_append

/-! ## Two runs -/

/-- A passphrase is made, a backup is encrypted with it, and the owner is shown it. -/
def firstLife : List (Turn Task Choice) :=
  Turn.call Task.ensure [Choice.proceed, .dice fun _ _ => '1', .proceed] ++
  Turn.call (Task.backup 0) [Choice.proceed, .obscured "obscured"] ++
  Turn.call (Task.access 0 (some "terminal")) [Choice.proceed, .clock 7, .proceed, .proceed]

theorem passphrase_stable_run : ∃ log w, Lives {} log w ∧
    w.passphrase = some (" ".intercalate (List.replicate 10 "abacus")) ∧
    ∀ e ∈ log, ∀ passphrase, e.op.uses = some passphrase → w.passphrase = some passphrase := by
  obtain ⟨c, hrun, hF⟩ := exists_run (Passphrase.abacus.map Passphrase.Entry.line) {} firstLife
    (fun c => c.state.world.passphrase == some (" ".intercalate (List.replicate 10 "abacus"))) (by decide +kernel)
  have hlives : Lives {} (c.state.log ++ []) c.state.world := .life .new hrun
  exact ⟨_, _, hlives, by simpa using hF, (passphrase_stable hlives).2⟩

/-- The passphrase has just been shown. -/
def showsLast : Log → Bool
  | ⟨_, .respond _, _, _⟩ :: _ => true
  | _ => false

theorem passphrase_access_recorded_run : ∃ c e earlier passphrase,
    Runs (Passphrase.abacus.map Passphrase.Entry.line) {} c ∧ c.state.log = e :: earlier ∧
    e.op = .respond passphrase ∧ Shown e earlier := by
  obtain ⟨c, hrun, hF⟩ := exists_run (Passphrase.abacus.map Passphrase.Entry.line) {} firstLife
    (fun c => showsLast c.state.log) (by decide +kernel)
  unfold showsLast at hF
  split at hF
  · next i passphrase r before earlier hlog =>
    have hsplit : c.state.log = [] ++ ⟨i, .respond passphrase, r, before⟩ :: earlier := hlog
    exact ⟨c, _, earlier, passphrase, hrun, hlog, rfl, passphrase_access_recorded hrun hsplit⟩
  · cases hF

end Freeshard.BackupPassphrase

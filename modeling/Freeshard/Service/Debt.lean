import Freeshard.Service.Protocol

/-! # What a lifecycle call owes the row

`start_app`, `docker_pause_app` and `docker_stop_app` read the status of the app, command its containers and
store the status for what they did. From the command to the store the call owes the row that status, and
so does a `start_app` that found the containers running under another status. Each call commands the
containers only before it owes, and does nothing but pay from then on, unless an operation fails. -/

namespace Freeshard
open Coroutine
set_option autoImplicit false

/-! ## Debts -/

inductive Debt where
  /-- Nothing begun, or nothing left to do. -/
  | idle
  /-- `start_app` holds the op lock, and has not read the status yet or has stored its own. -/
  | holding
  | read (status : Option Status)
  /-- `start_app` has listed the containers. -/
  | listed (status : Option Status) (ids : List ℕ)
  /-- `docker_stop_app` has unfrozen the containers and not stopped them. -/
  | thawed
  /-- The containers are what this status says, and the call has not stored it. -/
  | owes (status : Status)
  /-- An operation has failed that left a debt behind. -/
  | failed
  deriving DecidableEq, Repr

/-- Docker reports a stale network or stale containers. -/
def Exn.stale : Exn → Bool
  | .subprocessError text => staleNetwork text || staleContainers text
  | _ => false

namespace Debt

/-- Something is owed: the row and the containers may disagree. -/
def due : Debt → Bool
  | .thawed => true
  | .owes _ => true
  | _ => false

def afterStart (l : Debt) (op : Op) (r : Answer op) : Debt :=
  match l, op, r with
  | .failed, _, _ => .failed
  | .idle, .acquire _, .ok _ => .holding
  | .holding, .getByName _, .ok row => .read (row.map (·.status))
  | .read status, .composePs _ _, .ok ids => .listed status ids
  | .listed status ids, .inspect _ _, .ok states =>
    if containerState states = .running ∧ status ≠ some .running then .owes .running
    else .listed status ids
  | .read _, .compose _ _, .ok _ => .owes .running
  | .listed _ _, .compose _ _, .ok _ => .owes .running
  | l, .compose _ _, .error e => if e.stale then .failed else l
  | .owes _, .updateStatus _ _, .ok _ => .holding
  | .owes _, _, .error _ => .failed
  | _, .release _, _ => .idle
  | l, _, _ => l

/-- Pausing and stopping. -/
def afterDemotion (l : Debt) (op : Op) (r : Answer op) : Debt :=
  match l, op, r with
  | .failed, _, _ => .failed
  | .idle, .getByName _, .ok row => .read (row.map (·.status))
  | .read _, .compose _ .pause, .ok _ => .owes .paused
  | .read _, .compose _ .unpause, .ok _ => .thawed
  | .read _, .compose _ .stop, .ok _ => .owes .stopped
  | .thawed, .compose _ .stop, .ok _ => .owes .stopped
  | .thawed, _, .error _ => .failed
  | .owes _, .updateStatus _ _, .ok _ => .idle
  | .owes _, _, .error _ => .failed
  | l, _, _ => l

/-- Only the calls that move an app between running, paused and stopped are followed. -/
def after (role : Role) (l : Debt) (op : Op) (r : Answer op) : Debt :=
  match role with
  | .startApp => l.afterStart op r
  | .pauseApp => l.afterDemotion op r
  | .stopApp => l.afterDemotion op r
  | _ => .idle

/-- The containers have been listed or not. -/
def Pending (status : Option Status) (l : Debt) : Prop :=
  l = .read status ∨ ∃ ids, l = .listed status ids

def StartAllows (name : String) : Debt → Op → Prop
  | .idle, op => op = .throttle name ∨ op = .acquire name
  | .holding, op => op = .getByName name ∨ op = .onAppsUpdate ∨ op = .release name
  | .read status, op => op = .release name ∨ (status ≠ none ∧
      (op = .composePs name true ∨ op = .compose name .up ∨ op = .compose name .unpause))
  | .listed status ids, op => op = .release name ∨ (status ≠ none ∧
      (op = .inspect name ids ∨ op = .compose name .up ∨ op = .compose name .unpause))
  | .thawed, _ => False
  | .owes status, op => op = .updateStatus name status
  | .failed, _ => True

def PauseAllows (name : String) : Debt → Op → Prop
  | .idle, op => op = .getByName name ∨ op = .onAppsUpdate
  | .read status, op => status ≠ none ∧ op = .compose name .pause
  | .owes status, op =>
    op = .composePs name false ∨ (∃ id, op = .reclaimContainer id) ∨ op = .updateStatus name status
  | .failed, _ => True
  | _, _ => False

def StopAllows (name : String) : Debt → Op → Prop
  | .idle, op => op = .getByName name ∨ op = .onAppsUpdate
  | .read status, op => status ∈ stoppableStatus.map some ∧
      (op = .compose name .unpause ∨ op = .compose name .stop)
  | .thawed, op => op = .compose name .stop
  | .owes status, op => op = .updateStatus name status
  | .failed, _ => True
  | _, _ => False

end Debt

def debt (name : String) (role : Role) : Protocol Op Ans Exn Debt where
  allows l op := match role with
    | .startApp => l.StartAllows name op
    | .pauseApp => l.PauseAllows name op
    | .stopApp => l.StopAllows name op
    | _ => True
  after := Debt.after role

/-- The debt of call `i` after the events of a log. -/
def debtOf (i : Call) : List Event → Debt
  | [] => .idle
  | e :: log =>
    if e.call = i then (debtOf i log).after i.role e.op e.answer else debtOf i log

abbrev State.debt (i : Call) (s : State) : Debt := debtOf i s.log

theorem debt_tracks (E : Env) (name : String) :
    Protocol.Tracks (fun i => debt name (Call.role i)) (Act E) State.debt where
  own := by
    intro i s op r s' ha
    rw [State.debt, ha.log, debtOf, if_pos rfl]
    rfl
  other := by
    intro i j s op r s' ha hij
    rw [State.debt, ha.log, debtOf, if_neg (Ne.symm hij)]

/-! ## The calls conform -/

section Conform
variable {name : String} {status : Option Status} {l : Debt}

abbrev Pays {α : Type} (name : String) (role : Role) (p : Coro α) (l : Debt)
    (Q : Except Exn α → Debt → Prop) : Prop :=
  p.Conforms (debt name role) l Q

/-- The calls that move an app between running, paused and stopped. -/
def revivingRoles : List Role := [.startApp, .pauseApp, .stopApp]

theorem pays_failed {α : Type} {role : Role} (hrole : role ∈ revivingRoles) (p : Coro α) :
    Pays name role p .failed fun _ l => l = .failed := by
  have hstep : ∀ op (r : Answer op), (debt name role).allows .failed op ∧
      (debt name role).after .failed op r = .failed := by
    intro op r
    simp only [revivingRoles, List.mem_cons, List.not_mem_nil, or_false] at hrole
    obtain rfl | rfl | rfl := hrole
    · exact ⟨trivial, rfl⟩
    · exact ⟨trivial, rfl⟩
    · exact ⟨trivial, rfl⟩
  induction p with
  | ret a => exact rfl
  | raise e => exact rfl
  | await op next ih =>
    refine ⟨(hstep op (.error .cancelled)).1, fun r => ?_⟩
    rw [(hstep op r).2]
    exact ih r

/-- The call has read the status, or is where it was. -/
def HasRead (l₀ : Debt) (r : Except Exn (Option Status)) (l : Debt) : Prop :=
  (∀ status, r = .ok status → l = .read status) ∧ (r.isOk = false → l = l₀)

theorem pays_readStatus {role : Role} (hop : (debt name role).allows l (.getByName name))
    (hok : ∀ row, (debt name role).after l (.getByName name) (.ok row) = .read (row.map (·.status)))
    (herror : ∀ e, (debt name role).after l (.getByName name) (.error e) = l) :
    Pays name role (readStatus name) l (HasRead l) := by
  have hget : Pays name role (getByName name) l fun r l' =>
      (∀ row, r = .ok row → l' = .read (row.map (·.status))) ∧ (r.isOk = false → l' = l) := by
    refine Prog.Conforms.perform hop fun r => ?_
    cases r with
    | ok row =>
      refine ⟨?_, nofun⟩
      rintro _ ⟨⟩
      exact hok row
    | error e => exact ⟨nofun, fun _ => herror e⟩
  refine hget.bind (fun row l' h => ⟨?_, nofun⟩) fun e l' h => ⟨nofun, fun _ => h.2 rfl⟩
  rintro _ ⟨⟩
  exact h.1 row rfl

/-! Starting. -/

/-- A command has brought the containers up, or Docker has refused it, or more has gone wrong. -/
def Lifted (status : Option Status) (r : Except Exn Unit) (l : Debt) : Prop :=
  l = .failed ∨ (r = .ok () ∧ l = .owes .running) ∨ (r.isOk = false ∧ l.Pending status)

theorem pays_command {cmd : ComposeCmd} (hstatus : status ≠ none) (hl : l.Pending status)
    (hcmd : cmd = .up ∨ cmd = .unpause) : Pays name .startApp (compose name cmd) l fun r l' =>
      Lifted status r l' ∧ (∀ text, r = .error (.subprocessError text) → l' ≠ .failed →
        staleNetwork text = false ∧ staleContainers text = false) := by
  have hop : l.StartAllows name (.compose name cmd) := by
    obtain rfl | ⟨ids, rfl⟩ := hl <;> obtain rfl | rfl := hcmd
    · exact .inr ⟨hstatus, .inr (.inl rfl)⟩
    · exact .inr ⟨hstatus, .inr (.inr rfl)⟩
    · exact .inr ⟨hstatus, .inr (.inl rfl)⟩
    · exact .inr ⟨hstatus, .inr (.inr rfl)⟩
  refine Prog.Conforms.perform hop fun r => ?_
  cases r with
  | ok u =>
    refine ⟨.inr (.inl ⟨rfl, ?_⟩), nofun⟩
    obtain rfl | ⟨ids, rfl⟩ := hl <;> rfl
  | error e =>
    have hafter : (debt name .startApp).after l (.compose name cmd) (.error e) =
        if e.stale then .failed else l := by
      obtain rfl | ⟨ids, rfl⟩ := hl <;> rfl
    rw [hafter]
    cases hstale : e.stale with
    | true => exact ⟨.inl rfl, fun _ _ hne => absurd rfl hne⟩
    | false =>
      refine ⟨.inr (.inr ⟨rfl, hl⟩), ?_⟩
      rintro text ⟨⟩ -
      exact Bool.or_eq_false_iff.mp hstale

theorem pays_composeUp (hstatus : status ≠ none) (hl : l.Pending status) :
    Pays name .startApp (composeUp name) l (Lifted status) := by
  have hfailed : ∀ p : Coro Unit, Pays name .startApp p .failed (Lifted status) :=
    fun p => (pays_failed (by decide) p).mono fun _ _ h => .inl h
  refine (pays_command hstatus hl (.inl rfl)).tryCatch (fun _ _ h => h.1) fun e l' h => ?_
  by_cases hl' : l' = .failed
  · subst hl'
    exact hfailed _
  · have hraise : Pays name .startApp (throw e : Coro Unit) l' (Lifted status) := by
      obtain h | ⟨hok, -⟩ | h := h.1
      · exact absurd h hl'
      · cases hok
      · exact .inr (.inr h)
    cases e with
    | subprocessError text =>
      obtain ⟨hnetwork, hcontainers⟩ := h.2 text rfl hl'
      dsimp only
      rw [hnetwork, hcontainers]
      exact hraise
    | _ => exact hraise

/-- A `start_app` that has found the containers running under another status owes RUNNING. -/
structure Looked (status : Option Status) (r : Except Exn ContainerState) (l : Debt) : Prop where
  running : r = .ok .running → status ≠ some .running → l = .owes .running
  pending : r ≠ .ok .running ∨ status = some .running → l.Pending status

theorem pays_getAppContainerState (hstatus : status ≠ none) :
    Pays name .startApp (getAppContainerState name) (.read status) (Looked status) := by
  have hmissing : ∀ l, l.Pending status → Looked status (.ok .missing) l :=
    fun l hl => ⟨nofun, fun _ => hl⟩
  have hraised : ∀ e l, l.Pending status → Looked status (.error e) l :=
    fun e l hl => ⟨nofun, fun _ => hl⟩
  have hlist : Pays name .startApp (composePs name true) (.read status) fun r l =>
      (∀ ids, r = .ok ids → l = .listed status ids) ∧ (r.isOk = false → l = .read status) := by
    refine Prog.Conforms.perform (.inr ⟨hstatus, .inl rfl⟩) fun r => ?_
    cases r with
    | ok ids =>
      refine ⟨?_, nofun⟩
      rintro _ ⟨⟩
      rfl
    | error e => exact ⟨nofun, fun _ => rfl⟩
  have hinspect : ∀ ids, Pays name .startApp (do
      let states ← inspect name ids
      pure (containerState states)) (.listed status ids) (Looked status) := by
    intro ids
    have hlook : Pays name .startApp (inspect name ids) (.listed status ids) fun r l =>
        (∀ states, r = .ok states → l = if containerState states = .running ∧
          status ≠ some .running then .owes .running else .listed status ids) ∧
        (r.isOk = false → l = .listed status ids) := by
      refine Prog.Conforms.perform (.inr ⟨hstatus, .inl rfl⟩) fun r => ?_
      cases r with
      | ok states =>
        refine ⟨?_, nofun⟩
        rintro _ ⟨⟩
        rfl
      | error e => exact ⟨nofun, fun _ => rfl⟩
    refine hlook.bind (fun states l h => ?_) fun e l h => hraised e l (.inr ⟨ids, h.2 rfl⟩)
    have hl := h.1 states rfl
    refine ⟨fun hr hne => ?_, fun hr => .inr ⟨ids, ?_⟩⟩
    · rwa [if_pos ⟨Except.ok.inj hr, hne⟩] at hl
    · refine hl.trans (if_neg ?_)
      rintro ⟨hrunning, hne⟩
      obtain hr | hr := hr
      · exact hr (congrArg Except.ok hrunning)
      · exact hne hr
  have hquery : Pays name .startApp (do
      let ids ← composePs name true
      if ids.isEmpty then
        pure .missing
      else do
        let states ← inspect name ids
        pure (containerState states)) (.read status) (Looked status) := by
    refine hlist.bind (fun ids l h => ?_) fun e l h => hraised e l (.inl (h.2 rfl))
    obtain rfl := h.1 ids rfl
    split
    · exact hmissing _ (.inr ⟨ids, rfl⟩)
    · exact hinspect ids
  refine hquery.tryCatch (fun _ _ h => h) fun e l h => ?_
  have hl := h.pending (.inl nofun)
  cases e with
  | subprocessError text => exact hmissing l hl
  | _ => exact hraised _ l hl

/-- Nothing is owed, and the lock is still held. -/
def Debt.Rests (l : Debt) : Prop := l.due = false ∧ l ≠ .idle

theorem Debt.Pending.rests (h : l.Pending status) : l.Rests := by
  obtain rfl | ⟨ids, rfl⟩ := h
  · exact ⟨rfl, nofun⟩
  · exact ⟨rfl, nofun⟩

theorem pays_markRunning : Pays name .startApp (markRunning name) (.owes .running)
    fun _ l => l.Rests := by
  have hwrite : Pays name .startApp (updateStatus name .running) (.owes .running) fun r l =>
      (r.isOk = true → l = .holding) ∧ (r.isOk = false → l = .failed) := by
    refine Prog.Conforms.perform rfl fun r => ?_
    cases r with
    | ok row => exact ⟨fun _ => rfl, nofun⟩
    | error e => exact ⟨nofun, fun _ => rfl⟩
  have hnotify : Pays name .startApp sendOnAppsUpdate .holding fun _ l => l.Rests :=
    Prog.Conforms.perform (.inr (.inl rfl)) fun r => by cases r <;> exact ⟨rfl, nofun⟩
  have hfailed : ∀ l : Debt, l = .failed → l.Rests := by
    rintro _ rfl
    exact ⟨rfl, nofun⟩
  refine Prog.Conforms.bind (R := fun r l =>
    (r.isOk = true → l = .holding) ∧ (r.isOk = false → l = .failed)) ?_ (fun u l h => ?_)
    fun e l h => hfailed l (h.2 rfl)
  · exact hwrite.bind (fun row l h => ⟨fun _ => h.1 rfl, nofun⟩) fun e l h => ⟨nofun, fun _ => h.2 rfl⟩
  · obtain rfl := h.1 rfl
    exact hnotify

theorem pays_lifted {p : Coro Unit} (hp : Pays name .startApp p l (Lifted status)) :
    Pays name .startApp (do
      p
      markRunning name) l fun _ l => l.Rests := by
  refine hp.bind (fun u l' h => ?_) fun e l' h => ?_
  · obtain rfl | ⟨-, rfl⟩ | ⟨hok, -⟩ := h
    · refine (pays_failed (by decide) _).mono fun _ l hl => ?_
      subst hl
      exact ⟨rfl, nofun⟩
    · exact pays_markRunning
    · cases hok
  · obtain rfl | ⟨hok, -⟩ | ⟨-, hl⟩ := h
    · exact ⟨rfl, nofun⟩
    · cases hok
    · exact hl.rests

theorem pays_revive (hstatus : status ≠ none) :
    Pays name .startApp (revive name status) (.read status) fun _ l => l.Rests := by
  refine (pays_getAppContainerState hstatus).bind (fun state l h => ?_) fun e l h =>
    (h.pending (.inl nofun)).rests
  have hup : ∀ l, l.Pending status → Pays name .startApp (do
      composeUp name
      markRunning name) l fun _ l => l.Rests := fun l hl => pays_lifted (pays_composeUp hstatus hl)
  cases state with
  | running =>
    dsimp only
    by_cases hne : status = some .running
    · rw [onlyIf_neg (not_not_intro hne)]
      exact (h.pending (.inr hne)).rests
    · rw [onlyIf_pos hne]
      obtain rfl := h.running rfl hne
      exact pays_markRunning
  | paused =>
    have hunpause : Pays name .startApp (exceptSubprocessError (doUnpause name) fun _ => composeUp name) l
        (Lifted status) := by
      refine (pays_command hstatus (h.pending (.inl nofun)) (.inr rfl)).tryCatch (fun _ _ h => h.1)
        fun e l' h => ?_
      obtain rfl | ⟨hok, -⟩ | ⟨-, hl⟩ := h.1
      · exact (pays_failed (by decide) _).mono fun _ _ h => .inl h
      · cases hok
      · cases e with
        | subprocessError text => exact pays_composeUp hstatus hl
        | _ => exact .inr (.inr ⟨rfl, hl⟩)
    exact pays_lifted hunpause
  | exited => exact hup l (h.pending (.inl nofun))
  | missing => exact hup l (h.pending (.inl nofun))

theorem pays_startApp : Pays name .startApp (startApp name) .idle fun _ l => l.due = false := by
  have hthrottle : Pays name .startApp (awaitOp (.throttle name)) .idle fun _ l => l = .idle :=
    Prog.Conforms.perform (.inl rfl) fun r => by cases r <;> rfl
  have hacquire : Pays name .startApp (awaitOp (.acquire name)) .idle fun r l =>
      (r.isOk = true → l = .holding) ∧ (r.isOk = false → l = .idle) := by
    refine Prog.Conforms.perform (.inr rfl) fun r => ?_
    cases r with
    | ok u => exact ⟨fun _ => rfl, nofun⟩
    | error e => exact ⟨nofun, fun _ => rfl⟩
  have hrelease : ∀ l : Debt, l.Rests →
      Pays name .startApp (awaitOp (.release name)) l fun _ l => l.due = false := by
    rintro l ⟨hdue, hidle⟩
    cases l with
    | idle => exact absurd rfl hidle
    | holding => exact Prog.Conforms.perform (.inr (.inr rfl)) fun r => by cases r <;> rfl
    | read status | listed status ids =>
      exact Prog.Conforms.perform (.inl rfl) fun r => by cases r <;> rfl
    | thawed | owes status => cases hdue
    | failed => exact Prog.Conforms.perform trivial fun _ => rfl
  have hread : Pays name .startApp (readStatus name) .holding (HasRead .holding) :=
    pays_readStatus (.inl rfl) (fun _ => rfl) fun _ => rfl
  refine hthrottle.bind ?_ fun _ l h => by rw [h]; rfl
  rintro passes _ rfl
  unfold onlyIf
  split
  · refine hacquire.bind (fun u l h => ?_) fun e l h => by rw [h.2 rfl]; rfl
    obtain rfl := h.1 rfl
    refine Prog.Conforms.tryFinally (R := fun _ l => l.Rests) ?_ fun r l hl => ?_
    · refine hread.bind (fun status l h => ?_) fun e l h => ?_
      · obtain rfl := h.1 status rfl
        unfold onlyIf
        split
        · next hmem =>
          refine pays_revive ?_
          rintro rfl
          exact absurd hmem (by decide)
        · exact ⟨rfl, nofun⟩
      · rw [h.2 rfl]
        exact ⟨rfl, nofun⟩
    · exact (hrelease l hl).mono fun r' _ h => by cases r' <;> exact h
  · exact rfl

/-! Pausing and stopping. -/

/-- What a demotion does last: it stores the status it owes. -/
theorem pays_finish {role : Role} {status : Status} (hrole : role = .pauseApp ∨ role = .stopApp) :
    Pays name role (do
      writeStatus name status
      sendOnAppsUpdate) (.owes status) fun _ l => l.due = false := by
  have hwrite : Pays name role (updateStatus name status) (.owes status) fun r l =>
      (r.isOk = true → l = .idle) ∧ (r.isOk = false → l = .failed) := by
    refine Prog.Conforms.perform ?_ fun r => ?_
    · obtain rfl | rfl := hrole
      · exact .inr (.inr rfl)
      · exact rfl
    · obtain rfl | rfl := hrole <;> cases r with
      | ok row => exact ⟨fun _ => rfl, nofun⟩
      | error e => exact ⟨nofun, fun _ => rfl⟩
  have hnotify : Pays name role sendOnAppsUpdate .idle fun _ l => l.due = false := by
    refine Prog.Conforms.perform ?_ fun r => ?_
    · obtain rfl | rfl := hrole <;> exact .inr rfl
    · obtain rfl | rfl := hrole <;> cases r <;> rfl
  refine Prog.Conforms.bind (R := fun r l =>
    (r.isOk = true → l = .idle) ∧ (r.isOk = false → l = .failed)) ?_ (fun u l h => ?_) fun e l h => ?_
  · exact hwrite.bind (fun row l h => ⟨fun _ => h.1 rfl, nofun⟩) fun e l h => ⟨nofun, fun _ => h.2 rfl⟩
  · obtain rfl := h.1 rfl
    exact hnotify
  · rw [h.2 rfl]
    rfl

/-- An operation while the call owes: it goes on owing, or the operation has failed. -/
def Owing {α : Type} (status : Status) (r : Except Exn α) (l : Debt) : Prop :=
  (r.isOk = true → l = .owes status) ∧ (r.isOk = false → l = .failed)

theorem pays_reclaimComposeStack :
    Pays name .pauseApp (reclaimComposeStack name) (.owes .paused) (Owing .paused) := by
  have hlist : Pays name .pauseApp (composePs name false) (.owes .paused) (Owing .paused) := by
    refine Prog.Conforms.perform (.inl rfl) fun r => ?_
    cases r with
    | ok ids => exact ⟨fun _ => rfl, nofun⟩
    | error e => exact ⟨nofun, fun _ => rfl⟩
  have hreclaim : ∀ ids : List ℕ, Pays name .pauseApp
      (ids.forM fun id => awaitOp (.reclaimContainer id)) (.owes .paused) (Owing .paused) := by
    intro ids
    induction ids with
    | nil => exact ⟨fun _ => rfl, nofun⟩
    | cons id ids ih =>
      have hfirst : Pays name .pauseApp (awaitOp (.reclaimContainer id)) (.owes .paused)
          (Owing .paused) := by
        refine Prog.Conforms.perform (.inr (.inl ⟨id, rfl⟩)) fun r => ?_
        cases r with
        | ok u => exact ⟨fun _ => rfl, nofun⟩
        | error e => exact ⟨nofun, fun _ => rfl⟩
      refine hfirst.bind (fun u l h => ?_) fun e l h => ⟨nofun, fun _ => h.2 rfl⟩
      obtain rfl := h.1 rfl
      exact ih
  refine hlist.bind (fun ids l h => ?_) fun e l h => ⟨nofun, fun _ => h.2 rfl⟩
  obtain rfl := h.1 rfl
  exact hreclaim ids

theorem pays_dockerPauseApp :
    Pays name .pauseApp (dockerPauseApp name) .idle fun _ l => l.due = false := by
  have hread : Pays name .pauseApp (readStatus name) .idle (HasRead .idle) :=
    pays_readStatus (.inl rfl) (fun _ => rfl) fun _ => rfl
  have hpause : ∀ status, status ≠ none → Pays name .pauseApp (compose name .pause) (.read status)
      fun r l => (r.isOk = true → l = .owes .paused) ∧ (r.isOk = false → l = .read status) := by
    intro status hstatus
    refine Prog.Conforms.perform ⟨hstatus, rfl⟩ fun r => ?_
    cases r with
    | ok u => exact ⟨fun _ => rfl, nofun⟩
    | error e => exact ⟨nofun, fun _ => rfl⟩
  refine hread.bind (fun status l h => ?_) fun e l h => by rw [h.2 rfl]; rfl
  obtain rfl := h.1 status rfl
  unfold onlyIf
  split
  · next hst =>
    refine (hpause status (by rw [hst]; exact nofun)).bind (fun u l h => ?_) fun e l h => by rw [h.2 rfl]; rfl
    obtain rfl := h.1 rfl
    refine pays_reclaimComposeStack.bind (fun u l h => ?_) fun e l h => by rw [h.2 rfl]; rfl
    obtain rfl := h.1 rfl
    exact pays_finish (.inl rfl)
  · exact rfl

theorem pays_dockerStopApp :
    Pays name .stopApp (dockerStopApp name true) .idle fun _ l => l.due = false := by
  have hread : Pays name .stopApp (readStatus name) .idle (HasRead .idle) :=
    pays_readStatus (.inl rfl) (fun _ => rfl) fun _ => rfl
  have hunpause : ∀ status ∈ stoppableStatus.map some, Pays name .stopApp (compose name .unpause)
      (.read status) fun r l => (r.isOk = true → l = .thawed) ∧ (r.isOk = false → l = .read status) := by
    intro status hstatus
    refine Prog.Conforms.perform ⟨hstatus, .inl rfl⟩ fun r => ?_
    cases r with
    | ok u => exact ⟨fun _ => rfl, nofun⟩
    | error e => exact ⟨nofun, fun _ => rfl⟩
  have hstop : ∀ status l, status ∈ stoppableStatus.map some → l = .read status ∨ l = .thawed →
      Pays name .stopApp (compose name .stop) l fun r l' =>
        (r.isOk = true → l' = .owes .stopped) ∧ (r.isOk = false → l'.due = false) := by
    rintro status l hstatus (rfl | rfl)
    · refine Prog.Conforms.perform ⟨hstatus, .inr rfl⟩ fun r => ?_
      cases r with
      | ok u => exact ⟨fun _ => rfl, nofun⟩
      | error e => exact ⟨nofun, fun _ => rfl⟩
    · refine Prog.Conforms.perform rfl fun r => ?_
      cases r with
      | ok u => exact ⟨fun _ => rfl, nofun⟩
      | error e => exact ⟨nofun, fun _ => rfl⟩
  refine hread.bind (fun status l h => ?_) fun e l h => by rw [h.2 rfl]; rfl
  obtain rfl := h.1 status rfl
  by_cases hst : status ∈ stoppableStatus.map some
  · rw [onlyIf_pos hst]
    have hfirst : Pays name .stopApp (onlyIf (status = some .paused) (compose name .unpause))
        (.read status) fun r l => (r.isOk = true → l = .read status ∨ l = .thawed) ∧
          (r.isOk = false → l.due = false) := by
      unfold onlyIf
      split
      · exact (hunpause status hst).mono fun r l h =>
          ⟨fun hr => .inr (h.1 hr), fun hr => by rw [h.2 hr]; rfl⟩
      · exact ⟨fun _ => .inl rfl, nofun⟩
    refine hfirst.bind (fun u l h => ?_) fun e l h => h.2 rfl
    refine (hstop status l hst (h.1 rfl)).bind (fun u l h => ?_) fun e l h => h.2 rfl
    obtain rfl := h.1 rfl
    rw [onlyIf_pos rfl]
    exact pays_finish (.inr rfl)
  · rw [onlyIf_neg hst]
    exact rfl

theorem StartsOf.pays {i : Call} {p : Coro Unit} (h : StartsOf revivingRoles name i p) :
    p.Conforms (debt name i.role) .idle fun _ l => l.due = false := by
  obtain ⟨hrole, hstarts⟩ := h
  obtain ⟨role, id⟩ := i
  simp only [revivingRoles, List.mem_cons, List.not_mem_nil, or_false] at hrole
  obtain rfl | rfl | rfl := hrole
  · obtain rfl := hstarts
    exact pays_startApp
  · obtain rfl := hstarts
    exact pays_dockerPauseApp
  · obtain rfl := hstarts
    exact pays_dockerStopApp

end Conform
end Freeshard

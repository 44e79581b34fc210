import Freeshard.Service.Protocol
import Freeshard.Shutdown.ProtectedRows
import Freeshard.Uninstall.CrashRecovery

/-! # Accepted uninstalls at a shutdown

The lifespan cancels the worker at whatever await it has reached, and then takes all apps down. The next boot finds an
accepted uninstall by its status alone, which can be lost on either side of the cancellation: the teardown may have
stored STOPPED by then, or another call its own status, and the shutdown step may store DOWN. -/

namespace Freeshard
open Coroutine
set_option autoImplicit false

variable {before : Prop} {i : Call} {w : World} {s s' v : State} {name : String} {op : Op} {r : Answer op}

/-! ## What the status tells the next boot -/

/-- What the teardown makes of UNINSTALLING. -/
def disownedStatus : List Status := [.stopped, .down]

theorem disowned_not_interrupted :
    ∀ status ∈ disownedStatus, some status ∉ interruptedStatus.map some := by decide

/-- Until the row is deleted, its status is interrupted exactly if STOPPED has not been stored. -/
def Told (before : Prop) (name : String) (v : State) : Prop :=
  Outstanding before name v →
    (v.world.status name ∈ interruptedStatus.map some ∧ ¬StoredStopped name v) ∨
    (v.world.status name ∈ disownedStatus.map some ∧ StoredStopped name v)

theorem told_of_safe (hsafe : Safe before name s) (hstored : ¬StoredStopped name s) :
    ∀ v ∈ s.history, Told before name v := fun v hv hout =>
  .inl ⟨(recovered_iff _).mp (hsafe v hv hout), fun hs => hstored (hs.of_history hv)⟩

/-- STOPPED has been stored for the app, and since then at most DOWN. -/
structure Disowned (before : Prop) (name : String) (s : State) : Prop where
  stored : StoredStopped name s
  row : s.world.status name ∈ disownedStatus.map some ∨ Succeeded (.remove name) s.log
  told : ∀ v ∈ s.history, Told before name v

theorem disowned_of_told (htold : ∀ v ∈ s.history, Told before name v) (ha : s'.Follows i op r s)
    (hstored : StoredStopped name s')
    (hrow : s'.world.status name ∈ disownedStatus.map some ∨ Succeeded (.remove name) s'.log) :
    Disowned before name s' := by
  refine ⟨hstored, hrow, fun v hv => ?_⟩
  rw [ha.history] at hv
  obtain rfl | hv := List.mem_cons.mp hv
  · exact fun hout => .inr ⟨hrow.resolve_right hout.2, hstored⟩
  · exact htold v hv

theorem Disowned.step (h : Disowned before name s) (ha : s'.Follows i op r s)
    (hrow : s'.world.status name ∈ disownedStatus.map some ∨ Succeeded (.remove name) s'.log) :
    Disowned before name s' :=
  disowned_of_told h.told ha ((ha.succeeded _).mpr (.inr h.stored)) hrow

/-- Storing STOPPED gives the app away. -/
theorem Halted.disowned {r : Answer (.updateStatus name .stopped)} (h : Halted before name s) (hr : r.isOk = true) :
    Disowned before name (s.next i (.updateStatus name .stopped) r (s.world.setStatus name .stopped)) := by
  have ha : (s.next i (.updateStatus name .stopped) r (s.world.setStatus name .stopped)).Follows i
      (.updateStatus name .stopped) r s := State.follows_next
  refine disowned_of_told (told_of_safe h.safe h.not_stored) ha ((ha.succeeded _).mpr (.inl ⟨rfl, hr⟩)) (.inl ?_)
  change (s.world.setStatus name .stopped).status name ∈ _
  rw [World.setStatus_status_self, h.status_eq]
  decide

/-- What is left of the teardown stores at most DOWN. -/
theorem Disowned.afterStop (h : Disowned before name s) (hop : afterStop.Covers name op)
    (ha : Act .reliable i s op r s') : Disowned before name s' := by
  refine h.step ha.follows ?_
  by_cases hremoved : Succeeded (.remove name) s'.log
  · exact .inr hremoved
  have hrow := h.row.resolve_right fun hs => hremoved ((ha.follows.succeeded _).mpr (.inr hs))
  left
  cases op with
  | updateStatus other status =>
    obtain ⟨rfl, hst⟩ := hop
    obtain rfl := List.mem_singleton.mp hst
    obtain ⟨status, -, hstatus⟩ := List.mem_map.mp hrow
    rw [(ha.updatedStatus le_rfl).2, World.setStatus_status_self, ← hstatus]
    exact List.mem_map_of_mem (List.mem_cons_of_mem _ List.mem_cons_self)
  | remove other =>
    obtain ⟨rfl, -⟩ := hop
    refine absurd ((ha.follows.succeeded _).mpr (.inl ⟨rfl, ?_⟩)) hremoved
    rw [(ha.removed le_rfl).1]
    rfl
  | insert app => exact absurd hop.2.2 (by decide)
  | _ => exact (ha.frame.status name rfl).symm ▸ hrow

/-! ## Calls for other apps -/

/-- Calls that keep to other apps, one after the other. -/
inductive Elsewhere (name : String) : State → State → Prop where
  | refl (s : State) : Elsewhere name s s
  | call {α : Type} {f : Footprint} {other : String} {i : Call} {p : Coro α} {s s₁ s₂ : State} {r : Except Exn α}
      (hother : other ≠ name) (hp : Bounded f other p) (hrun : Prog.Exec (Act .reliable i) p s r s₁)
      (hrest : Elsewhere name s₁ s₂) : Elsewhere name s s₂

theorem Elsewhere.keeps {P : State → Prop} (h : Elsewhere name s s')
    (hP : ∀ (f : Footprint) (other : String) (i : Call) (op : Op) (s : State) (r : Answer op) (s' : State),
      other ≠ name → f.Covers other op → P s → Act .reliable i s op r s' → P s') (hs : P s) : P s' := by
  induction h with
  | refl s => exact hs
  | @call α f other i p s s₁ s₂ r hother hp hrun hrest ih =>
    exact ih (hrun.wp (hp.uses.wp (fun op hop s r s' hs ha => hP f other i op s r s' hother hop hs ha) hs))

variable {f : Footprint} {other : String}

theorem Footprint.Covers.ne (hop : f.Covers other op) (hother : other ≠ name) :
    op ≠ .remove name ∧ op ≠ .compose name .stop ∧ op ≠ .updateStatus name .stopped := by
  refine ⟨?_, ?_, ?_⟩
  · rintro rfl
    exact hother hop.1.symm
  · rintro rfl
    exact hother hop.1.symm
  · rintro rfl
    exact hother hop.1.symm

theorem Tearing.elsewhere {status : Status} (h : Tearing before name status s) (hother : other ≠ name)
    (hop : f.Covers other op) (ha : Act .reliable i s op r s') : Tearing before name status s' := by
  obtain ⟨hremove, hstop, hstored⟩ := hop.ne hother
  exact h.step ha.follows ((ha.frame.status name (hop.writesRow hother.symm)).trans h.status_eq) h.interrupted
    hremove (fun he => absurd he hstop) hstored

theorem Kept.elsewhere (h : Kept before name s) (hother : other ≠ name) (hop : f.Covers other op)
    (ha : Act .reliable i s op r s') : Kept before name s' := by
  obtain ⟨hremove, hstop, hstored⟩ := hop.ne hother
  exact h.step ha.follows (fun he => absurd he hremove) (fun _ => ha.frame.status name (hop.writesRow hother.symm))
    hstop hstored

theorem Disowned.elsewhere (h : Disowned before name s) (hother : other ≠ name) (hop : f.Covers other op)
    (ha : Act .reliable i s op r s') : Disowned before name s' := by
  refine h.step ha.follows ?_
  rw [ha.frame.status name (hop.writesRow hother.symm), ha.follows.succeeded_of_ne (hop.ne hother).1]
  exact h.row

/-! ## The run up to the shutdown -/

/-- The app was to be uninstalled when the process came up, or a request for it has been accepted. -/
def Accepted (name : String) (w : World) (s : State) : Prop :=
  (w.status name ∈ interruptedStatus.map some ∧ s = ⟨w, []⟩) ∨
    ∃ request, Prog.Exec (Act .reliable request) (uninstallApp name) ⟨w, []⟩ (.ok ()) s

/-- After an uninstall has been accepted the worker takes its task, with calls for other apps before and after. -/
def Uninstalls (name : String) (w : World) (s : State) : Prop :=
  ∃ worker s₁ s₂ s₃ r, Accepted name w s₁ ∧ Elsewhere name s₁ s₂ ∧
    Prog.Exec (Act .reliable worker) (Worker.process ⟨name, .uninstall⟩) s₂ r s₃ ∧ Elsewhere name s₃ s

theorem Accepted.tearing (h : Accepted name w s) :
    ∃ status, Tearing (w.status name ∈ interruptedStatus.map some) name status s := by
  obtain ⟨hst, rfl⟩ | ⟨request, hreq⟩ := h
  · obtain ⟨status, hint, hstatus⟩ := List.mem_map.mp hst
    refine ⟨status, hstatus.symm, hint, ⟨.inl hst, ?_⟩, fun v hv _ => ?_, ?_, ?_⟩
    · simp [Succeeded]
    · obtain rfl := List.mem_singleton.mp hv
      exact (recovered_iff _).mpr hst
    · simp [Stopped, Succeeded]
    · simp [StoredStopped, Succeeded]
  · exact ⟨_, hreq.wp (wp_uninstallApp_tearing id) rfl⟩

/-- The run lemma: wherever the worker is cancelled, the status tells whether STOPPED has been stored. -/
theorem Uninstalls.told (h : Uninstalls name w s) (hv : v ∈ s.history) :
    Told (w.status name ∈ interruptedStatus.map some) name v := by
  obtain ⟨worker, s₁, s₂, s₃, r, haccepted, hearlier, htask, hlater⟩ := h
  obtain ⟨status, h₁⟩ := haccepted.tearing
  have h₂ := hearlier.keeps (fun _ _ _ _ _ _ _ hother hop hs ha => hs.elsewhere hother hop ha) h₁
  have hstored : ∀ s row, Halted (w.status name ∈ interruptedStatus.map some) name s →
      Disowned (w.status name ∈ interruptedStatus.map some) name
        (s.next worker (.updateStatus name .stopped) (.ok row) (s.world.setStatus name .stopped)) :=
    fun _ _ hs => hs.disowned rfl
  have hafter : ∀ op, afterStop.Covers name op → ∀ (s : State) (r : Answer op) (s' : State),
      Disowned (w.status name ∈ interruptedStatus.map some) name s → Act .reliable worker s op r s' →
      Disowned (w.status name ∈ interruptedStatus.map some) name s' :=
    fun _ hop _ _ _ hs ha => hs.afterStop hop ha
  obtain h₃ | h₃ := htask.wp (wp_worker_uninstallApp_tearing hstored hafter h₂)
  · have h₄ := hlater.keeps (fun _ _ _ _ _ _ _ hother hop hs ha => hs.elsewhere hother hop ha) h₃
    exact told_of_safe h₄.safe h₄.not_stored v hv
  · have h₄ := hlater.keeps (fun _ _ _ _ _ _ _ hother hop hs ha => hs.elsewhere hother hop ha) h₃
    exact h₄.told v hv

/-! ## What the log says of the row -/

/-- The status that the operation has stored in the app's row. -/
def Event.stored (name : String) : Event → Option Status
  | ⟨_, .updateStatus other status, .ok (some _), _⟩ => if other = name then some status else none
  | _ => none

/-- The status last stored for the app. -/
def lastStored (name : String) : List Event → Option Status
  | [] => none
  | e :: log => (e.stored name).or (lastStored name log)

/-- An uninstall of the app has been accepted, or is one that the boot took up again, and the row has not been deleted
since. -/
def Unfinished (name : String) (w : World) : List Event → Prop
  | [] => w.status name ∈ interruptedStatus.map some
  | e :: log => e.stored name = some .uninstallationQueued ∨ (Unfinished name w log ∧ e.op ≠ .remove name)

instance Unfinished.decidable (name : String) (w : World) : (log : List Event) → Decidable (Unfinished name w log)
  | [] => inferInstanceAs (Decidable (_ ∈ _))
  | _ :: log =>
    have := Unfinished.decidable name w log
    inferInstanceAs (Decidable (_ ∨ (_ ∧ _)))

/-- Another status has been stored for the app since. -/
def Overwritten (name : String) (log : List Event) : Prop :=
  ∃ status ∈ lastStored name log, status ∉ interruptedStatus

instance (name : String) (log : List Event) : Decidable (Overwritten name log) :=
  inferInstanceAs (Decidable (∃ status ∈ lastStored name log, _))

theorem Event.stored_eq_some {e : Event} {status : Status} (h : e.stored name = some status) :
    e.op = .updateStatus name status ∧ e.ok = true := by
  unfold Event.stored at h
  split at h
  · split at h
    · next hname =>
      obtain rfl := Option.some.inj h
      exact ⟨by rw [hname], rfl⟩
    · cases h
  · cases h

theorem Unfinished.accepted {log : List Event} (h : Unfinished name w log) :
    w.status name ∈ interruptedStatus.map some ∨ Succeeded (.updateStatus name .uninstallationQueued) log := by
  induction log with
  | nil => exact .inl h
  | cons e log ih =>
    obtain hqueued | ⟨h, -⟩ := h
    · exact .inr ⟨e, List.mem_cons_self, Event.stored_eq_some hqueued⟩
    · exact (ih h).imp_right fun ⟨e', he', hop⟩ => ⟨e', List.mem_cons_of_mem e he', hop⟩

/-- The row of an unfinished uninstall is there, and says what was last stored. -/
def Traced (name : String) (w : World) (s : State) : Prop :=
  Unfinished name w s.log → ∃ status, s.world.status name = some status ∧
    (Overwritten name s.log ↔ status ∉ interruptedStatus)

theorem traced_nil : Traced name w ⟨w, []⟩ := by
  intro hst
  obtain ⟨status, hint, hstatus⟩ := List.mem_map.mp hst
  exact ⟨status, hstatus.symm, iff_of_false (by simp [Overwritten, lastStored]) (not_not_intro hint)⟩

theorem lastStored_of_follows (ha : s'.Follows i op r s) :
    lastStored name s'.log = (Event.stored name ⟨i, op, r, s.world⟩).or (lastStored name s.log) := by
  rw [ha, lastStored]

/-- What has been stored is what the row says. -/
theorem traced_of_stored {status : Status} (ha : Act .reliable i s op r s')
    (hstored : Event.stored name ⟨i, op, r, s.world⟩ = some status) : Traced name w s' := by
  intro _
  refine ⟨status, ?_, ?_⟩
  · obtain ⟨rfl, -⟩ := Event.stored_eq_some hstored
    rcases r with e | (_ | app)
    · cases hstored
    · cases hstored
    · exact ha.updateStatus_ok
  · rw [Overwritten, lastStored_of_follows ha.follows, hstored]
    simp

/-- An operation that stores nothing for the app leaves its row alone, as long as it does not delete it. -/
theorem status_of_not_stored {status : Status} (ha : Act .reliable i s op r s') (hst : s.world.status name = some status)
    (hstored : Event.stored name ⟨i, op, r, s.world⟩ = none) (hremove : op ≠ .remove name) :
    s'.world.status name = some status := by
  obtain hsame | ⟨rfl, -⟩ | ⟨hrow, -⟩ | - := ha.statusStep name
  · rw [hsame, hst]
  · obtain hsame | hnone := ha.inserted_absent
    · rw [hsame, hst]
    · rw [hnone] at hst
      cases hst
  · obtain ⟨rfl, -⟩ := ha.updatedStatus le_rfl
    cases hget : (s.world.setStatus name _).installedApps.getByName name with
    | none => exact absurd ((World.getByName_setStatus_eq_none _).mp hget) hrow
    | some app =>
      rw [hget] at hstored
      simp [Event.stored] at hstored
  · exact absurd rfl hremove

/-- The step lemma, whatever a call does. -/
theorem Traced.step (h : Traced name w s) (ha : Act .reliable i s op r s') : Traced name w s' := by
  cases hstored : Event.stored name ⟨i, op, r, s.world⟩ with
  | some status => exact traced_of_stored ha hstored
  | none =>
    intro hout
    rw [ha.log] at hout
    obtain hqueued | ⟨hout, hremove⟩ := hout
    · rw [hstored] at hqueued
      cases hqueued
    · obtain ⟨status, hst, hover⟩ := h hout
      refine ⟨status, status_of_not_stored ha hst hstored hremove, ?_⟩
      rw [Overwritten, lastStored_of_follows ha.follows, hstored, Option.none_or]
      exact hover

/-- A deleted row stays away, as long as nothing inserts it again. -/
def Gone (name : String) (s : State) : Prop := Succeeded (.remove name) s.log → s.world.status name = none

theorem Gone.step (h : Gone name s) (ha : Act .reliable i s op r s')
    (hinsert : ∀ app, op = .insert app → app.name ≠ name) : Gone name s' := by
  intro hremoved
  obtain ⟨rfl, hok⟩ | hremoved := (ha.follows.succeeded _).mp hremoved
  · exact ha.remove_ok hok
  · have hnone := h hremoved
    obtain hsame | ⟨hname, -⟩ | ⟨hrow, -⟩ | hst := ha.statusStep name
    · rw [hsame, hnone]
    · exact absurd hname (hinsert _ rfl)
    · exact absurd hnone hrow
    · exact hst

/-- What holds all along a course. -/
def Logged (name : String) (w : World) (s : State) : Prop :=
  ∀ v ∈ s.history, (∀ other, Traced other w v) ∧ Gone name v

theorem Logged.step (h : Logged name w s) (ha : Act .reliable i s op r s')
    (hinsert : ∀ app, op = .insert app → app.name ≠ name) : Logged name w s' := by
  intro v hv
  rw [ha.follows.history] at hv
  obtain rfl | hv := List.mem_cons.mp hv
  · have hs := h s s.mem_history
    exact ⟨fun other => (hs.1 other).step ha, hs.2.step ha hinsert⟩
  · exact h v hv

theorem Logged.covered (h : Logged name w s) {f : Footprint} (hf : f.inserts = false) (hop : f.Covers name op)
    (ha : Act .reliable i s op r s') : Logged name w s' := by
  refine h.step ha ?_
  rintro app rfl
  rw [hop.2.2] at hf
  cases hf

theorem logged_nil : Logged name w ⟨w, []⟩ := by
  intro v hv
  obtain rfl := List.mem_singleton.mp hv
  exact ⟨fun _ => traced_nil, fun hremoved => by simp [Succeeded] at hremoved⟩

theorem Uninstalls.logged (h : Uninstalls name w s) : Logged name w s := by
  obtain ⟨worker, s₁, s₂, s₃, r, haccepted, hearlier, htask, hlater⟩ := h
  have helsewhere : ∀ (f : Footprint) (other : String) (i : Call) (op : Op) (s : State) (r : Answer op) (s' : State),
      other ≠ name → f.Covers other op → Logged name w s → Act .reliable i s op r s' → Logged name w s' := by
    intro f other i op s r s' hother hop hs ha
    refine hs.step ha ?_
    rintro app rfl
    rw [hop.1]
    exact hother
  have h₁ : Logged name w s₁ := by
    obtain ⟨-, rfl⟩ | ⟨request, hreq⟩ := haccepted
    · exact logged_nil
    · exact hreq.wp (bounds_uninstallApp.uses.wp (fun op hop s r s' hs ha => hs.covered rfl hop ha) logged_nil)
  have h₃ : Logged name w s₃ :=
    htask.wp (Worker.bounds_uninstallApp.uses.wp (fun op hop s r s' hs ha => hs.covered rfl hop ha)
      (hearlier.keeps helsewhere h₁))
  exact hlater.keeps helsewhere h₃

/-! ## The shutdown step, and the next boot -/

/-- What the shutdown finds: the calls of a run are cancelled at whatever they await, or those of an uninstall that
nothing else on the app has interfered with. -/
inductive Cancelled (w : World) : State → Prop where
  | run {app : Call → String} {c : Config Op Ans Exn State Call} (h : RunsFor .reliable app w c) : Cancelled w c.state
  | course {name : String} {s v : State} (h : Uninstalls name w s) (hv : v ∈ s.history) : Cancelled w v

/-- The run lemma: the row of an unfinished uninstall says what was last stored. -/
theorem Cancelled.traced (h : Cancelled w v) (name : String) : Traced name w v := by
  cases h with
  | run h => exact Reaches.invariant (I := Traced name w) (fun _ _ _ _ _ hs ha => hs.step ha) h traced_nil
  | course h hv => exact (h.logged v hv).1 name

/-- The next boot takes the uninstall up again, and until then nothing starts the app. -/
structure TakenUp (name : String) (w : World) : Prop where
  recovered : Recovered name w
  not_revivable : w.status name ∉ revivableStatus.map some

theorem KeepsProtected.takenUp {w w' : World} {status : Status} (h : KeepsProtected w w')
    (hst : w.status name = some status) (hint : status ∈ interruptedStatus) : TakenUp name w' where
  recovered := h.recovered name (hst ▸ List.mem_map_of_mem hint)
  not_revivable := h.not_revivable name (hst ▸ List.mem_map_of_mem (interrupted_protected hint))

/-- Once another status is stored, the shutdown step does not bring the uninstall back. -/
theorem DockerShutdownAllApps.not_takenUp {caller : Call} {status : Status}
    (h : DockerShutdownAllApps .reliable caller true ⟨w, []⟩ s') (hst : w.status name = some status)
    (hint : status ∉ interruptedStatus) : ¬TakenUp name s'.world := by
  intro htaken
  have hrecovered := (recovered_iff _).mp htaken.recovered
  obtain hrow | hrow := h.ended hst
  · rw [hrow.status_eq] at hrecovered
    obtain ⟨status', hint', hstatus⟩ := List.mem_map.mp hrecovered
    exact hint (Option.some.inj hstatus ▸ hint')
  · rw [hrow.status_eq] at hrecovered
    have hdown : some Status.down ∉ interruptedStatus.map some := by decide
    exact hdown hrecovered

/-- In a course only the teardown's STOPPED overwrites the status. -/
theorem Uninstalls.overwritten_iff (h : Uninstalls name w s) (hv : v ∈ s.history) (hout : Unfinished name w v.log) :
    Overwritten name v.log ↔ StoredStopped name v := by
  obtain ⟨htraced, hgone⟩ := h.logged v hv
  obtain ⟨status, hst, hover⟩ := htraced name hout
  have hremove : ¬Succeeded (.remove name) v.log := by
    intro hremoved
    rw [hgone hremoved] at hst
    cases hst
  rw [hover]
  obtain ⟨hint, hnot⟩ | ⟨hdisowned, hstored⟩ := h.told hv ⟨hout.accepted, hremove⟩
  · rw [hst] at hint
    obtain ⟨status', hint, hstatus⟩ := List.mem_map.mp hint
    exact iff_of_false (not_not_intro (Option.some.inj hstatus ▸ hint)) hnot
  · rw [hst] at hdisowned
    obtain ⟨status', hdisowned, hstatus⟩ := List.mem_map.mp hdisowned
    refine iff_of_true (fun hint => ?_) hstored
    exact disowned_not_interrupted status' hdisowned (hstatus ▸ List.mem_map_of_mem hint)

/-- Wherever the calls are cancelled, the shutdown step keeps the protected rows and the next boot takes every accepted
uninstall up again, exactly if no `down` of a protected row succeeds and the status last stored for each of these apps
is still that of an uninstall. If nothing else on the app interferes, it is so until the teardown stores STOPPED. -/
theorem shutdown_keeps_uninstalls_iff {caller : Call} {w w' : World} (hcancelled : Cancelled w v)
    (hrows : w'.installedApps = v.world.installedApps)
    (hshutdown : DockerShutdownAllApps .reliable caller true ⟨w', []⟩ s') :
    ((KeepsProtected w' s'.world ∧ ∀ name, Unfinished name w v.log → TakenUp name s'.world) ↔
      (∀ name, w'.status name ∈ protectedStatus.map some → ¬Succeeded (.compose name .down) s'.log) ∧
        ∀ name, Unfinished name w v.log → ¬Overwritten name v.log) ∧
      ∀ name s, Uninstalls name w s → v ∈ s.history → Unfinished name w v.log →
        (Overwritten name v.log ↔ StoredStopped name v) := by
  refine ⟨?_, fun name s hrun hv => hrun.overwritten_iff hv⟩
  rw [keepsProtected_iff hshutdown]
  refine and_congr_right fun hdown => forall₂_congr fun name hout => ?_
  obtain ⟨status, hst, hover⟩ := hcancelled.traced name hout
  have hrow : w'.status name = some status := by
    rw [← hst, World.status, World.status, hrows]
  rw [hover]
  by_cases hint : status ∈ interruptedStatus
  · exact iff_of_true (((keepsProtected_iff hshutdown).mpr hdown).takenUp hrow hint) (not_not_intro hint)
  · exact iff_of_false (hshutdown.not_takenUp hrow hint) (not_not_intro hint)

theorem exists_cancelled (name : String) (w : World) (choices choices' : List Choice) (P : State → Bool)
    (h : ((uninstallApp name).follow (State.exec .reliable ⟨.uninstallRequest, 0⟩) ⟨w, []⟩ choices).any (fun run =>
      run.1.isOk && ((Worker.process ⟨name, .uninstall⟩).follow (State.exec .reliable ⟨.worker, 0⟩) run.2 choices').any
        fun run' => run'.2.history.any P) = true) :
    ∃ s v, Uninstalls name w s ∧ v ∈ s.history ∧ P v = true := by
  obtain ⟨r, s₁, s, hreq, htask, hP⟩ := State.exists_exec_then .reliable ⟨.uninstallRequest, 0⟩ ⟨.worker, 0⟩
    (uninstallApp name) (Worker.process ⟨name, .uninstall⟩) ⟨w, []⟩ choices choices' (fun s => s.history.any P) h
  obtain ⟨v, hv, hPv⟩ := List.any_eq_true.mp hP
  exact ⟨s, v, ⟨_, s₁, s₁, s, r, .inr ⟨_, hreq⟩, .refl s₁, htask, .refl s⟩, hv, hPv⟩

/-- A running app whose uninstall has been accepted. -/
def runningApp : World := .withApp "app" .running (.single .running)

/-- What the worker leaves if it is cancelled while it stops the app. -/
def uninstallingApp : World := .withApp "app" .uninstalling (.single .running)

theorem exists_cancelled_uninstalling : ∃ s v, Uninstalls "app" runningApp s ∧ v ∈ s.history ∧
    uninstallingApp.installedApps = v.world.installedApps ∧ Unfinished "app" runningApp v.log ∧
    ¬Overwritten "app" v.log := by
  obtain ⟨s, v, hrun, hv, hP⟩ := exists_cancelled "app" runningApp (List.replicate 5 Choice.proceed)
    (List.replicate 5 Choice.proceed ++ [Choice.docker (.error "timeout") (.single .running)] ++
      List.replicate 7 Choice.proceed)
    (fun v => decide (v.world.installedApps.rows = uninstallingApp.installedApps.rows) &&
      decide (Unfinished "app" runningApp v.log) && decide ¬Overwritten "app" v.log) (by decide)
  simp only [Bool.and_eq_true] at hP
  obtain ⟨⟨hrows, hout⟩, hover⟩ := hP
  exact ⟨s, v, hrun, hv, InstalledApps.ext (of_decide_eq_true hrows).symm, of_decide_eq_true hout,
    of_decide_eq_true hover⟩

theorem uninstallingApp_status (hname : name ≠ "app") : uninstallingApp.status name = none := by
  simp [uninstallingApp, World.status, InstalledApps.status, InstalledApps.getByName, World.withApp, hname.symm]

/-- The worker is cancelled before it has stored STOPPED, and Docker fails the `down`. -/
theorem shutdown_keeps_uninstalls_failing_down : ∃ s v s', Uninstalls "app" runningApp s ∧ v ∈ s.history ∧
    Unfinished "app" runningApp v.log ∧
    DockerShutdownAllApps .reliable ⟨.shutdownApp, 1⟩ true ⟨uninstallingApp, []⟩ s' ∧
    KeepsProtected uninstallingApp s'.world ∧ ∀ name, Unfinished name runningApp v.log → TakenUp name s'.world := by
  obtain ⟨s, v, hrun, hv, hrows, hout, hover⟩ := exists_cancelled_uninstalling
  obtain ⟨s', hshutdown, hP⟩ := exists_shutdown_single ⟨.shutdownApp, 1⟩ uninstallingApp _ rfl
    [.proceed, .docker (.error "timeout") (.single .running)]
    (fun s => decide ¬Succeeded (.compose "app" .down) s.log) (by decide)
  have hcancelled : Cancelled runningApp v := .course hrun hv
  refine ⟨s, v, s', hrun, hv, hout, hshutdown,
    (shutdown_keeps_uninstalls_iff hcancelled hrows hshutdown).1.mpr ⟨fun name hst => ?_, fun name hname => ?_⟩⟩
  · by_cases happ : name = "app"
    · rw [happ]
      exact of_decide_eq_true hP
    · simp [uninstallingApp_status happ] at hst
  · by_cases happ : name = "app"
    · rw [happ]
      exact hover
    · obtain ⟨status, hst, -⟩ := hcancelled.traced name hname
      rw [World.status, ← hrows] at hst
      cases (uninstallingApp_status happ).symm.trans hst

/-- The worker is cancelled at the same point; the shutdown step stores DOWN, and the next boot forgets the uninstall. -/
theorem shutdown_forgets_uninstall : ¬ ∀ (w w' : World) (v s' : State) (caller : Call), Cancelled w v →
    w'.installedApps = v.world.installedApps → DockerShutdownAllApps .reliable caller true ⟨w', []⟩ s' →
    KeepsProtected w' s'.world ∧ ∀ name, Unfinished name w v.log → TakenUp name s'.world := by
  intro h
  obtain ⟨s, v, hrun, hv, hrows, hout, -⟩ := exists_cancelled_uninstalling
  obtain ⟨s', hshutdown, hP⟩ := exists_shutdown_single ⟨.shutdownApp, 1⟩ uninstallingApp _ rfl
    [.proceed, .docker (.ok ()) .empty, .proceed, .proceed]
    (fun s => s.world.status "app" == some .down) (by decide)
  have htaken := (h _ _ _ _ _ (.course hrun hv) hrows hshutdown).2 "app" hout
  have hint := (recovered_iff _).mp htaken.recovered
  rw [beq_iff_eq.mp hP] at hint
  exact absurd hint (by decide)

end Freeshard

import Freeshard.Installation.UploadProtocol

/-! # Which upload wins

The primary key decides which of several uploads of one name is accepted, the file system keeps the archive
that was moved last. The two agree as long as no upload moves its archive while the app has a row or another
upload has still to insert its own. -/

namespace Freeshard.Upload
open Coroutine
set_option autoImplicit false

variable {name : String} {E : Env} {i j : Call} {s s' : State} {op : Op} {r : Answer op}

/-! ## What a log tells -/

/-- Call `i` has performed such an operation. -/
def Did (i : Call) (P : Event → Bool) (log : List Event) : Prop := ∃ e ∈ log, e.call = i ∧ P e = true

instance (i : Call) (P : Event → Bool) (log : List Event) : Decidable (Did i P log) :=
  inferInstanceAs (Decidable (∃ e ∈ log, _))

/-- The archive has been moved into place. -/
def moves (name : String) (zip : AppArchive) (e : Event) : Bool := e.op == .moveUploadedZip name zip && e.ok

/-- The table has accepted the row. -/
def enters (e : Event) : Bool :=
  match e with
  | ⟨_, .insert _, .ok _, _⟩ => true
  | _ => false

/-- The check has found a row, or the primary key has refused the new one. -/
def refuses (e : Event) : Bool :=
  match e with
  | ⟨_, .contains _, .ok found, _⟩ => found
  | ⟨_, .insert _, .error _, _⟩ => true
  | _ => false

/-- The upload of this archive is accepted. -/
structure Accepted (name : String) (i : Call) (zip : AppArchive) (log : List Event) : Prop where
  role : i.role = .installRequest
  moved : Did i (moves name zip) log
  inserted : Did i enters log

structure Rejected (i : Call) (log : List Event) : Prop where
  role : i.role = .installRequest
  refused : Did i refuses log

theorem did_next (ha : Act E j s op r s') (P : Event → Bool) :
    Did i P s'.log ↔ (j = i ∧ P ⟨j, op, r, s.world⟩ = true) ∨ Did i P s.log := by
  rw [ha.log]
  simp only [Did, List.mem_cons, exists_eq_or_imp]

/-- The archive in the app's directory. -/
def archive (name : String) (w : World) : Option AppArchive := (w.appDirs name).bind (·.zip)

theorem archive_setDir (w : World) (dir : Option AppDir) : archive name (w.setDir name dir) = dir.bind (·.zip) := by
  show (Function.update w.appDirs name dir name).bind (·.zip) = _
  rw [Function.update_self]

/-- The worker has begun to unpack an archive of the app. -/
abbrev Unpacked (name : String) (log : List Event) : Prop := Issued (.extractAppZip name) log

/-- At most one upload is accepted, the worker installs its archive, and the rejected ones leave the app's
directory as it was. -/
structure Exclusive (name : String) (s : State) : Prop where
  unique : ∀ i j zip zip', Accepted name i zip s.log → Accepted name j zip' s.log → i = j ∧ zip = zip'
  stored : ∀ i zip, Accepted name i zip s.log → ¬ Unpacked name s.log → archive name s.world = some zip
  installed : ∀ step ∈ s.steps, step.event.op = .extractAppZip name →
    ∃ i zip, Accepted name i zip step.before.log ∧ archive name step.before.world = some zip
  rejected : ∀ i, Rejected i s.log → ∀ step ∈ s.steps, step.event.call = i →
    step.after.appDirs name = step.before.world.appDirs name

/-- The database works, and an upload moves its archive only while the app has no row and no other upload is
between its move and its insert. -/
def soleMover (name : String) : Env := fun s i op c =>
  Env.reliable s i op c ∧
    match op with
    | .moveUploadedZip _ _ => c = .proceed ∧ s.world.status name = none ∧
        ∀ e ∈ s.log, (leg name e.call s).waits = false
    | _ => True

/-! ## Legs and logs agree -/

structure Told (name : String) (i : Call) (s : State) : Prop where
  moved : ∀ zip, Did i (moves name zip) s.log ↔ (leg name i s).zip = some zip
  inserted : Did i enters s.log ↔ ∃ zip enqueued, leg name i s = .accepted zip enqueued
  rejected : Did i refuses s.log → leg name i s = .rejected ∨ ∃ zip, leg name i s = .refused zip

theorem Told.other (h : Told name i s) (ha : Act E j s op r s') (hne : i ≠ j) : Told name i s' := by
  have hdid : ∀ P, Did i P s'.log ↔ Did i P s.log := by
    intro P
    rw [did_next ha]
    exact or_iff_right fun hnew => hne hnew.1.symm
  have hleg : leg name i s' = leg name i s := leg_other ha hne
  refine ⟨fun zip => (hdid _).trans ?_, (hdid _).trans ?_, fun hrefused => ?_⟩
  · rw [hleg]
    exact h.moved zip
  · rw [hleg]
    exact h.inserted
  · rw [hleg]
    exact h.rejected ((hdid _).mp hrefused)

theorem leg_upload (ha : Act E i s op r s') (hrole : i.role = .installRequest) :
    leg name i s' = (leg name i s).afterRequest op r := by
  rw [leg_self ha, hrole]
  rfl

theorem Told.own (h : Told name i s) (ha : Act E i s op r s') (hrole : i.role = .installRequest)
    (hop : RequestAllows name (leg name i s) op) : Told name i s' := by
  have hdid : ∀ P, Did i P s'.log ↔ P ⟨i, op, r, s.world⟩ = true ∨ Did i P s.log := by
    intro P
    rw [did_next ha, eq_self_iff_true, true_and]
  have hleg : leg name i s' = (leg name i s).afterRequest op r := leg_upload ha hrole
  obtain ⟨hmoved, hinserted, hrejected⟩ := h
  generalize hbefore : leg name i s = l at hop hleg hmoved hinserted hrejected
  cases hop with
  | check =>
    obtain _ | (_ | _) := r <;> refine ⟨fun zip => ?_, ?_, fun hrefused => ?_⟩ <;>
      simp_all [Leg.afterRequest, Leg.zip, moves, enters, refuses, Event.ok, Except.isOk, Except.toBool]
  | move zip =>
    obtain _ | _ := r <;> refine ⟨fun zip => ?_, ?_, fun hrefused => ?_⟩ <;>
      simp_all [Leg.afterRequest, Leg.zip, moves, enters, refuses, Event.ok, Except.isOk, Except.toBool]
  | insert h =>
    obtain _ | _ := r <;> refine ⟨fun zip => ?_, ?_, fun hrefused => ?_⟩ <;>
      simp_all [Leg.afterRequest, Leg.zip, moves, enters, refuses, Event.ok, Except.isOk, Except.toBool]
  | enqueue =>
    refine ⟨fun zip => ?_, ?_, fun hrefused => ?_⟩ <;>
      simp_all [Leg.afterRequest, Leg.zip, moves, enters, refuses, Event.ok, Except.isOk, Except.toBool]
  | notify =>
    refine ⟨fun zip => ?_, ?_, fun hrefused => ?_⟩ <;>
      simp_all [Leg.afterRequest, Leg.zip, moves, enters, refuses, Event.ok, Except.isOk, Except.toBool]

/-! ## The invariant -/

/-- The only worker. -/
def worker : Call := ⟨.worker, 0⟩

/-- The tasks of the app that are queued. -/
def pending (name : String) (s : State) : List InstallationTask :=
  s.world.taskQueue.filter fun queued => queued.appName = name

/-- Where the one task of the app is: not enqueued yet, queued, taken, or behind the worker. -/
inductive Course (name : String) (s : State) : Prop where
  | early (hnone : ∀ i zip, leg name i s ≠ .accepted zip true) (hpending : pending name s = [])
      (hworker : ∀ unpacked, leg name worker s ≠ .installing unpacked) (hpacked : ¬ Unpacked name s.log)
  | queued {i : Call} {zip : AppArchive} (hdone : leg name i s = .accepted zip true)
      (hpending : pending name s = [task name])
      (hworker : ∀ unpacked, leg name worker s ≠ .installing unpacked) (hpacked : ¬ Unpacked name s.log)
  | taken {i : Call} {zip : AppArchive} (hdone : leg name i s = .accepted zip true)
      (hpending : pending name s = []) (hworker : leg name worker s = .installing false)
      (hpacked : ¬ Unpacked name s.log)
  | past {i : Call} {zip : AppArchive} (hdone : leg name i s = .accepted zip true)
      (hpending : pending name s = []) (hworker : leg name worker s ≠ .installing false)
      (hunpacked : leg name worker s = .installing true → Unpacked name s.log)

structure Inv (name : String) (s : State) : Prop where
  kept : ∀ i zip, leg name i s ≠ .refused zip
  apart : leg name worker s ≠ .astray
  alone : ∀ i zip, leg name i s = .moved zip → s.world.status name = none ∧ archive name s.world = some zip ∧
    ∀ j zip', leg name j s = .moved zip' → j = i
  row : ∀ i zip enqueued, leg name i s = .accepted zip enqueued → s.world.status name ≠ none
  unique : ∀ i j zip zip' enqueued enqueued', leg name i s = .accepted zip enqueued →
    leg name j s = .accepted zip' enqueued' → i = j
  stored : ∀ i zip enqueued, leg name i s = .accepted zip enqueued → ¬ Unpacked name s.log →
    archive name s.world = some zip
  course : Course name s

/-- Legs that the invariant says nothing about. -/
def Leg.blank : Leg → Bool
  | .fresh => true
  | .rejected => true
  | .elsewhere => true
  | _ => false

/-- A step that leaves alone what the invariant is about. -/
structure Calm (name : String) (s s' : State) : Prop where
  legs : ∀ i, leg name i s' = leg name i s ∨ (leg name i s').blank = true ∧ (leg name i s).blank = true
  row : s'.world.status name = none ↔ s.world.status name = none
  archive_eq : archive name s'.world = archive name s.world
  pending_eq : pending name s' = pending name s
  unpacked : Unpacked name s'.log ↔ Unpacked name s.log

theorem Calm.leg_iff (h : Calm name s s') (i : Call) {l : Leg} (hl : l.blank = false) :
    leg name i s' = l ↔ leg name i s = l := by
  obtain hsame | ⟨hblank', hblank⟩ := h.legs i
  · rw [hsame]
  · constructor
    · intro heq
      rw [heq, hl] at hblank'
      cases hblank'
    · intro heq
      rw [heq, hl] at hblank
      cases hblank

theorem Course.calm (h : Course name s) (hc : Calm name s s') : Course name s' := by
  cases h with
  | early hnone hpending hworker hpacked =>
    refine .early (fun i zip hleg => hnone i zip ((hc.leg_iff i rfl).mp hleg)) (hc.pending_eq.trans hpending)
      (fun unpacked hleg => hworker unpacked ((hc.leg_iff worker rfl).mp hleg)) ?_
    rwa [hc.unpacked]
  | queued hdone hpending hworker hpacked =>
    refine .queued ((hc.leg_iff _ rfl).mpr hdone) (hc.pending_eq.trans hpending)
      (fun unpacked hleg => hworker unpacked ((hc.leg_iff worker rfl).mp hleg)) ?_
    rwa [hc.unpacked]
  | taken hdone hpending hworker hpacked =>
    refine .taken ((hc.leg_iff _ rfl).mpr hdone) (hc.pending_eq.trans hpending)
      ((hc.leg_iff worker rfl).mpr hworker) ?_
    rwa [hc.unpacked]
  | past hdone hpending hworker hunpacked =>
    refine .past ((hc.leg_iff _ rfl).mpr hdone) (hc.pending_eq.trans hpending)
      (fun hleg => hworker ((hc.leg_iff worker rfl).mp hleg)) fun hleg => ?_
    rw [hc.unpacked]
    exact hunpacked ((hc.leg_iff worker rfl).mp hleg)

theorem Inv.calm (h : Inv name s) (hc : Calm name s s') : Inv name s' where
  kept i zip hleg := h.kept i zip ((hc.leg_iff i rfl).mp hleg)
  apart hleg := h.apart ((hc.leg_iff worker rfl).mp hleg)
  alone i zip hleg := by
    obtain ⟨hnone, harchive, honly⟩ := h.alone i zip ((hc.leg_iff i rfl).mp hleg)
    refine ⟨hc.row.mpr hnone, hc.archive_eq.trans harchive, fun j zip' hother => ?_⟩
    exact honly j zip' ((hc.leg_iff j rfl).mp hother)
  row i zip enqueued hleg hnone := h.row i zip enqueued ((hc.leg_iff i rfl).mp hleg) (hc.row.mp hnone)
  unique i j zip zip' enqueued enqueued' hleg hleg' :=
    h.unique i j zip zip' enqueued enqueued' ((hc.leg_iff i rfl).mp hleg) ((hc.leg_iff j rfl).mp hleg')
  stored i zip enqueued hleg hpacked := by
    rw [hc.archive_eq]
    exact h.stored i zip enqueued ((hc.leg_iff i rfl).mp hleg) fun hunpacked => hpacked (hc.unpacked.mpr hunpacked)
  course := h.course.calm hc

/-! ## The steps -/

theorem leg_worker (ha : Act E worker s op r s') :
    leg name worker s' = (leg name worker s).afterWorker name op r := leg_self ha

theorem calm_of (ha : Act E j s op r s') (hrow : s'.world.status name = none ↔ s.world.status name = none)
    (hdir : op.appDir ≠ some name) (hqueue : op.queues = false)
    (hleg : leg name j s' = leg name j s ∨ (leg name j s').blank = true ∧ (leg name j s).blank = true) :
    Calm name s s' where
  legs i := by
    by_cases hij : i = j
    · rw [hij]
      exact hleg
    · exact .inl (leg_other ha hij)
  row := hrow
  archive_eq := by
    unfold archive
    rw [ha.frame.appDirs name hdir]
  pending_eq := by
    unfold pending
    rw [ha.frame.taskQueue hqueue]
  unpacked := by
    rw [Unpacked, ha.follows.issued]
    refine or_iff_right fun hop => hdir ?_
    rw [hop]
    rfl

theorem Inv.not_moved (h : Inv name s) (hrow : s.world.status name ≠ none) (i : Call) (zip : AppArchive) :
    leg name i s ≠ .moved zip := fun hleg => hrow (h.alone i zip hleg).1

theorem Inv.check {r : Answer (.contains name)} (h : Inv name s) (ha : Act E j s (.contains name) r s')
    (hrole : j.role = .installRequest) (hleg : leg name j s = .fresh) : Inv name s' := by
  refine h.calm (calm_of ha (by rw [ha.frame.status name rfl]) nofun rfl (.inr ⟨?_, by rw [hleg]; rfl⟩))
  rw [leg_upload ha hrole, hleg]
  obtain _ | (_ | _) := r <;> rfl

theorem Inv.notify {r : Answer .onAppsUpdate} {zip : AppArchive} (h : Inv name s) (ha : Act E j s .onAppsUpdate r s')
    (hrole : j.role = .installRequest) (hleg : leg name j s = .accepted zip true) : Inv name s' := by
  refine h.calm (calm_of ha (by rw [ha.frame.status name rfl]) nofun rfl (.inl ?_))
  rw [leg_upload ha hrole, hleg]
  rfl

theorem Inv.elsewhere (h : Inv name s) (ha : Act E worker s op r s') (hop : Apart name op)
    (hleg : leg name worker s = .elsewhere) : Inv name s' := by
  refine h.calm (calm_of ha (by rw [ha.frame.status name hop.row]) hop.dir hop.queue
    (.inr ⟨?_, by rw [hleg]; rfl⟩))
  rw [leg_worker ha, hleg]
  cases op with
  | dequeue => cases hop.queue
  | _ => rfl

theorem Act.row_iff (ha : Act E j s op r s') (hop : Op.minor op = true) :
    s'.world.status name = none ↔ s.world.status name = none := by
  cases ha.statusStep name with
  | same h => rw [h]
  | inserted hname h => cases hop
  | updated hrow h =>
    rw [h]
    exact ⟨nofun, fun hnone => absurd hnone hrow⟩
  | removed h => cases hop

theorem Inv.before (h : Inv name s) (ha : Act E worker s op r s') (hop : Op.minor op = true)
    (hdir : op.appDir = none) (hleg : leg name worker s = .installing false) : Inv name s' := by
  have hqueue : op.queues = false := by cases op <;> first | rfl | cases hop
  refine h.calm (calm_of ha (Act.row_iff ha hop) (by rw [hdir]; exact nofun) hqueue (.inl ?_))
  rw [leg_worker ha, hleg]
  cases op <;> first | rfl | cases hop

theorem mem_of_leg {log : List Event} (h : legOf name i log ≠ .fresh) : ∃ e ∈ log, e.call = i := by
  induction log with
  | nil => exact absurd rfl h
  | cons e log ih =>
    by_cases he : e.call = i
    · exact ⟨e, List.mem_cons_self, he⟩
    · rw [legOf, if_neg he] at h
      obtain ⟨e', hmem, hcall⟩ := ih h
      exact ⟨e', List.mem_cons_of_mem _ hmem, hcall⟩

theorem Inv.not_accepted (h : Inv name s) (hrow : s.world.status name = none) (i : Call) (zip : AppArchive)
    (enqueued : Bool) : leg name i s ≠ .accepted zip enqueued := fun hleg => h.row i zip enqueued hleg hrow

theorem Inv.early (h : Inv name s) (hnone : ∀ i zip, leg name i s ≠ .accepted zip true) :
    pending name s = [] ∧ (∀ unpacked, leg name worker s ≠ .installing unpacked) ∧ ¬ Unpacked name s.log := by
  cases h.course with
  | early _ hpending hworker hpacked => exact ⟨hpending, hworker, hpacked⟩
  | queued hdone _ _ _ | taken hdone _ _ _ | past hdone _ _ _ => exact absurd hdone (hnone _ _)

/-- A leg after a step is the performing call's new one or an old one of another call. -/
theorem leg_cases (ha : Act E j s op r s') {own l : Leg} (hown : leg name j s' = own) (hl : leg name i s' = l) :
    (i = j ∧ l = own) ∨ (i ≠ j ∧ leg name i s = l) := by
  by_cases hij : i = j
  · subst hij
    exact .inl ⟨rfl, hl.symm.trans hown⟩
  · exact .inr ⟨hij, (leg_other ha hij).symm.trans hl⟩

theorem Inv.move {zip : AppArchive} {r : Answer (.moveUploadedZip name zip)} (h : Inv name s)
    (ha : Act (soleMover name) j s (.moveUploadedZip name zip) r s') (hrole : j.role = .installRequest)
    (hleg : leg name j s = .fresh) : Inv name s' := by
  obtain ⟨c, ⟨-, rfl, hrow, hothers⟩, he⟩ := ha.inv
  obtain ⟨rfl, hw⟩ := Prod.mk.inj (Option.some.inj he)
  have hown : leg name j s' = .moved zip := by
    rw [leg_upload ha hrole, hleg]
    rfl
  have hmoved : ∀ i zip', leg name i s ≠ .moved zip' := by
    intro i zip' hi
    have hfresh : legOf name i s.log ≠ .fresh := by
      rw [← leg, hi]
      exact fun h => by cases h
    obtain ⟨e, hmem, rfl⟩ := mem_of_leg hfresh
    have hwaits := hothers e hmem
    rw [hi] at hwaits
    cases hwaits
  have haccepted : ∀ i zip' enqueued, leg name i s' ≠ .accepted zip' enqueued := by
    intro i zip' enqueued hi
    obtain ⟨-, ⟨⟩⟩ | ⟨-, hi⟩ := leg_cases ha hown hi
    exact h.not_accepted hrow i zip' enqueued hi
  refine ⟨fun i zip' hi => ?_, fun hi => ?_, fun i zip' hi => ?_, fun i zip' enqueued hi => ?_,
    fun i _ zip' _ enqueued _ hi => ?_, fun i zip' enqueued hi => ?_, ?_⟩
  · obtain ⟨-, ⟨⟩⟩ | ⟨-, hi⟩ := leg_cases ha hown hi
    exact h.kept i zip' hi
  · obtain ⟨-, ⟨⟩⟩ | ⟨-, hi⟩ := leg_cases ha hown hi
    exact h.apart hi
  · obtain ⟨rfl, ⟨⟩⟩ | ⟨-, hi⟩ := leg_cases ha hown hi
    · refine ⟨?_, ?_, fun j zip'' hj => ?_⟩
      · rw [← hw]
        exact hrow
      · rw [← hw, archive_setDir]
        rfl
      · obtain ⟨rfl, -⟩ | ⟨-, hj⟩ := leg_cases ha hown hj
        · rfl
        · exact absurd hj (hmoved j zip'')
    · exact absurd hi (hmoved i zip')
  · exact absurd hi (haccepted i zip' enqueued)
  · exact absurd hi (haccepted i zip' enqueued)
  · exact absurd hi (haccepted i zip' enqueued)
  · obtain ⟨hpending, hworker, hpacked⟩ := h.early fun i zip' => h.not_accepted hrow i zip' true
    refine .early (fun i zip' => haccepted i zip' true) ?_ (fun unpacked hi => ?_) ?_
    · rw [pending, ha.frame.taskQueue rfl]
      exact hpending
    · obtain ⟨-, ⟨⟩⟩ | ⟨-, hi⟩ := leg_cases ha hown hi
      exact hworker unpacked hi
    · rw [Unpacked, ha.follows.issued]
      rintro (⟨⟨⟩⟩ | hissued)
      exact hpacked hissued

theorem Inv.insert {app : InstalledApp} {zip : AppArchive} {r : Answer (.insert app)} (h : Inv name s)
    (hE : E ≤ Env.reliable) (ha : Act E j s (.insert app) r s') (hrole : j.role = .installRequest)
    (happ : app.name = name) (hleg : leg name j s = .moved zip) : Inv name s' := by
  obtain ⟨hrow, harchive, honly⟩ := h.alone j zip hleg
  have hinserted : r = .ok () ∧ s'.world.status name ≠ none := by
    have he := ha.internal hE rfl
    simp only [World.effect] at he
    split at he
    · next apps hins =>
      obtain ⟨hr, hw⟩ := Prod.mk.inj (Option.some.inj he)
      refine ⟨hr.symm, ?_⟩
      have hstatus := InstalledApps.status_insert hins name
      rw [if_pos happ] at hstatus
      rw [← hw]
      exact Option.ne_none_iff_exists'.mpr ⟨_, hstatus⟩
    · next hins =>
      have hfull := InstalledApps.insert_eq_none.mp hins
      rw [happ] at hfull
      exact absurd hrow (Option.isSome_iff_ne_none.mp hfull)
  obtain ⟨rfl, hrow'⟩ := hinserted
  have hown : leg name j s' = .accepted zip false := by
    rw [leg_upload ha hrole, hleg]
    rfl
  have hdir : archive name s'.world = archive name s.world := by
    rw [archive, ha.frame.appDirs name fun h => by cases h]
    rfl
  have haccepted : ∀ i zip' enqueued, leg name i s' = .accepted zip' enqueued →
      i = j ∧ zip' = zip ∧ enqueued = false := by
    intro i zip' enqueued hi
    obtain ⟨rfl, hsame⟩ | ⟨-, hi⟩ := leg_cases ha hown hi
    · cases hsame
      exact ⟨rfl, rfl, rfl⟩
    · exact absurd hi (h.not_accepted hrow i zip' enqueued)
  refine ⟨fun i zip' hi => ?_, fun hi => ?_, fun i zip' hi => ?_, fun _ _ _ _ => hrow',
    fun i i' zip' zip'' enqueued enqueued' hi hi' => ?_, fun i zip' enqueued hi _ => ?_, ?_⟩
  · obtain ⟨-, ⟨⟩⟩ | ⟨-, hi⟩ := leg_cases ha hown hi
    exact h.kept i zip' hi
  · obtain ⟨-, ⟨⟩⟩ | ⟨-, hi⟩ := leg_cases ha hown hi
    exact h.apart hi
  · obtain ⟨-, ⟨⟩⟩ | ⟨hij, hi⟩ := leg_cases ha hown hi
    exact absurd (honly i zip' hi) hij
  · exact (haccepted i zip' enqueued hi).1.trans (haccepted i' zip'' enqueued' hi').1.symm
  · obtain ⟨-, rfl, -⟩ := haccepted i zip' enqueued hi
    exact hdir.trans harchive
  · obtain ⟨hpending, hworker, hpacked⟩ := h.early fun i zip' => h.not_accepted hrow i zip' true
    refine .early (fun i zip' hi => ?_) ?_ (fun unpacked hi => ?_) ?_
    · cases (haccepted i zip' true hi).2.2
    · rw [pending, ha.frame.taskQueue rfl]
      exact hpending
    · obtain ⟨-, ⟨⟩⟩ | ⟨-, hi⟩ := leg_cases ha hown hi
      exact hworker unpacked hi
    · rw [Unpacked, ha.follows.issued]
      rintro (⟨⟨⟩⟩ | hissued)
      exact hpacked hissued

theorem Inv.enqueue {zip : AppArchive} {r : Answer (.enqueue (task name))} (h : Inv name s)
    (hE : E ≤ Env.reliable) (ha : Act E j s (.enqueue (task name)) r s') (hrole : j.role = .installRequest)
    (hleg : leg name j s = .accepted zip false) : Inv name s' := by
  have hrow : s'.world.status name ≠ none := by
    rw [ha.frame.status name rfl]
    exact h.row j zip false hleg
  have hown : leg name j s' = .accepted zip true := by
    rw [leg_upload ha hrole, hleg]
    rfl
  have hdir : archive name s'.world = archive name s.world := by
    rw [archive, ha.frame.appDirs name fun h => by cases h]
    rfl
  have hpacked : Unpacked name s'.log ↔ Unpacked name s.log := by
    rw [Unpacked, ha.follows.issued]
    exact or_iff_right nofun
  have haccepted : ∀ i zip' enqueued, leg name i s' = .accepted zip' enqueued → i = j ∧ zip' = zip := by
    intro i zip' enqueued hi
    obtain ⟨rfl, hsame⟩ | ⟨hij, hi⟩ := leg_cases ha hown hi
    · cases hsame
      exact ⟨rfl, rfl⟩
    · exact absurd (h.unique i j zip' zip enqueued false hi hleg) hij
  refine ⟨fun i zip' hi => ?_, fun hi => ?_, fun i zip' hi => ?_, fun _ _ _ _ => hrow,
    fun i i' zip' zip'' enqueued enqueued' hi hi' => ?_, fun i zip' enqueued hi hnot => ?_, ?_⟩
  · obtain ⟨-, ⟨⟩⟩ | ⟨-, hi⟩ := leg_cases ha hown hi
    exact h.kept i zip' hi
  · obtain ⟨-, ⟨⟩⟩ | ⟨-, hi⟩ := leg_cases ha hown hi
    exact h.apart hi
  · obtain ⟨-, ⟨⟩⟩ | ⟨-, hi⟩ := leg_cases ha hown hi
    exact absurd hi (h.not_moved (h.row j zip false hleg) i zip')
  · exact (haccepted i zip' enqueued hi).1.trans (haccepted i' zip'' enqueued' hi').1.symm
  · obtain ⟨-, rfl⟩ := haccepted i zip' enqueued hi
    rw [hdir]
    exact h.stored j zip' false hleg fun hunpacked => hnot (hpacked.mpr hunpacked)
  · have hnone : ∀ i zip', leg name i s ≠ .accepted zip' true := by
      intro i zip' hi
      obtain rfl := h.unique i j zip' zip true false hi hleg
      rw [hleg] at hi
      cases hi
    obtain ⟨hpending, hworker, hnot⟩ := h.early hnone
    refine .queued hown ?_ (fun unpacked hi => ?_) fun hunpacked => hnot (hpacked.mp hunpacked)
    · obtain ⟨-, hw⟩ := ha.enqueued hE
      rw [pending, hw, List.filter_append]
      show pending name s ++ _ = _
      rw [hpending]
      simp [task]
    · obtain ⟨-, ⟨⟩⟩ | ⟨-, hi⟩ := leg_cases ha hown hi
      exact hworker unpacked hi

/-- What the worker may do as far as the uploads are concerned; the app's course is another matter. -/
theorem Inv.worked (h : Inv name s) (ha : Act E worker s op r s') {own : Leg} (hown : leg name worker s' = own)
    (hzip : own.zip = none) (hastray : own ≠ .astray)
    (hrow : s'.world.status name = none ↔ s.world.status name = none)
    (hdir : archive name s'.world = archive name s.world ∨ Unpacked name s'.log ∧ s.world.status name ≠ none)
    (hcourse : Course name s') : Inv name s' := by
  have hupload : ∀ i l, l.zip ≠ none → leg name i s' = l → leg name i s = l := by
    intro i l hl hi
    obtain ⟨-, rfl⟩ | ⟨-, hi⟩ := leg_cases ha hown hi
    · exact absurd hzip hl
    · exact hi
  have hpacked : ¬ Unpacked name s'.log → ¬ Unpacked name s.log := by
    intro hnot hunpacked
    exact hnot ((ha.follows.issued _).mpr (.inr hunpacked))
  refine ⟨fun i zip hi => h.kept i zip (hupload i _ nofun hi), ?_, fun i zip hi => ?_,
    fun i zip enqueued hi hnone => h.row i zip enqueued (hupload i _ nofun hi) (hrow.mp hnone),
    fun i j zip zip' enqueued enqueued' hi hj =>
      h.unique i j zip zip' enqueued enqueued' (hupload i _ nofun hi) (hupload j _ nofun hj),
    fun i zip enqueued hi hnot => ?_, hcourse⟩
  · rw [hown]
    exact hastray
  · obtain ⟨hnone, harchive, honly⟩ := h.alone i zip (hupload i _ nofun hi)
    obtain hsame | ⟨-, hsome⟩ := hdir
    · exact ⟨hrow.mpr hnone, hsame.trans harchive, fun j zip' hj => honly j zip' (hupload j _ nofun hj)⟩
    · exact absurd hnone hsome
  · obtain hsame | ⟨hunpacked, -⟩ := hdir
    · exact hsame.trans (h.stored i zip enqueued (hupload i _ nofun hi) (hpacked hnot))
    · exact absurd hunpacked hnot

theorem Inv.dequeue {r : Answer .dequeue} (h : Inv name s) (hE : E ≤ Env.reliable)
    (ha : Act E worker s .dequeue r s') (hleg : leg name worker s = .fresh) : Inv name s' := by
  obtain ⟨dequeued, rest, hqueue, rfl, hw⟩ := ha.dequeued hE
  have hrow : s'.world.status name = none ↔ s.world.status name = none := by rw [ha.frame.status name rfl]
  have hdir : archive name s'.world = archive name s.world := by
    rw [archive, ha.frame.appDirs name fun h => by cases h]
    rfl
  have hpacked : Unpacked name s'.log ↔ Unpacked name s.log := by
    rw [Unpacked, ha.follows.issued]
    exact or_iff_right nofun
  have hafter : leg name worker s' = taken name dequeued := by
    rw [leg_worker ha, hleg]
    rfl
  have hrest : pending name s' = rest.filter fun queued => queued.appName = name := by rw [pending, hw]
  have hall : pending name s = (dequeued :: rest).filter fun queued => queued.appName = name := by
    rw [pending, hqueue]
  by_cases happ : dequeued.appName = name
  · rw [List.filter_cons_of_pos (by simpa using happ), ← hrest] at hall
    have hupload : ∀ {i zip}, leg name i s = .accepted zip true → leg name i s' = .accepted zip true := by
      intro i zip hi
      have hne : i ≠ worker := by
        rintro rfl
        rw [hleg] at hi
        cases hi
      rw [leg_other ha hne, hi]
    cases h.course with
    | early _ hpending _ _ | taken _ hpending _ _ | past _ hpending _ _ =>
      rw [hpending] at hall
      cases hall
    | queued hdone hpending hworker hnot =>
      rw [hpending] at hall
      obtain ⟨rfl, hnil⟩ := List.cons.inj hall
      have hown : leg name worker s' = .installing false := by
        rw [hafter, taken, Leg.afterWorker, if_pos rfl]
      refine h.worked ha hown rfl nofun hrow (.inl hdir) ?_
      exact .taken (hupload hdone) hnil.symm hown fun hunpacked => hnot (hpacked.mp hunpacked)
  · rw [List.filter_cons_of_neg (by simpa using happ), ← hrest] at hall
    have hown : leg name worker s' = .elsewhere := by
      have hne : dequeued ≠ task name := by
        rintro rfl
        exact happ rfl
      rw [hafter, taken, Leg.afterWorker, if_neg hne, if_neg happ]
    refine h.calm ⟨fun i => ?_, hrow, hdir, hall.symm, hpacked⟩
    by_cases hi : i = worker
    · rw [hi, hown, hleg]
      exact .inr ⟨rfl, rfl⟩
    · exact .inl (leg_other ha hi)

theorem Inv.finish {r : Answer .taskDone} (h : Inv name s) (ha : Act E worker s .taskDone r s')
    (hzip : (leg name worker s).zip = none) : Inv name s' := by
  have hrow : s'.world.status name = none ↔ s.world.status name = none := by rw [ha.frame.status name rfl]
  have hdir : archive name s'.world = archive name s.world := by
    rw [archive, ha.frame.appDirs name fun h => by cases h]
    rfl
  have hpacked : Unpacked name s'.log ↔ Unpacked name s.log := by
    rw [Unpacked, ha.follows.issued]
    exact or_iff_right nofun
  have hown : leg name worker s' = .fresh := by
    rw [leg_worker ha]
    cases leg name worker s <;> rfl
  have hqueue : pending name s' = pending name s := by
    rw [pending, ha.frame.taskQueue rfl]
    rfl
  have hfree : ∀ unpacked, leg name worker s' ≠ .installing unpacked := by
    intro unpacked
    rw [hown]
    exact nofun
  have hupload : ∀ i zip, leg name i s = .accepted zip true → leg name i s' = .accepted zip true := by
    intro i zip hi
    have hne : i ≠ worker := by
      rintro rfl
      rw [hi] at hzip
      cases hzip
    rw [leg_other ha hne, hi]
  refine h.worked ha hown rfl nofun hrow (.inl hdir) ?_
  cases h.course with
  | early hnone hpending hworker hnot =>
    refine .early (fun i zip hi => ?_) (hqueue.trans hpending) hfree fun hunpacked => hnot (hpacked.mp hunpacked)
    obtain ⟨-, ⟨⟩⟩ | ⟨-, hi⟩ := leg_cases ha hown hi
    exact hnone i zip hi
  | queued hdone hpending hworker hnot =>
    exact .queued (hupload _ _ hdone) (hqueue.trans hpending) hfree fun hunpacked => hnot (hpacked.mp hunpacked)
  | taken hdone hpending hworker hnot =>
    exact .past (hupload _ _ hdone) (hqueue.trans hpending) (hfree false) fun hi => absurd hi (hfree true)
  | past hdone hpending hworker hunpacked =>
    exact .past (hupload _ _ hdone) (hqueue.trans hpending) (hfree false) fun hi => absurd hi (hfree true)

theorem Inv.install {unpacked : Bool} (h : Inv name s) (ha : Act E worker s op r s')
    (hleg : leg name worker s = .installing unpacked) (hown : leg name worker s' = .installing true)
    (hrow : s'.world.status name = none ↔ s.world.status name = none) (hqueue : op.queues = false)
    (hunpacked : Unpacked name s'.log) : Inv name s' := by
  have hpending : pending name s' = pending name s := by
    rw [pending, ha.frame.taskQueue hqueue]
    rfl
  have hpast : ∀ {i zip}, leg name i s = .accepted zip true → pending name s = [] → Inv name s' := by
    intro i zip hdone hnil
    have hne : i ≠ worker := by
      rintro rfl
      rw [hleg] at hdone
      cases hdone
    refine h.worked ha hown rfl nofun hrow (.inr ⟨hunpacked, h.row i zip true hdone⟩) ?_
    refine .past ((leg_other ha hne).trans hdone) (hpending.trans hnil) ?_ fun _ => hunpacked
    rw [hown]
    exact nofun
  cases h.course with
  | early _ _ hworker _ | queued _ _ hworker _ => exact absurd hleg (hworker unpacked)
  | taken hdone hnil _ _ | past hdone hnil _ _ => exact hpast hdone hnil

theorem Inv.unpack {r : Answer (.extractAppZip name)} (h : Inv name s)
    (ha : Act E worker s (.extractAppZip name) r s') (hleg : leg name worker s = .installing false) :
    Inv name s' := by
  refine h.install ha hleg ?_ (by rw [ha.frame.status name rfl]) rfl ((ha.follows.issued _).mpr (.inl rfl))
  rw [leg_worker ha, hleg]
  cases r <;> rfl

theorem Inv.later (h : Inv name s) (ha : Act E worker s op r s') (hop : Op.minor op = true)
    (hleg : leg name worker s = .installing true) : Inv name s' := by
  have hunpacked : Unpacked name s.log := by
    cases h.course with
    | early _ _ hworker _ | queued _ _ hworker _ => exact absurd hleg (hworker true)
    | taken _ _ hworker _ =>
      rw [hleg] at hworker
      cases hworker
    | past _ _ _ hunpacked => exact hunpacked hleg
  have hqueue : op.queues = false := by cases op <;> first | rfl | cases hop
  refine h.install ha hleg ?_ (Act.row_iff ha hop) hqueue ((ha.follows.issued _).mpr (.inr hunpacked))
  rw [leg_worker ha, hleg]
  cases op <;> first | rfl | cases hop

theorem Inv.step (h : Inv name s) (ha : Act (soleMover name) j s op r s') {p : Coro Unit} (hp : Starts name j p)
    (hop : (protocol name j.role).allows (leg name j s) op) : Inv name s' := by
  have hE : soleMover name ≤ Env.reliable := fun _ _ _ _ h => h.1
  obtain ⟨role, id⟩ := j
  cases role with
  | installRequest =>
    generalize hleg : leg name ⟨.installRequest, id⟩ s = l at hop
    cases (hop : RequestAllows name l op) with
    | check => exact h.check ha rfl hleg
    | move zip => exact h.move ha rfl hleg
    | insert happ => exact h.insert hE ha rfl happ hleg
    | enqueue => exact h.enqueue hE ha rfl hleg
    | notify => exact h.notify ha rfl hleg
  | worker =>
    obtain rfl : id = 0 := hp.1
    generalize hleg : leg name ⟨.worker, 0⟩ s = l at hop
    cases (hop : WorkerAllows name l op) with
    | dequeue => exact h.dequeue hE ha hleg
    | finish hzip => exact h.finish ha (hleg ▸ hzip)
    | unpack => exact h.unpack ha hleg
    | before hminor hdir => exact h.before ha hminor hdir hleg
    | later hminor => exact h.later ha hminor hleg
    | elsewhere hapart => exact h.elsewhere ha hapart hleg
    | astray _ => exact absurd hleg h.apart
  | _ => exact hp.elim

/-! ## Runs -/

theorem Leg.zip_afterWorker {l : Leg} (h : (l.afterWorker name op r).zip ≠ none) : l.zip ≠ none := by
  unfold Leg.afterWorker at h
  split at h
  · split_ifs at h <;> exact absurd rfl h
  · exact absurd rfl h
  · exact absurd rfl h
  · exact h

/-- What a step of a run shows. -/
structure Shows (name : String) (step : PastStep) : Prop where
  event : step.event.op = .extractAppZip name → ∃ i zip, Accepted name i zip step.before.log ∧
    archive name step.before.world = some zip
  dir : step.event.call.role = .installRequest → (∃ zip, moves name zip step.event = true) ∨
    step.after.appDirs name = step.before.world.appDirs name

/-- The invariant of a run. -/
structure Inv.Run (name : String) (s : State) : Prop where
  inv : Inv name s
  upload : ∀ i, (leg name i s).zip ≠ none → i.role = .installRequest
  told : ∀ i, i.role = .installRequest → Told name i s
  shows : ∀ step ∈ s.steps, Shows name step

theorem Inv.Run.accepted (h : Inv.Run name s) {zip : AppArchive} {enqueued : Bool}
    (hleg : leg name i s = .accepted zip enqueued) : Accepted name i zip s.log := by
  have hrole := h.upload i (by rw [hleg]; exact nofun)
  have hmoved := ((h.told i hrole).moved zip).mpr (by rw [hleg]; rfl)
  exact ⟨hrole, hmoved, (h.told i hrole).inserted.mpr ⟨zip, enqueued, hleg⟩⟩

theorem Inv.Run.showsNext (h : Inv.Run name s) (ha : Act (soleMover name) j s op r s') {p : Coro Unit}
    (hp : Starts name j p) (hop : (protocol name j.role).allows (leg name j s) op) :
    Shows name ⟨s, ⟨j, op, r, s.world⟩, s'.world⟩ := by
  obtain ⟨role, id⟩ := j
  cases role with
  | installRequest =>
    generalize hleg : leg name ⟨.installRequest, id⟩ s = l at hop
    refine ⟨fun hextract => ?_, fun _ => ?_⟩
    · have hextract : op = .extractAppZip name := hextract
      subst hextract
      cases (hop : RequestAllows name l _)
    · cases (hop : RequestAllows name l op) with
      | move zip =>
        obtain ⟨c, ⟨-, rfl, -⟩, he⟩ := ha.inv
        obtain ⟨rfl, -⟩ := Prod.mk.inj (Option.some.inj he)
        refine .inl ⟨zip, ?_⟩
        rw [moves, beq_self_eq_true, Bool.true_and]
        rfl
      | check | insert _ | enqueue | notify => exact .inr (ha.frame.appDirs name nofun)
  | worker =>
    obtain rfl : id = 0 := hp.1
    refine ⟨fun hextract => ?_, nofun⟩
    have hextract : op = .extractAppZip name := hextract
    subst hextract
    generalize hleg : leg name ⟨.worker, 0⟩ s = l at hop
    cases (hop : WorkerAllows name l _) with
    | unpack =>
      cases h.inv.course with
      | early _ _ hworker _ | queued _ _ hworker _ => exact absurd hleg (hworker false)
      | past _ _ hworker _ => exact absurd hleg hworker
      | taken hdone _ _ hpacked => exact ⟨_, _, h.accepted hdone, h.inv.stored _ _ _ hdone hpacked⟩
    | before hminor _ | later hminor => cases hminor
    | elsewhere hapart => exact absurd rfl hapart.dir
    | astray _ => exact absurd hleg h.inv.apart
  | _ => exact hp.elim

theorem Inv.Run.step (h : Inv.Run name s) (ha : Act (soleMover name) j s op r s') {p : Coro Unit}
    (hp : Starts name j p) (hop : (protocol name j.role).allows (leg name j s) op) : Inv.Run name s' where
  inv := h.inv.step ha hp hop
  upload i hzip := by
    by_cases hij : i = j
    · subst hij
      obtain ⟨role, id⟩ := i
      cases role with
      | installRequest => rfl
      | worker =>
        rw [leg_self ha] at hzip
        exact h.upload _ (Leg.zip_afterWorker hzip)
      | _ => exact hp.elim
    · rw [leg_other ha hij] at hzip
      exact h.upload i hzip
  told i hi := by
    by_cases hij : i = j
    · subst hij
      have hallows : RequestAllows name (leg name i s) op := by
        rw [hi] at hop
        exact hop
      exact (h.told i hi).own ha hi hallows
    · exact (h.told i hi).other ha hij
  shows := by
    rw [ha.follows.steps]
    exact List.forall_mem_cons.mpr ⟨h.showsNext ha hp hop, h.shows⟩

theorem Inv.Run.idle {w : World} (hqueue : ∀ queued ∈ w.taskQueue, queued.appName ≠ name) :
    Inv.Run name ⟨w, []⟩ where
  inv := by
    have hfresh : ∀ i l, l ≠ .fresh → leg name i ⟨w, []⟩ ≠ l := fun i l hl hleg => hl hleg.symm
    have hnothing : pending name ⟨w, []⟩ = [] := by
      rw [pending, List.filter_eq_nil_iff]
      intro queued hmem
      rw [decide_eq_true_eq]
      exact hqueue queued hmem
    have hmoved : ∀ i zip, leg name i ⟨w, []⟩ ≠ .moved zip := fun i zip => hfresh i _ (by simp)
    have haccepted : ∀ i zip enqueued, leg name i ⟨w, []⟩ ≠ .accepted zip enqueued :=
      fun i zip enqueued => hfresh i _ (by simp)
    refine ⟨fun i zip => hfresh i _ (by simp), hfresh worker _ (by simp), fun i zip hi => absurd hi (hmoved i zip),
      fun i zip enqueued hi => absurd hi (haccepted i zip enqueued),
      fun i _ zip _ enqueued _ hi => absurd hi (haccepted i zip enqueued),
      fun i zip enqueued hi => absurd hi (haccepted i zip enqueued), ?_⟩
    exact .early (fun i zip => haccepted i zip true) hnothing (fun unpacked => hfresh worker _ (by simp))
      (not_issued_nil _)
  upload _ hzip := absurd rfl hzip
  told i _ := by
    have hnone : ∀ P, ¬ Did i P [] := by
      rintro P ⟨e, hmem, -⟩
      cases hmem
    refine ⟨fun zip => ⟨fun h => absurd h (hnone _), fun h => by cases h⟩, ⟨fun h => absurd h (hnone _), ?_⟩,
      fun h => absurd h (hnone _)⟩
    rintro ⟨zip, enqueued, hleg⟩
    cases hleg
  shows step hmem := by cases hmem

theorem Inv.Run.leg_of_accepted (h : Inv.Run name s) {zip : AppArchive} (ha : Accepted name i zip s.log) :
    ∃ enqueued, leg name i s = .accepted zip enqueued := by
  obtain ⟨zip', enqueued, hleg⟩ := (h.told i ha.role).inserted.mp ha.inserted
  have hzip := ((h.told i ha.role).moved zip).mp ha.moved
  rw [hleg] at hzip
  obtain rfl := Option.some.inj hzip
  exact ⟨enqueued, hleg⟩

theorem mem_log_of_mem_steps {log : List Event} {w : World} {step : PastStep} (h : step ∈ pastSteps log w) :
    step.event ∈ log := by
  induction log generalizing w with
  | nil => cases h
  | cons e log ih =>
    obtain rfl | hmem := List.mem_cons.mp h
    · exact List.mem_cons_self
    · exact List.mem_cons_of_mem _ (ih hmem)

/-- If every upload is alone when it moves its archive, then at most one upload is accepted, its archive is the
one that the worker installs, and rejected uploads leave the app's directory as it was. -/
theorem uploads_exclusive (name : String) (w : World) (c : Config Op Ans Exn State Call)
    (hqueue : ∀ queued ∈ w.taskQueue, queued.appName ≠ name)
    (hc : Reaches (Act (soleMover name)) (Starts name) (.idle ⟨w, []⟩) c) : Exclusive name c.state := by
  have hrun : Inv.Run name c.state := by
    refine Reaches.invariant_allowed (tracks (soleMover name) name) (fun _ _ hp => hp.conforms)
      (fun j s op r s' hp hop hs ha => ?_) hc (Conforming.idle fun _ => rfl) (Inv.Run.idle hqueue)
    obtain ⟨p, hp⟩ := hp
    exact hs.step ha hp hop
  refine ⟨fun i j zip zip' hi hj => ?_, fun i zip hi hpacked => ?_, fun step hmem => (hrun.shows step hmem).event,
    fun i hi step hmem hcall => ?_⟩
  · obtain ⟨enqueued, hleg⟩ := hrun.leg_of_accepted hi
    obtain ⟨enqueued', hleg'⟩ := hrun.leg_of_accepted hj
    obtain rfl := hrun.inv.unique i j zip zip' enqueued enqueued' hleg hleg'
    rw [hleg] at hleg'
    cases hleg'
    exact ⟨rfl, rfl⟩
  · obtain ⟨enqueued, hleg⟩ := hrun.leg_of_accepted hi
    exact hrun.inv.stored i zip enqueued hleg hpacked
  · obtain ⟨zip, hmoves⟩ | hsame := (hrun.shows step hmem).dir (hcall ▸ hi.role)
    · have hzip := ((hrun.told i hi.role).moved zip).mp ⟨step.event, mem_log_of_mem_steps hmem, hcall, hmoves⟩
      obtain hleg | ⟨zip', hleg⟩ := (hrun.told i hi.role).rejected hi.refused
      · rw [hleg] at hzip
        cases hzip
      · exact absurd hleg (hrun.inv.kept i zip')
    · exact hsame

/-! ## Two runs -/

instance (name : String) (s : State) (i : Call) (op : Op) (c : Choice) : Decidable (soleMover name s i op c) := by
  unfold soleMover
  refine @instDecidableAnd _ _ _ ?_
  split <;> infer_instance

theorem exists_upload_run (name : String) (E : Env) [∀ s i op c, Decidable (E s i op c)] (w : World)
    (script : List (Move Op Ans Exn Call Choice)) (P : State → Bool)
    (hstart : ∀ i p, .start i p ∈ script → Starts name i p)
    (h : ((Config.idle ⟨w, []⟩).play (State.exec E) script).any (fun c => P c.state) = true) :
    ∃ c, Reaches (Act E) (Starts name) (.idle ⟨w, []⟩) c ∧ P c.state = true := by
  obtain ⟨c, hplay, hP⟩ := (Option.any_eq_true _ _).mp h
  have hexec : ∀ i s op c r s', State.exec E i s op c = some (r, s') → Act E i s op r s' :=
    fun _ _ _ _ _ _ => State.exec_act
  exact ⟨c, Config.play_reaches hexec hstart hplay, hP⟩

/-- Archives that differ in what they contain. -/
def archiveOf (compose : Bool) : AppArchive :=
  { appMeta := some (.accepted (.named "app")), template := true, compose := compose }

def upload (id : ℕ) : Call := ⟨.installRequest, id⟩

/-- An upload that is alone is accepted, and its archive is unpacked. -/
theorem uploads_exclusive_alone : ∃ c,
    Reaches (Act (soleMover "app")) (Starts "app") (.idle ⟨{ defaultIdentity := some "id" }, []⟩) c ∧
    Accepted "app" (upload 0) (archiveOf true) c.state.log ∧ Unpacked "app" c.state.log ∧
    Exclusive "app" c.state := by
  obtain ⟨c, hc, hP⟩ := exists_upload_run "app" (soleMover "app") { defaultIdentity := some "id" }
    (.start (upload 0) (installAppFromUploadedZip "app" (archiveOf true) .custom) ::
      List.replicate 5 (.fire (upload 0) .proceed) ++
      .start worker (Worker.run 1) :: List.replicate 5 (.fire worker .proceed))
    (fun s => decide (Did (upload 0) (moves "app" (archiveOf true)) s.log ∧ Did (upload 0) enters s.log ∧
      Unpacked "app" s.log))
    (fun i p hmem => by
      simp only [List.mem_cons, List.mem_append, List.mem_replicate] at hmem
      obtain (⟨⟨⟩⟩ | ⟨-, ⟨⟩⟩) | ⟨⟨⟩⟩ | ⟨-, ⟨⟩⟩ := hmem
      · exact ⟨_, _, rfl⟩
      · exact ⟨rfl, 1, rfl⟩)
    (by decide)
  obtain ⟨hmoved, hinserted, hunpacked⟩ := of_decide_eq_true hP
  have hexclusive := uploads_exclusive "app" _ c (fun _ hmem => absurd hmem List.not_mem_nil) hc
  exact ⟨c, hc, ⟨rfl, hmoved, hinserted⟩, hunpacked, hexclusive⟩

/-- Both uploads have checked before either has inserted; the second replaces the accepted archive. -/
theorem uploads_race : ¬ ∀ (name : String) (w : World) (c : Config Op Ans Exn State Call),
    (∀ queued ∈ w.taskQueue, queued.appName ≠ name) →
    Reaches (Act .obedient) (Starts name) (.idle ⟨w, []⟩) c → Exclusive name c.state := by
  intro h
  obtain ⟨c, hc, hP⟩ := exists_upload_run "app" .obedient { defaultIdentity := some "id" }
    [.start (upload 0) (installAppFromUploadedZip "app" (archiveOf true) .custom),
      .start (upload 1) (installAppFromUploadedZip "app" (archiveOf false) .custom),
      .fire (upload 0) .proceed, .fire (upload 1) .proceed, .fire (upload 0) .proceed, .fire (upload 0) .proceed,
      .fire (upload 1) .proceed, .fire (upload 1) .proceed]
    (fun s => decide (Did (upload 0) (moves "app" (archiveOf true)) s.log ∧ Did (upload 0) enters s.log ∧
      ¬ Unpacked "app" s.log ∧ archive "app" s.world = some (archiveOf false)))
    (fun i p hmem => by
      simp only [List.mem_cons, List.not_mem_nil, or_false, reduceCtorEq] at hmem
      obtain ⟨⟨⟩⟩ | ⟨⟨⟩⟩ := hmem
      · exact ⟨_, _, rfl⟩
      · exact ⟨_, _, rfl⟩)
    (by decide)
  obtain ⟨hmoved, hinserted, hpacked, harchive⟩ := of_decide_eq_true hP
  have hexclusive := h "app" _ c (fun _ hmem => absurd hmem List.not_mem_nil) hc
  have hstored := hexclusive.stored (upload 0) (archiveOf true) ⟨rfl, hmoved, hinserted⟩ hpacked
  rw [harchive] at hstored
  exact absurd hstored (by decide)

end Freeshard.Upload

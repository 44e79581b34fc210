import Freeshard.Lifecycle.Demotion

/-! # What a tick may decide on

Whatever the time since the last access demands, and whatever memory pressure demands, is demanded of an app that has
not been accessed recently. A low disk demands it of every app. -/

namespace Freeshard.Lifecycle
open Coroutine Coroutine.Prog
set_option autoImplicit false

variable {settings : Settings} {w : World} {issued : List Operation}

/-- The app that an operation freezes or stops. -/
def Operation.halts : Operation → Option String
  | .startApp _ => none
  | .dockerPauseApp name => some name
  | .dockerStopApp name => some name

/-- The last access is not recent. -/
def World.Idle (w : World) (name : String) : Prop := recentAccessGrace ≤ w.clock - w.lastAccess name

structure Settings.Lenient (settings : Settings) : Prop where
  idleForPause : recentAccessGrace ≤ settings.defaultIdleForPause
  idleForStop : recentAccessGrace ≤ settings.defaultIdleForStop

theorem grace_le_getD {idle : Option ℤ} {default : ℤ} (h : ∀ t ∈ idle, 5 ≤ t)
    (hdefault : recentAccessGrace ≤ default) : recentAccessGrace ≤ (idle.getD default : ℤ) := by
  cases idle with
  | none => exact hdefault
  | some t =>
    have ht : (5 : ℤ) ≤ t := h t rfl
    unfold recentAccessGrace
    exact_mod_cast ht

theorem controlAppTime_idle {app : InstalledApp} (hsettings : settings.Lenient) (pauseEnabled : Bool)
    (hdisk : w.diskSpaceLow = false) :
    ∀ operation ∈ w.issues (controlAppTime settings pauseEnabled app), ∀ name ∈ operation.halts, w.Idle name := by
  cases hmeta : w.appMetadata app.name with
  | error e =>
    unfold World.issues controlAppTime getAppMetadata
    rw [eval_bind, eval_perform]
    dsimp only [World.effect]
    rw [hmeta]
    exact fun _ hmem => absurd hmem List.not_mem_nil
  | ok appMeta =>
    have hvalid := appMeta.lifecycle.validate_combinations
    have hpause := grace_le_getD hvalid.2.2.1 hsettings.idleForPause
    have hstop := grace_le_getD hvalid.2.2.2.1 hsettings.idleForStop
    rw [World.issues, controlAppTime_eval hmeta, List.nil_append]
    intro operation hmem name hname
    have hdue : w.due settings pauseEnabled app appMeta = some operation := Option.mem_toList.mp hmem
    unfold World.due at hdue
    rw [hdisk, if_neg Bool.false_ne_true] at hdue
    split at hdue
    · split at hdue
      · cases hdue
        cases hname
      · cases hdue
    · split at hdue
      · split at hdue
        · next h =>
          cases hdue
          cases hname
          exact hstop.trans h.2
        · cases hdue
      · split at hdue
        · next h =>
          cases hdue
          cases hname
          exact hpause.trans h.2
        · split at hdue
          · next h =>
            cases hdue
            cases hname
            exact hstop.trans h.2
          · cases hdue

theorem controlAppTime_lowDisk {app : InstalledApp} (pauseEnabled : Bool) (hdisk : w.diskSpaceLow = true)
    (hread : w.Readable app = true) :
    (controlAppTime settings pauseEnabled app).eval w.effect issued =
      (.ok (), issued ++ [.dockerStopApp app.name]) := by
  cases hmeta : w.appMetadata app.name with
  | error e =>
    rw [World.Readable, hmeta] at hread
    cases hread
  | ok appMeta =>
    rw [controlAppTime_eval hmeta, World.due, if_pos hdisk]
    rfl

/-- Where some app's metadata cannot be read, the loop of `_demote_lru` raises. -/
theorem demotable_error {apps : List InstalledApp} {app : InstalledApp} (hmem : app ∈ apps)
    (h : w.Readable app = false) : ∃ e, (demotable apps).eval w.effect issued = (.error e, issued) := by
  induction apps with
  | nil => cases hmem
  | cons first apps ih =>
    unfold demotable getAppMetadata
    rw [eval_bind, eval_perform]
    dsimp only [World.effect]
    cases hmeta : w.appMetadata first.name with
    | error e => exact ⟨e, rfl⟩
    | ok appMeta =>
      obtain rfl | hmem := List.mem_cons.mp hmem
      · rw [World.Readable, hmeta] at h
        cases h
      · obtain ⟨e, he⟩ := ih hmem
        dsimp only
        split
        · exact ⟨e, he⟩
        · rw [eval_bind_ok (a := w.clock) rfl, eval_bind_ok (a := w.lastAccess first.name) rfl]
          split
          · exact ⟨e, he⟩
          · refine ⟨e, ?_⟩
            change ((demotable apps >>= _ : Coro _).eval w.effect issued) = _
            rw [eval_bind, he]

theorem demoteLru_victim {apps : List InstalledApp} {operation : Operation}
    (h : operation ∈ w.issues (demoteLru apps)) :
    ∃ victim ∈ apps, operation.halts = some victim.name ∧ w.Idle victim.name := by
  by_cases hread : ∀ app ∈ apps, w.Readable app = true
  · rw [World.issues, demoteLru_eval hread, List.nil_append, Option.mem_toList] at h
    obtain ⟨victim, appMeta, hvictim, hmeta, rfl, -⟩ := World.demotion_eq_some h
    refine ⟨victim, hvictim.mem, ?_, ?_⟩
    · unfold demotionOf
      split <;> rfl
    · have hdemotable := hvictim.candidate.1
      rw [World.Demotable, hmeta, Bool.and_eq_true, decide_eq_true_eq] at hdemotable
      exact hdemotable.2.le
  · obtain ⟨app, hmem, hread⟩ := not_forall₂.mp hread
    have herror : ∃ e, (demotable apps).eval w.effect [] = (.error e, []) :=
      demotable_error hmem (Bool.eq_false_iff.mpr hread)
    obtain ⟨e, he⟩ := herror
    unfold World.issues demoteLru at h
    rw [eval_bind, he] at h
    cases h

end Freeshard.Lifecycle

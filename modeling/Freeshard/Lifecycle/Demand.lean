import Freeshard.Lifecycle.Demotion

/-! # What a tick demands

The operations that the time since the last access and memory pressure demand, as functions of what the tick finds. -/

namespace Freeshard.Lifecycle
open Coroutine Coroutine.Prog
set_option autoImplicit false

/-- The app of an operation. -/
def Operation.target : Operation → String
  | .startApp name => name
  | .dockerPauseApp name => name
  | .dockerStopApp name => name

/-- The status that it leaves. -/
def Operation.leaves : Operation → Status
  | .startApp _ => .running
  | .dockerPauseApp _ => .paused
  | .dockerStopApp _ => .stopped

variable {settings : Settings} {w : World} {issued : List Operation} {app : InstalledApp} {appMeta : AppMeta} {apps : List InstalledApp}

/-! ## The time-based step -/

theorem controlAppTime_issues (hmeta : w.appMetadata app.name = .ok appMeta) (pauseEnabled : Bool) :
    w.issues (controlAppTime settings pauseEnabled app) = (w.due settings pauseEnabled app appMeta).toList := by
  rw [World.issues, controlAppTime_eval hmeta, List.nil_append]

/-! ## The demotion -/

theorem demoteLru_ok (h : ∀ app ∈ apps, w.Readable app = true) :
    ((demoteLru apps).eval w.effect issued).1 = .ok () := by
  rw [demoteLru_run h]

/-- The app that is demoted among these: the first running candidate with the least last access, or the first paused
one. -/
def World.preferred (w : World) (apps : List InstalledApp) : Option InstalledApp :=
  match lru w.lastAccessDict (w.candidates .running apps) with
  | some victim => some victim
  | none => lru w.lastAccessDict (w.candidates .paused apps)

theorem World.preferred_cases {victim : InstalledApp} (h : w.preferred apps = some victim) :
    w.Victim apps victim ∧ ((∃ app ∈ apps, w.Candidate app ∧ app.status = .running) → victim.status = .running) := by
  unfold World.preferred at h
  split at h
  · next hrunning =>
    obtain rfl := Option.some.inj h
    obtain ⟨hvictim, hstatus⟩ := World.victim_of_lru (.inl rfl) hrunning
    exact ⟨hvictim, fun _ => hstatus⟩
  · next hrunning =>
    refine ⟨(World.victim_of_lru (.inr rfl) h).1, ?_⟩
    rintro ⟨app, hmem, hcandidate, hstatus⟩
    exact absurd hstatus (World.no_candidate_of_lru hrunning hmem hcandidate.1)

theorem World.exists_preferred (hmem : app ∈ apps) (h : w.Candidate app) : ∃ victim, w.preferred apps = some victim := by
  unfold World.preferred
  cases hrunning : lru w.lastAccessDict (w.candidates .running apps) with
  | some victim => exact ⟨victim, rfl⟩
  | none =>
    refine Option.ne_none_iff_exists'.mp fun hpaused => ?_
    obtain hstatus | hstatus := h.2
    · exact World.no_candidate_of_lru hrunning hmem h.1 hstatus
    · exact World.no_candidate_of_lru hpaused hmem h.1 hstatus

theorem World.demotion_of_preferred {victim : InstalledApp} (h : w.preferred apps = some victim)
    (hmeta : w.appMetadata victim.name = .ok appMeta) :
    w.demotion (w.candidates .running apps) (w.candidates .paused apps) = some (demotionOf victim appMeta) := by
  unfold World.preferred at h
  unfold World.demotion demotionOf
  split at h
  · next hrunning =>
    obtain rfl := Option.some.inj h
    have hstatus := (World.victim_of_lru (.inl rfl) hrunning).2
    rw [hrunning]
    dsimp only
    rw [hmeta]
    dsimp only
    cases appMeta.lifecycle.skipPause with
    | true => rw [if_pos rfl, if_neg fun h => Bool.noConfusion h.2]
    | false => rw [if_neg Bool.false_ne_true, if_pos ⟨hstatus, rfl⟩]
  · next hrunning =>
    have hstatus := (World.victim_of_lru (.inr rfl) h).2
    rw [hrunning, h]
    dsimp only
    rw [if_neg fun hpause => by rw [hstatus] at hpause; cases hpause.1]

theorem World.demotion_eq_none (h : w.preferred apps = none) :
    w.demotion (w.candidates .running apps) (w.candidates .paused apps) = none := by
  unfold World.preferred at h
  unfold World.demotion
  split at h
  · cases h
  · next hrunning => rw [hrunning, h]

end Freeshard.Lifecycle

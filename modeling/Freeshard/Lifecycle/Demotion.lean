import Freeshard.Lifecycle.PressureRelief

/-! # The demoted app

Which app `_demote_lru` picks and what it does with it: the least recently used candidate, running ones before paused
ones, paused if it can be and stopped otherwise. -/

namespace Freeshard.Lifecycle
open Coroutine Coroutine.Prog
set_option autoImplicit false

variable {w : World} {apps : List InstalledApp}

/-- The app may be demoted now. -/
def World.Candidate (w : World) (app : InstalledApp) : Prop :=
  w.Demotable app = true ∧ (app.status = .running ∨ app.status = .paused)

/-- What a demotion of an app with this metadata is. -/
def demotionOf (victim : InstalledApp) (appMeta : AppMeta) : Operation :=
  if victim.status = .running ∧ appMeta.lifecycle.skipPause = false then .dockerPauseApp victim.name
  else .dockerStopApp victim.name

/-- The candidate of a status with the least last access. -/
structure World.Victim (w : World) (apps : List InstalledApp) (victim : InstalledApp) : Prop where
  mem : victim ∈ apps
  candidate : w.Candidate victim
  least : ∀ app ∈ apps, w.Candidate app → app.status = victim.status →
    w.lastAccess victim.name ≤ w.lastAccess app.name

theorem World.victim_of_lru {status : Status} {victim : InstalledApp}
    (hstatus : status = .running ∨ status = .paused)
    (h : lru w.lastAccessDict (w.candidates status apps) = some victim) :
    w.Victim apps victim ∧ victim.status = status := by
  obtain ⟨hmem, hdemotable, rfl⟩ := mem_candidates.mp (List.argmin_mem h)
  refine ⟨⟨hmem, ⟨hdemotable, hstatus⟩, fun app happ hcandidate hsame => ?_⟩, rfl⟩
  have hmem' := mem_candidates.mpr ⟨happ, hcandidate.1, hsame⟩
  have hle : (w.lastAccessDict victim.name).getD 0 ≤ (w.lastAccessDict app.name).getD 0 :=
    List.le_of_mem_argmin hmem' h
  exact hle

theorem World.no_candidate_of_lru {status : Status} {app : InstalledApp}
    (h : lru w.lastAccessDict (w.candidates status apps) = none) (hmem : app ∈ apps)
    (hdemotable : w.Demotable app = true) : app.status ≠ status := by
  intro hstatus
  have hcandidate := mem_candidates.mpr ⟨hmem, hdemotable, hstatus⟩
  rw [lru_eq_none.mp h] at hcandidate
  cases hcandidate

/-- A demotion is the one of a least candidate, and none that is running is left out for it. -/
theorem World.demotion_eq_some {operation : Operation}
    (h : w.demotion (w.candidates .running apps) (w.candidates .paused apps) = some operation) :
    ∃ victim appMeta, w.Victim apps victim ∧ w.appMetadata victim.name = .ok appMeta ∧
      operation = demotionOf victim appMeta ∧
      ((∃ app ∈ apps, w.Candidate app ∧ app.status = .running) → victim.status = .running) := by
  unfold World.demotion at h
  cases hrunning : lru w.lastAccessDict (w.candidates .running apps) with
  | some victim =>
    obtain ⟨hvictim, hstatus⟩ := World.victim_of_lru (.inl rfl) hrunning
    rw [hrunning] at h
    dsimp only at h
    cases hmeta : w.appMetadata victim.name with
    | error e =>
      rw [hmeta] at h
      cases h
    | ok appMeta =>
      rw [hmeta] at h
      refine ⟨victim, appMeta, hvictim, hmeta, ?_, fun _ => hstatus⟩
      unfold demotionOf
      dsimp only at h
      cases hskip : appMeta.lifecycle.skipPause with
      | true =>
        rw [hskip, if_pos rfl] at h
        rw [if_neg (fun h => Bool.noConfusion h.2)]
        exact (Option.some.inj h).symm
      | false =>
        rw [hskip, if_neg Bool.false_ne_true] at h
        rw [if_pos ⟨hstatus, rfl⟩]
        exact (Option.some.inj h).symm
  | none =>
    rw [hrunning] at h
    cases hpaused : lru w.lastAccessDict (w.candidates .paused apps) with
    | none =>
      rw [hpaused] at h
      cases h
    | some victim =>
      obtain ⟨hvictim, hstatus⟩ := World.victim_of_lru (.inr rfl) hpaused
      rw [hpaused] at h
      have hreadable := World.Demotable.readable hvictim.candidate.1
      unfold World.Readable at hreadable
      cases hmeta : w.appMetadata victim.name with
      | error e =>
        rw [hmeta] at hreadable
        cases hreadable
      | ok appMeta =>
        refine ⟨victim, appMeta, hvictim, hmeta, ?_, ?_⟩
        · unfold demotionOf
          rw [if_neg (fun hpause => by rw [hstatus] at hpause; cases hpause.1)]
          exact (Option.some.inj h).symm
        · intro hcandidate
          obtain ⟨app, hmem, ⟨hdemotable, -⟩, hrun⟩ := hcandidate
          exact absurd hrun (World.no_candidate_of_lru hrunning hmem hdemotable)

/-- `_demote_lru` issues at most one operation, and one exactly if some app that is running or paused is not always on
and was last accessed before the grace period. Its target is running if it can be, and the least recently used one of
its status; it is paused if it is running and does not skip the pause, and stopped otherwise. -/
theorem demote_lru_picks (w : World) (apps : List InstalledApp) (hread : ∀ app ∈ apps, w.Readable app = true) :
    (w.issues (demoteLru apps)).length ≤ 1 ∧
    (w.issues (demoteLru apps) ≠ [] ↔ ∃ app ∈ apps, w.Candidate app) ∧
    ∀ operation ∈ w.issues (demoteLru apps), ∃ victim appMeta,
      w.Victim apps victim ∧ w.appMetadata victim.name = .ok appMeta ∧
      operation = demotionOf victim appMeta ∧
      ((∃ app ∈ apps, w.Candidate app ∧ app.status = .running) → victim.status = .running) := by
  have hissues : w.issues (demoteLru apps) =
      (w.demotion (w.candidates .running apps) (w.candidates .paused apps)).toList := by
    rw [World.issues, demoteLru_eval hread, List.nil_append]
  rw [hissues]
  refine ⟨?_, ?_, fun operation hmem => ?_⟩
  · cases w.demotion (w.candidates .running apps) (w.candidates .paused apps) <;> simp
  · constructor
    · intro hne
      cases hdemotion : w.demotion (w.candidates .running apps) (w.candidates .paused apps) with
      | none =>
        rw [hdemotion] at hne
        exact absurd rfl hne
      | some operation =>
        obtain ⟨victim, -, hvictim, -⟩ := World.demotion_eq_some hdemotion
        exact ⟨victim, hvictim.mem, hvictim.candidate⟩
    · intro hcandidate hnil
      obtain ⟨app, hmem, hdemotable, hstatus⟩ := hcandidate
      have hsome := demotion_isSome hmem hdemotable hstatus
      rw [Option.toList_eq_nil_iff.mp hnil] at hsome
      cases hsome
  · exact World.demotion_eq_some (Option.mem_toList.mp hmem)

/-- Of two running apps the one that has not been accessed since the start is demoted. -/
theorem demote_lru_picks_unused :
    let w : World := { (World.pressed fun name => .ok { name }) with
      lastAccessDict := fun name => if name = "wiki" then some 3 else none }
    let apps : List InstalledApp :=
      [{ name := "wiki", status := .running }, { name := "notes", status := .running }]
    (∃ app ∈ apps, w.Candidate app) ∧ (w.issues (demoteLru apps)).length ≤ 1 ∧
      w.issues (demoteLru apps) ≠ [] := by
  intro w apps
  obtain ⟨hone, hiff, -⟩ := demote_lru_picks w apps fun _ _ => rfl
  have hcandidate : ∃ app ∈ apps, w.Candidate app :=
    ⟨{ name := "notes", status := .running }, List.mem_cons_of_mem _ List.mem_cons_self, by decide +kernel, .inl rfl⟩
  exact ⟨hcandidate, hone, hiff.mpr hcandidate⟩

end Freeshard.Lifecycle

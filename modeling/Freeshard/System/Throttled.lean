import Freeshard.System.Environments
import Freeshard.Util.Throttle
import Mathlib.Algebra.Order.Ring.Rat

/-! # The throttle of `start_app` in a run

Whatever else runs, and whatever becomes of the starts that pass, the throttle answers as it does to the wakes alone.
Five seconds are a multiple of the distance of neighbouring times, so their sums need no rounding. -/

namespace Freeshard
open Arithmetic Coroutine Throttle
set_option autoImplicit false

/-! ## One operation -/

namespace World
variable {w w' : World} {i : Call} {op : Op} {r : Answer op}

theorem effect_lastStart (h : w.effect i op = some (r, w')) : w'.lastStart = w.lastStart := by
  cases op with
  | getAll | getByName _ | contains _ | updateStatus _ _ | remove _ | getDefaultIdentity | setValue _ _
  | onAppsUpdate | onAppInstallError _ _ | reclaimContainer _ | enqueue _ | taskDone | rmtree _ | moveUploadedZip _ _
  | getAppMetadata _ | appExistsInStore _ | writeTraefikDyn _ =>
    cases h
    rfl
  | throttle _ => cases h
  | insert _ | getValue _ | acquire _ | release _ | compose _ _ | composePs _ _ | inspect _ _ | dequeue
  | downloadAppZip _ | unlinkZip _ | renderTemplate _ =>
    simp only [effect] at h
    split at h <;> cases h <;> rfl
  | extractAppZip _ =>
    simp only [effect] at h
    split at h
    · split at h <;> cases h <;> rfl
    · cases h
      rfl

theorem exec_lastStart {c : Choice} (hop : ∀ name, op ≠ .throttle name) (h : w.exec i op c = some (r, w')) :
    w'.lastStart = w.lastStart := by
  obtain rfl | ⟨r₀, he⟩ | ⟨_, _, _, -, rfl⟩ | ⟨name, _, rfl, -⟩ | ⟨_, _, -, rfl⟩ := exec_cases h
  · rfl
  · exact effect_lastStart he
  · rfl
  · exact absurd rfl (hop name)
  · rfl

theorem exec_throttle {name : String} {c : Choice} {r : Answer (.throttle name)}
    (h : w.exec i (.throttle name) c = some (r, w')) :
    (∃ e, r = .error e ∧ w' = w) ∨ ∃ now, r = .ok (passes (.exact ℚ) 5 (w.lastStart name) now) ∧
      w'.lastStart = if passes (.exact ℚ) 5 (w.lastStart name) now then
        Function.update w.lastStart name (some now) else w.lastStart := by
  cases c with
  | proceed => cases h
  | raise e =>
    cases h
    exact Or.inl ⟨e, rfl, rfl⟩
  | proceedRaise e => cases h
  | docker exit stack => cases h
  | leaves dir e => cases h
  | clock now =>
    refine Or.inr ⟨now, ?_⟩
    change (if passes (.exact ℚ) 5 (w.lastStart name) now then _ else _) = _ at h
    cases hpass : passes (.exact ℚ) 5 (w.lastStart name) now with
    | true =>
      rw [hpass, if_pos rfl] at h
      cases h
      exact ⟨rfl, (if_pos rfl).symm⟩
    | false =>
      rw [hpass, if_neg Bool.false_ne_true] at h
      cases h
      exact ⟨rfl, (if_neg Bool.false_ne_true).symm⟩

end World

/-! ## Runs -/

/-- A wake, as the throttle sees it. -/
abbrev Wake : Type := Throttle.Call String Unit ℚ Exn Unit

/-- The app that is woken and whether the throttle lets the wake pass. -/
def Event.wake : Event → Option (String × Bool)
  | ⟨_, .throttle name, .ok passed, _⟩ => some (name, passed)
  | _ => none

/-- The wakes of a run, first to last. -/
def State.wakes (s : State) : List (String × Bool) := (s.log.filterMap Event.wake).reverse

theorem State.wakes_next (s : State) (i : Call) (op : Op) (r : Answer op) (w' : World) :
    (s.next i op r w').wakes = s.wakes ++ (Event.wake ⟨i, op, r, s.world⟩).toList := by
  unfold State.wakes
  rw [List.filterMap_cons]
  cases Event.wake ⟨i, op, r, s.world⟩ with
  | none => exact (List.append_nil _).symm
  | some wake => exact List.reverse_cons

/-- The wakes so far are served as `throttle(5)` does. -/
def State.Throttled (s : State) : Prop := ∃ wakes : List Wake,
  s.wakes = (Throttle.serve (.exact ℚ) (fun _ => true) 5 wakes).map (fun entry => (entry.1.args, entry.2.isExecuted)) ∧
    ∀ name, (lastCallFrom (.exact ℚ) (fun _ => true) 5 ∅ wakes).lookup name = s.world.lastStart name

theorem Act.throttled {E : Env} {s s' : State} {i : Call} {op : Op} {r : Answer op} (h : Act E i s op r s')
    (hs : s.Throttled) : s'.Throttled := by
  obtain ⟨wakes, hwakes, hlast⟩ := hs
  obtain ⟨c, w', -, he, rfl⟩ := h
  by_cases hop : ∃ name, op = .throttle name
  · obtain ⟨name, rfl⟩ := hop
    obtain ⟨e, rfl, rfl⟩ | ⟨now, rfl, hstart⟩ := World.exec_throttle he
    · exact ⟨wakes, hwakes, hlast⟩
    have hprev := hlast name
    obtain ⟨wake, hkey, htime⟩ : ∃ wake : Wake, wake.args = name ∧ wake.time = now :=
      ⟨⟨name, (), now, fun _ _ => .ok ()⟩, rfl, rfl⟩
    subst hkey htime
    have hserved := wake.serve_cases (.exact ℚ) (fun _ => true) 5 (lastCallFrom (.exact ℚ) (fun _ => true) 5 ∅ wakes)
    rw [hprev] at hserved
    refine ⟨wakes ++ [wake], ?_, fun other => ?_⟩
    · rw [State.wakes_next, hwakes]
      unfold Throttle.serve
      rw [serveFrom_append, List.map_append]
      congr 1
      obtain ⟨hhash, -⟩ | ⟨-, hpass, heq⟩ | ⟨-, hpass, heq⟩ := hserved
      · cases hhash
      · rw [serveFrom_cons, heq, hpass]
        rfl
      · rw [serveFrom_cons, heq, hpass]
        rfl
    · rw [lastCallFrom_append]
      change (wake.serve (.exact ℚ) (fun _ => true) 5 _).2.lookup other = w'.lastStart other
      rw [hstart]
      obtain ⟨hhash, -⟩ | ⟨-, hpass, heq⟩ | ⟨-, hpass, heq⟩ := hserved
      · cases hhash
      · rw [heq, hpass, if_neg Bool.false_ne_true]
        exact hlast other
      · rw [heq, hpass, if_pos rfl]
        by_cases hother : other = wake.args
        · rw [hother, AList.lookup_insert, Function.update_self]
        · rw [AList.lookup_insert_ne hother, Function.update_of_ne hother]
          exact hlast other
  · have hname : ∀ name, op ≠ .throttle name := fun name heq => hop ⟨name, heq⟩
    have hwake : Event.wake ⟨i, op, r, s.world⟩ = none := by
      cases op with
      | throttle name => exact absurd rfl (hname name)
      | _ => rfl
    refine ⟨wakes, ?_, fun name => ?_⟩
    · rw [State.wakes_next, hwake, hwakes]
      exact List.append_nil _
    · rw [hlast name, ← World.exec_lastStart hname he]

theorem State.Throttled.spaced {s : State} (h : s.Throttled) :
    ∃ served : List (Served String Unit ℚ Exn Unit),
      s.wakes = served.map (fun entry => (entry.1.args, entry.2.isExecuted)) ∧
      served.Pairwise fun a b =>
        a.2.isExecuted = true → b.2.isExecuted = true → a.1.args = b.1.args → 5 < b.1.time - a.1.time := by
  obtain ⟨wakes, hwakes, -⟩ := h
  have htimes : ∀ wake ∈ wakes, (Rounding.exact ℚ).Representable wake.time := fun _ _ => rfl
  exact ⟨_, hwakes, (spaced_serveFrom (by decide) htimes).2⟩

/-- In every run the wakes of the apps pass or are dropped as `throttle(5)` serves them one after the other. -/
theorem wakes_throttled {E : Env} {start : Call → Coro Unit → Prop} {w : World} (hw : ∀ name, w.lastStart name = none)
    {c : Config Op Ans Exn State Call} (h : Reaches (Act E) start (.idle ⟨w, []⟩) c) : c.state.Throttled := by
  refine Reaches.invariant (fun i s op r s' hs ha => ha.throttled hs) h ?_
  exact ⟨[], rfl, fun name => (hw name).symm⟩

end Freeshard

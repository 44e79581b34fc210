import Freeshard.Arithmetic.Rounding
import Freeshard.Util.Dict
import Mathlib.Algebra.Order.Group.Defs
import Mathlib.Tactic.NormNum

/-! # Throttled functions

`throttle` of `util/misc.py`. Both of its wrappers update `last_call` before they run the function, and nothing else of
the process runs in between: calls that overlap or that are made by the function itself come one after the other, in the
order in which they read the clock. Times are floating-point numbers: the sum of one and a duration is rounded before it
is compared with another. -/

namespace Freeshard.Throttle
open Arithmetic
set_option autoImplicit false

/-- A call, and what it meets: what the clock reads, and what the function would do. -/
structure Call (α κ τ ε ρ : Type) where
  args : α
  kwargs : κ
  time : τ
  func : α → κ → Except ε ρ

/-- What the wrapper does. -/
inductive Result (ε ρ : Type) where
  /-- `last_call.get(args)` raises a `TypeError`. -/
  | unhashable
  /-- `None` is returned. -/
  | dropped
  /-- The function is run. -/
  | executed (outcome : Except ε ρ)

namespace Result
variable {ε ρ : Type}

def isExecuted : Result ε ρ → Bool
  | .executed _ => true
  | _ => false

def isDropped : Result ε ρ → Bool
  | .dropped => true
  | _ => false

end Result

variable {α κ τ ε ρ : Type} [DecidableEq α] [AddCommGroup τ] [LinearOrder τ] (R : Rounding τ)

/-! ## The wrapper -/

/-- `prev is None or prev + min_duration < time.time()`. -/
def passes (minDuration : τ) (prev : Option τ) (now : τ) : Bool :=
  prev.all fun prev => decide (R.rnd (prev + minDuration) < now)

/-- `wrapper_throttle`, with what `time.time()` reads in the condition and in the assignment. -/
def wrapperThrottle (hashable : α → Bool) (minDuration : τ) (func : α → κ → Except ε ρ) (args : α) (kwargs : κ)
    (checked stored : τ) (lastCall : Dict α τ) : Result ε ρ × Dict α τ :=
  if hashable args then
    if passes R minDuration (lastCall.lookup args) checked then
      (.executed (func args kwargs), lastCall.insert args stored)
    else (.dropped, lastCall)
  else (.unhashable, lastCall)

/-! ## Histories -/

variable (hashable : α → Bool) (minDuration : τ)

/-- A call with one reading of the clock. -/
def Call.serve (call : Call α κ τ ε ρ) (lastCall : Dict α τ) : Result ε ρ × Dict α τ :=
  wrapperThrottle R hashable minDuration call.func call.args call.kwargs call.time call.time lastCall

/-- A call and its result. -/
abbrev Served (α κ τ ε ρ : Type) : Type := Call α κ τ ε ρ × Result ε ρ

/-- The calls one after the other. -/
def serveFrom : Dict α τ → List (Call α κ τ ε ρ) → List (Served α κ τ ε ρ)
  | _, [] => []
  | lastCall, call :: calls =>
    let served := call.serve R hashable minDuration lastCall
    (call, served.1) :: serveFrom served.2 calls

/-- `last_call` after the calls. -/
def lastCallFrom : Dict α τ → List (Call α κ τ ε ρ) → Dict α τ
  | lastCall, [] => lastCall
  | lastCall, call :: calls => lastCallFrom (call.serve R hashable minDuration lastCall).2 calls

/-- The calls of a function that has just been decorated. -/
def serve (calls : List (Call α κ τ ε ρ)) : List (Served α κ τ ε ρ) := serveFrom R hashable minDuration ∅ calls

/-! ## One key -/

/-- The throttle of one key: which of its calls are executed, from their times alone. -/
def decisions : Option τ → List τ → List Bool
  | _, [] => []
  | prev, now :: times =>
    let passed := passes R minDuration prev now
    passed :: decisions (if passed then some now else prev) times

/-- When a key is called. -/
def timesOf (args : α) (calls : List (Call α κ τ ε ρ)) : List τ :=
  (calls.filter fun call => call.args == args).map (·.time)

/-- Which of the calls of a key are executed. -/
def executedOf (args : α) (served : List (Served α κ τ ε ρ)) : List Bool :=
  (served.filter fun entry => entry.1.args == args).map (·.2.isExecuted)

omit [AddCommGroup τ] [LinearOrder τ] in
theorem timesOf_cons (args : α) (call : Call α κ τ ε ρ) (calls : List (Call α κ τ ε ρ)) :
    timesOf args (call :: calls) =
      if call.args = args then call.time :: timesOf args calls else timesOf args calls := by
  unfold timesOf
  rw [List.filter_cons]
  by_cases hkey : call.args = args
  · rw [if_pos (beq_iff_eq.mpr hkey), if_pos hkey, List.map_cons]
  · rw [if_neg (mt beq_iff_eq.mp hkey), if_neg hkey]

omit [AddCommGroup τ] [LinearOrder τ] in
theorem executedOf_cons (args : α) (entry : Served α κ τ ε ρ) (served : List (Served α κ τ ε ρ)) :
    executedOf args (entry :: served) =
      if entry.1.args = args then entry.2.isExecuted :: executedOf args served else executedOf args served := by
  unfold executedOf
  rw [List.filter_cons]
  by_cases hkey : entry.1.args = args
  · rw [if_pos (beq_iff_eq.mpr hkey), if_pos hkey, List.map_cons]
  · rw [if_neg (mt beq_iff_eq.mp hkey), if_neg hkey]

/-! ## One call -/

variable {R hashable minDuration} {call : Call α κ τ ε ρ} {calls : List (Call α κ τ ε ρ)} {lastCall : Dict α τ}

theorem Call.serve_cases (R : Rounding τ) (hashable : α → Bool) (minDuration : τ) (call : Call α κ τ ε ρ)
    (lastCall : Dict α τ) :
    (hashable call.args = false ∧ call.serve R hashable minDuration lastCall = (.unhashable, lastCall)) ∨
    (hashable call.args = true ∧ passes R minDuration (lastCall.lookup call.args) call.time = false ∧
      call.serve R hashable minDuration lastCall = (.dropped, lastCall)) ∨
    (hashable call.args = true ∧ passes R minDuration (lastCall.lookup call.args) call.time = true ∧
      call.serve R hashable minDuration lastCall =
        (.executed (call.func call.args call.kwargs), lastCall.insert call.args call.time)) := by
  unfold serve wrapperThrottle
  cases hashable call.args with
  | false => exact Or.inl ⟨rfl, rfl⟩
  | true =>
    cases passes R minDuration (lastCall.lookup call.args) call.time with
    | false => exact Or.inr (Or.inl ⟨rfl, rfl, rfl⟩)
    | true => exact Or.inr (Or.inr ⟨rfl, rfl, rfl⟩)

theorem serveFrom_cons : serveFrom R hashable minDuration lastCall (call :: calls) =
    (call, (call.serve R hashable minDuration lastCall).1) ::
      serveFrom R hashable minDuration (call.serve R hashable minDuration lastCall).2 calls := rfl

theorem map_serveFrom (R : Rounding τ) (hashable : α → Bool) (minDuration : τ) (lastCall : Dict α τ)
    (calls : List (Call α κ τ ε ρ)) :
    (serveFrom R hashable minDuration lastCall calls).map (·.1) = calls := by
  induction calls generalizing lastCall with
  | nil => rfl
  | cons call calls ih => rw [serveFrom_cons, List.map_cons, ih]

theorem serveFrom_append (calls more : List (Call α κ τ ε ρ)) :
    serveFrom R hashable minDuration lastCall (calls ++ more) =
      serveFrom R hashable minDuration lastCall calls ++
        serveFrom R hashable minDuration (lastCallFrom R hashable minDuration lastCall calls) more := by
  induction calls generalizing lastCall with
  | nil => rfl
  | cons call calls ih =>
    rw [List.cons_append, serveFrom_cons, ih, serveFrom_cons, List.cons_append]
    rfl

theorem lastCallFrom_append (calls more : List (Call α κ τ ε ρ)) :
    lastCallFrom R hashable minDuration lastCall (calls ++ more) =
      lastCallFrom R hashable minDuration (lastCallFrom R hashable minDuration lastCall calls) more := by
  induction calls generalizing lastCall with
  | nil => rfl
  | cons call calls ih => exact ih

theorem executedOf_serveFrom (args : α) :
    executedOf args (serveFrom R hashable minDuration lastCall calls) =
      if hashable args then decisions R minDuration (lastCall.lookup args) (timesOf args calls)
      else (timesOf args calls).map fun _ => false := by
  induction calls generalizing lastCall with
  | nil =>
    split
    · rfl
    · rfl
  | cons call calls ih =>
    rw [serveFrom_cons, executedOf_cons, timesOf_cons, ih]
    by_cases hkey : call.args = args
    · subst hkey
      rw [if_pos rfl, if_pos rfl]
      obtain ⟨hhash, heq⟩ | ⟨hhash, hpass, heq⟩ | ⟨hhash, hpass, heq⟩ :=
        call.serve_cases R hashable minDuration lastCall
      · rw [heq, hhash]
        rfl
      · rw [heq, hhash, if_pos rfl, if_pos rfl, decisions, hpass]
        rfl
      · rw [heq, hhash, if_pos rfl, if_pos rfl, decisions, hpass, AList.lookup_insert]
        rfl
    · rw [if_neg hkey, if_neg hkey]
      obtain ⟨-, heq⟩ | ⟨-, -, heq⟩ | ⟨-, -, heq⟩ := call.serve_cases R hashable minDuration lastCall
      · rw [heq]
      · rw [heq]
      · rw [heq, AList.lookup_insert_ne (Ne.symm hkey)]

theorem passes_some {prev now : τ} :
    passes R minDuration (some prev) now = true ↔ R.rnd (prev + minDuration) < now := by
  rw [passes, Option.all_some, decide_eq_true_iff]

theorem dropped_serveFrom {before after : List (Served α κ τ ε ρ)} {entry : Served α κ τ ε ρ}
    (h : serveFrom R hashable minDuration lastCall calls = before ++ entry :: after)
    (hdropped : entry.2.isDropped = true) :
    (∃ a ∈ before, a.2.isExecuted = true ∧ a.1.args = entry.1.args ∧ entry.1.time ≤ R.rnd (a.1.time + minDuration)) ∨
      ∃ prev, lastCall.lookup entry.1.args = some prev ∧ entry.1.time ≤ R.rnd (prev + minDuration) := by
  induction calls generalizing lastCall before with
  | nil => exact absurd h.symm (List.append_ne_nil_of_right_ne_nil _ (List.cons_ne_nil _ _))
  | cons call calls ih =>
    rw [serveFrom_cons] at h
    cases before with
    | nil =>
      obtain ⟨rfl, -⟩ := List.cons.inj h
      obtain ⟨-, heq⟩ | ⟨-, hpass, heq⟩ | ⟨-, -, heq⟩ := call.serve_cases R hashable minDuration lastCall
      · rw [heq] at hdropped
        cases hdropped
      · cases hprev : lastCall.lookup call.args with
        | none =>
          rw [hprev] at hpass
          cases hpass
        | some prev =>
          rw [hprev] at hpass
          refine Or.inr ⟨prev, rfl, ?_⟩
          rw [← not_lt, ← passes_some, hpass]
          exact Bool.false_ne_true
      · rw [heq] at hdropped
        cases hdropped
    | cons first before =>
      rw [List.cons_append] at h
      obtain ⟨rfl, hrest⟩ := List.cons.inj h
      obtain ⟨a, ha, hnear⟩ | ⟨prev, hprev, hnear⟩ := ih hrest
      · exact Or.inl ⟨a, List.mem_cons_of_mem _ ha, hnear⟩
      obtain ⟨-, heq⟩ | ⟨-, -, heq⟩ | ⟨-, -, heq⟩ := call.serve_cases R hashable minDuration lastCall
      · rw [heq] at hprev
        exact Or.inr ⟨prev, hprev, hnear⟩
      · rw [heq] at hprev
        exact Or.inr ⟨prev, hprev, hnear⟩
      · rw [heq] at hprev
        by_cases hkey : entry.1.args = call.args
        · rw [hkey, AList.lookup_insert] at hprev
          obtain rfl := Option.some.inj hprev
          refine Or.inl ⟨_, List.mem_cons_self, ?_, hkey.symm, hnear⟩
          rw [heq]
          rfl
        · rw [AList.lookup_insert_ne hkey] at hprev
          exact Or.inr ⟨prev, hprev, hnear⟩

section Distances
variable [IsOrderedAddMonoid τ]

/-- What passes is later by more than the duration, although the sum has been rounded. -/
theorem lt_of_passes {prev now : τ} (hnow : R.Representable now) (h : passes R minDuration (some prev) now = true) :
    minDuration < now - prev := by
  rw [lt_sub_iff_add_lt, add_comm]
  exact Rounding.lt_of_rnd_lt hnow (passes_some.mp h)

/-- What is executed is later than the last execution of its key by more than the duration. -/
theorem spaced_serveFrom (hmin : 0 ≤ minDuration) (htimes : ∀ call ∈ calls, R.Representable call.time) :
    (∀ entry ∈ serveFrom R hashable minDuration lastCall calls, entry.2.isExecuted = true →
      ∀ prev, lastCall.lookup entry.1.args = some prev → minDuration < entry.1.time - prev) ∧
    (serveFrom R hashable minDuration lastCall calls).Pairwise fun a b =>
      a.2.isExecuted = true → b.2.isExecuted = true → a.1.args = b.1.args → minDuration < b.1.time - a.1.time := by
  induction calls generalizing lastCall with
  | nil => exact ⟨fun _ h => (by cases h), List.Pairwise.nil⟩
  | cons call calls ih =>
    obtain ⟨hcall, htimes⟩ := List.forall_mem_cons.mp htimes
    rw [serveFrom_cons, List.forall_mem_cons, List.pairwise_cons]
    obtain ⟨-, heq⟩ | ⟨-, -, heq⟩ | ⟨-, hpass, heq⟩ := call.serve_cases R hashable minDuration lastCall
    · rw [heq]
      exact ⟨⟨fun h => (by cases h), (ih htimes).1⟩, fun _ _ h => (by cases h), (ih htimes).2⟩
    · rw [heq]
      exact ⟨⟨fun h => (by cases h), (ih htimes).1⟩, fun _ _ h => (by cases h), (ih htimes).2⟩
    · rw [heq]
      obtain ⟨hlater, hpairs⟩ := @ih (lastCall.insert call.args call.time) htimes
      have hafter : ∀ entry ∈ serveFrom R hashable minDuration (lastCall.insert call.args call.time) calls,
          entry.2.isExecuted = true → call.args = entry.1.args → minDuration < entry.1.time - call.time := by
        intro entry hentry hexecuted hkey
        apply hlater entry hentry hexecuted
        rw [← hkey, AList.lookup_insert]
      refine ⟨⟨fun _ prev hprev => ?_, fun entry hentry hexecuted prev hprev => ?_⟩,
        fun entry hentry _ hexecuted hkey => hafter entry hentry hexecuted hkey, hpairs⟩
      · rw [hprev] at hpass
        exact lt_of_passes hcall hpass
      · by_cases hkey : call.args = entry.1.args
        · rw [← hkey] at hprev
          rw [hprev] at hpass
          have hfirst := lt_of_passes hcall hpass
          have hentry' := hafter entry hentry hexecuted hkey
          calc
            minDuration ≤ minDuration + minDuration := le_add_of_nonneg_right hmin
            _ < (entry.1.time - call.time) + (call.time - prev) := add_lt_add hentry' hfirst
            _ = entry.1.time - prev := sub_add_sub_cancel _ _ _
        · apply hlater entry hentry hexecuted
          rwa [AList.lookup_insert_ne (Ne.symm hkey)]

/-! ## Whole histories -/

/-- How far the executed and the dropped calls of a history are apart. -/
structure Throttled (R : Rounding τ) (minDuration : τ) (served : List (Served α κ τ ε ρ)) : Prop where
  spaced : served.Pairwise fun a b =>
    a.2.isExecuted = true → b.2.isExecuted = true → a.1.args = b.1.args → minDuration < b.1.time - a.1.time
  dropped : ∀ before entry after, served = before ++ entry :: after → entry.2.isDropped = true →
    ∃ a ∈ before, a.2.isExecuted = true ∧ a.1.args = entry.1.args ∧ a.1.time ≤ entry.1.time ∧
      entry.1.time ≤ R.rnd (a.1.time + minDuration)

/-- Any calls at representable times that do not decrease, compared with any others. -/
theorem throttle_history (hmin : 0 ≤ minDuration) (hrepresentable : ∀ call ∈ calls, R.Representable call.time)
    (htimes : calls.Pairwise fun a b => a.time ≤ b.time) :
    Throttled R minDuration (serve R hashable minDuration calls) ∧
    ∀ {κ' ε' ρ' : Type} (others : List (Call α κ' τ ε' ρ')) (args : α), timesOf args others = timesOf args calls →
      executedOf args (serve R hashable minDuration others) = executedOf args (serve R hashable minDuration calls) := by
  refine ⟨⟨(spaced_serveFrom hmin hrepresentable).2, fun before entry after h hdropped => ?_⟩,
    fun others args hsame => ?_⟩
  · obtain ⟨a, ha, hexecuted, hkey, hnear⟩ | ⟨prev, hprev, -⟩ := dropped_serveFrom h hdropped
    · refine ⟨a, ha, hexecuted, hkey, ?_, hnear⟩
      have hcalls : calls = before.map (·.1) ++ entry.1 :: after.map (·.1) := by
        rw [← List.map_cons, ← List.map_append, ← h]
        exact (map_serveFrom R hashable minDuration ∅ calls).symm
      rw [hcalls, List.pairwise_append] at htimes
      exact htimes.2.2 a.1 (List.mem_map_of_mem ha) entry.1 List.mem_cons_self
    · rw [AList.lookup_empty] at hprev
      cases hprev
  · unfold serve
    rw [executedOf_serveFrom, executedOf_serveFrom, hsame]

end Distances

/-! ## Two histories -/

/-- Double precision between 2^30 and 2^31, where the clock reads the seconds of the years from 2004 to 2038. -/
def epochSeconds : Rounding ℚ := .nearest (1 / 2 ^ 22) (by norm_num)

/-- An app is woken, its start raises, it is woken again too early, and once more after a wake of another app. -/
theorem throttle_history_wakes : ∃ calls : List (Call String Unit ℚ String Unit),
    calls.map (fun call => (call.args, call.time)) =
      [("app", 1700000000), ("app", 1700000005), ("other", 1700000005), ("app", 1700000006)] ∧
    (serve epochSeconds (fun _ => true) 5 calls).map (·.2.isExecuted) = [true, false, true, true] ∧
    Throttled epochSeconds 5 (serve epochSeconds (fun _ => true) 5 calls) := by
  let failing : String → Unit → Except String Unit := fun _ _ => .error "compose"
  refine ⟨[⟨"app", (), 1700000000, failing⟩, ⟨"app", (), 1700000005, failing⟩, ⟨"other", (), 1700000005, failing⟩,
    ⟨"app", (), 1700000006, failing⟩], rfl, ?_, (throttle_history (by decide +kernel) ?_ ?_).1⟩
  · decide +kernel
  · decide +kernel
  · decide +kernel

/-- The double next to 0.2. -/
def fifth : ℚ := 3602879701896397 / 2 ^ 54

/-- The double next to the time 1700000000.2, by which the clock has advanced by more than the duration. -/
def tooEarly : ℚ := 1700000000 + 838861 / 2 ^ 22

/-- A call is dropped that comes later than the duration after the only one before it: the sum is rounded upwards. -/
theorem dropped_late : ¬ ∀ (minDuration : ℚ) (calls : List (Call String Unit ℚ String Unit)), 0 ≤ minDuration →
    (∀ call ∈ calls, epochSeconds.Representable call.time) → (calls.Pairwise fun a b => a.time ≤ b.time) →
    ∀ before entry after, serve epochSeconds (fun _ => true) minDuration calls = before ++ entry :: after →
      entry.2.isDropped = true →
      ∃ a ∈ before, a.2.isExecuted = true ∧ a.1.args = entry.1.args ∧ entry.1.time - a.1.time ≤ minDuration := by
  intro h
  let func : String → Unit → Except String Unit := fun _ _ => .ok ()
  let first : Call String Unit ℚ String Unit := ⟨"app", (), 1700000000, func⟩
  let second : Call String Unit ℚ String Unit := ⟨"app", (), tooEarly, func⟩
  obtain ⟨a, ha, -, -, hnear⟩ := h fifth [first, second] (by decide +kernel) (by decide +kernel)
    (by decide +kernel) [(first, _)] (second, _) [] rfl (by decide +kernel)
  obtain rfl := List.mem_singleton.mp ha
  revert hnear
  decide +kernel

end Freeshard.Throttle

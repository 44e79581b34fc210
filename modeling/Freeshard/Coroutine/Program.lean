import Mathlib.Logic.Function.Basic
import Mathlib.Tactic.Common

/-! # Coroutines as trees of awaited operations

A coroutine either has returned, has raised, or awaits an operation whose answer (a value, or an
exception surfacing at that await) decides how it goes on. Nothing here fixes what the operations
do: that is the business of a step relation, see `Coroutine.Execution` and `Coroutine.Pool`.

* `Prog Op Ans ε α`: the trees, a lawful monad; `perform op` awaits `op` and re-raises its error.
* `tryCatch`, `tryFinally`: `try/except` and `try/finally`.
* `Prog.Uses φ p`: every operation `p` can ever await satisfies `φ`.
-/

namespace Coroutine
set_option autoImplicit false

/-- A coroutine over operations `Op` with answers `Ans`, exceptions `ε` and result `α`. -/
inductive Prog (Op : Type) (Ans : Op → Type) (ε α : Type) : Type where
  | ret (a : α)
  | raise (e : ε)
  | await (op : Op) (next : Except ε (Ans op) → Prog Op Ans ε α)

namespace Prog

variable {Op : Type} {Ans : Op → Type} {ε α β γ : Type}

/-- Await one operation. -/
def perform (op : Op) : Prog Op Ans ε (Ans op) :=
  .await op fun
    | .ok a => .ret a
    | .error e => .raise e

/-! ## Sequencing -/

def bind : Prog Op Ans ε α → (α → Prog Op Ans ε β) → Prog Op Ans ε β
  | .ret a, f => f a
  | .raise e, _ => .raise e
  | .await op next, f => .await op fun r => (next r).bind f

instance : Monad (Prog Op Ans ε) where
  pure := .ret
  bind := bind

@[simp] theorem pure_eq_ret (a : α) : (pure a : Prog Op Ans ε α) = .ret a := rfl

@[simp] theorem ret_bind (a : α) (f : α → Prog Op Ans ε β) :
    (Prog.ret a : Prog Op Ans ε α) >>= f = f a := rfl

@[simp] theorem raise_bind (e : ε) (f : α → Prog Op Ans ε β) :
    (Prog.raise e : Prog Op Ans ε α) >>= f = .raise e := rfl

@[simp] theorem await_bind (op : Op) (next : Except ε (Ans op) → Prog Op Ans ε α)
    (f : α → Prog Op Ans ε β) : Prog.await op next >>= f = .await op fun r => next r >>= f := rfl

theorem bind_ret_self (p : Prog Op Ans ε α) : p >>= Prog.ret = p := by
  induction p with
  | ret a => rfl
  | raise e => rfl
  | await op next ih => simp only [await_bind, ih]

theorem bind_bind (p : Prog Op Ans ε α) (f : α → Prog Op Ans ε β) (g : β → Prog Op Ans ε γ) :
    p >>= f >>= g = p >>= fun a => f a >>= g := by
  induction p with
  | ret a => rfl
  | raise e => rfl
  | await op next ih => simp only [await_bind, ih]

instance : LawfulMonad (Prog Op Ans ε) :=
  LawfulMonad.mk' _ bind_ret_self (fun _ _ => rfl) bind_bind

/-! ## Exceptions -/

/-- `try: p except: handle`. -/
def tryCatch : Prog Op Ans ε α → (ε → Prog Op Ans ε α) → Prog Op Ans ε α
  | .ret a, _ => .ret a
  | .raise e, handle => handle e
  | .await op next, handle => .await op fun r => (next r).tryCatch handle

instance : MonadExceptOf ε (Prog Op Ans ε) where
  throw := .raise
  tryCatch := tryCatch

@[simp] theorem throw_eq_raise (e : ε) : (throw e : Prog Op Ans ε α) = .raise e := rfl

@[simp] theorem tryCatch_ret (a : α) (handle : ε → Prog Op Ans ε α) :
    MonadExcept.tryCatch (Prog.ret a : Prog Op Ans ε α) handle = .ret a := rfl

@[simp] theorem tryCatch_raise (e : ε) (handle : ε → Prog Op Ans ε α) :
    MonadExcept.tryCatch (Prog.raise e : Prog Op Ans ε α) handle = handle e := rfl

@[simp] theorem tryCatch_await (op : Op) (next : Except ε (Ans op) → Prog Op Ans ε α)
    (handle : ε → Prog Op Ans ε α) :
    MonadExcept.tryCatch (Prog.await op next) handle =
      .await op fun r => MonadExcept.tryCatch (next r) handle := rfl

/-- `try: p finally: cleanup`. An exception of `cleanup` replaces the outcome of `p`. -/
def tryFinally : Prog Op Ans ε α → Prog Op Ans ε Unit → Prog Op Ans ε α
  | .ret a, cleanup => cleanup >>= fun _ => .ret a
  | .raise e, cleanup => cleanup >>= fun _ => .raise e
  | .await op next, cleanup => .await op fun r => (next r).tryFinally cleanup

@[simp] theorem tryFinally_ret (a : α) (cleanup : Prog Op Ans ε Unit) :
    (Prog.ret a).tryFinally cleanup = cleanup >>= fun _ => .ret a := rfl

@[simp] theorem tryFinally_raise (e : ε) (cleanup : Prog Op Ans ε Unit) :
    (Prog.raise e : Prog Op Ans ε α).tryFinally cleanup = cleanup >>= fun _ => .raise e := rfl

@[simp] theorem tryFinally_await (op : Op) (next : Except ε (Ans op) → Prog Op Ans ε α)
    (cleanup : Prog Op Ans ε Unit) :
    (Prog.await op next).tryFinally cleanup = .await op fun r => (next r).tryFinally cleanup :=
  rfl

/-! ## The operations a coroutine may await -/

/-- Every operation that `p` can await, whatever the answers, satisfies `φ`. -/
def Uses (φ : Op → Prop) : Prog Op Ans ε α → Prop
  | .ret _ => True
  | .raise _ => True
  | .await op next => φ op ∧ ∀ r, (next r).Uses φ

variable {φ ψ : Op → Prop}

@[simp] theorem uses_ret (a : α) : (Prog.ret a : Prog Op Ans ε α).Uses φ := trivial

@[simp] theorem uses_raise (e : ε) : (Prog.raise e : Prog Op Ans ε α).Uses φ := trivial

@[simp] theorem uses_await (op : Op) (next : Except ε (Ans op) → Prog Op Ans ε α) :
    (Prog.await op next).Uses φ ↔ φ op ∧ ∀ r, (next r).Uses φ := Iff.rfl

@[simp] theorem uses_perform (op : Op) :
    (perform op : Prog Op Ans ε (Ans op)).Uses φ ↔ φ op := by
  refine ⟨fun h => h.1, fun h => ⟨h, fun r => ?_⟩⟩
  cases r <;> trivial

theorem Uses.bind {p : Prog Op Ans ε α} {f : α → Prog Op Ans ε β} (hp : p.Uses φ)
    (hf : ∀ a, (f a).Uses φ) : (p >>= f).Uses φ := by
  induction p with
  | ret a => exact hf a
  | raise e => trivial
  | await op next ih => exact ⟨hp.1, fun r => ih r (hp.2 r)⟩

theorem Uses.tryCatch {p : Prog Op Ans ε α} {handle : ε → Prog Op Ans ε α} (hp : p.Uses φ)
    (hh : ∀ e, (handle e).Uses φ) : (MonadExcept.tryCatch p handle).Uses φ := by
  induction p with
  | ret a => trivial
  | raise e => exact hh e
  | await op next ih => exact ⟨hp.1, fun r => ih r (hp.2 r)⟩

theorem Uses.tryFinally {p : Prog Op Ans ε α} {cleanup : Prog Op Ans ε Unit} (hp : p.Uses φ)
    (hc : cleanup.Uses φ) : (p.tryFinally cleanup).Uses φ := by
  induction p with
  | ret a => exact hc.bind fun _ => trivial
  | raise e => exact hc.bind fun _ => trivial
  | await op next ih => exact ⟨hp.1, fun r => ih r (hp.2 r)⟩

theorem Uses.mono {p : Prog Op Ans ε α} (hp : p.Uses φ) (h : ∀ op, φ op → ψ op) : p.Uses ψ := by
  induction p with
  | ret a => trivial
  | raise e => trivial
  | await op next ih => exact ⟨h _ hp.1, fun r => ih r (hp.2 r)⟩

theorem Uses.and {p : Prog Op Ans ε α} (hp : p.Uses φ) (hq : p.Uses ψ) :
    p.Uses fun op => φ op ∧ ψ op := by
  induction p with
  | ret a => trivial
  | raise e => trivial
  | await op next ih => exact ⟨⟨hp.1, hq.1⟩, fun r => ih r (hp.2 r) (hq.2 r)⟩

theorem uses_true (p : Prog Op Ans ε α) : p.Uses fun _ => True := by
  induction p with
  | ret a => trivial
  | raise e => trivial
  | await op next ih => exact ⟨trivial, ih⟩

theorem Uses.forM_mem {l : List β} {f : β → Prog Op Ans ε PUnit} (hf : ∀ b ∈ l, (f b).Uses φ) :
    (l.forM f).Uses φ := by
  induction l with
  | nil => trivial
  | cons b l ih =>
    refine Uses.bind (hf b List.mem_cons_self) fun _ => ?_
    exact ih fun b' hmem => hf b' (List.mem_cons_of_mem _ hmem)

theorem Uses.forM {l : List β} {f : β → Prog Op Ans ε PUnit} (hf : ∀ b, (f b).Uses φ) :
    (l.forM f).Uses φ := Uses.forM_mem fun b _ => hf b

/-! ## The exceptions a coroutine may end in -/

/-- As long as the operations raise only `ψ`, so does `p`. -/
def Raises (ψ : ε → Prop) : Prog Op Ans ε α → Prop
  | .ret _ => True
  | .raise e => ψ e
  | .await _ next => ∀ r, (∀ e, r = .error e → ψ e) → (next r).Raises ψ

section Raises
variable {ψ : ε → Prop}

theorem raises_perform (op : Op) : (perform op : Prog Op Ans ε (Ans op)).Raises ψ := by
  rintro (e | a) hr
  · exact hr e rfl
  · trivial

theorem Raises.bind {p : Prog Op Ans ε α} {f : α → Prog Op Ans ε β} (hp : p.Raises ψ)
    (hf : ∀ a, (f a).Raises ψ) : (p >>= f).Raises ψ := by
  induction p with
  | ret a => exact hf a
  | raise e => exact hp
  | await op next ih => exact fun r hr => ih r (hp r hr)

theorem Raises.tryCatch {p : Prog Op Ans ε α} {handle : ε → Prog Op Ans ε α} (hp : p.Raises ψ)
    (hh : ∀ e, ψ e → (handle e).Raises ψ) : (MonadExcept.tryCatch p handle).Raises ψ := by
  induction p with
  | ret a => trivial
  | raise e => exact hh e hp
  | await op next ih => exact fun r hr => ih r (hp r hr)

theorem Raises.tryFinally {p : Prog Op Ans ε α} {cleanup : Prog Op Ans ε Unit} (hp : p.Raises ψ)
    (hc : cleanup.Raises ψ) : (p.tryFinally cleanup).Raises ψ := by
  induction p with
  | ret a => exact hc.bind fun _ => trivial
  | raise e => exact hc.bind fun _ => hp
  | await op next ih => exact fun r hr => ih r (hp r hr)

end Raises

end Prog
end Coroutine

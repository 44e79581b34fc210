import Mathlib.Algebra.Order.Field.Rat
import Mathlib.Algebra.Order.Round
import Mathlib.Data.Rat.Floor

/-! # Rounding

Arithmetic on values of which not all can be represented: a result is rounded to one that can. Nothing is used of a
rounding but that it respects the order and leaves representable values alone. -/

namespace Arithmetic
set_option autoImplicit false

/-- How results are rounded. -/
structure Rounding (τ : Type) [Preorder τ] where
  rnd : τ → τ
  monotone : Monotone rnd
  idempotent : ∀ x, rnd (rnd x) = rnd x

namespace Rounding

section Order
variable {τ : Type} [LinearOrder τ] (R : Rounding τ) {x y : τ}

/-- Rounding leaves the value alone. -/
def Representable (x : τ) : Prop := R.rnd x = x

instance (x : τ) : Decidable (R.Representable x) := inferInstanceAs (Decidable (_ = _))

variable {R}

theorem le_rnd (hx : R.Representable x) (h : x ≤ y) : x ≤ R.rnd y := by
  have hround := R.monotone h
  rwa [hx] at hround

/-- What is above a rounded result is above the result. -/
theorem lt_of_rnd_lt (hy : R.Representable y) (h : R.rnd x < y) : x < y := by
  by_contra hle
  exact absurd h (not_lt.mpr (le_rnd hy (not_lt.mp hle)))

end Order

/-- Every value is representable. -/
def exact (τ : Type) [Preorder τ] : Rounding τ where
  rnd x := x
  monotone _ _ h := h
  idempotent _ := rfl

/-- To the nearest multiple of a unit, upwards between two. -/
def nearest (unit : ℚ) (h : 0 < unit) : Rounding ℚ where
  rnd x := round (x / unit) * unit
  monotone x y hle := by
    have hdiv : x / unit ≤ y / unit := div_le_div_of_nonneg_right hle h.le
    have hround : round (x / unit) ≤ round (y / unit) := by
      rw [round_eq, round_eq]
      exact Int.floor_mono (add_le_add_left hdiv _)
    exact mul_le_mul_of_nonneg_right (Int.cast_le.mpr hround) h.le
  idempotent x := by
    rw [mul_div_cancel_right₀ _ h.ne', round_intCast]

end Rounding
end Arithmetic

import Mathlib.Algebra.Order.Field.Basic
import Mathlib.Tactic.FieldSimp
import Mathlib.Tactic.Linarith
import Mathlib.Tactic.Ring

/-!
# Lines that are walked down

The line through two points, as a function of the ordinate, from an upper ordinate `y₀` down to
a lower one `y₁`.

* `through_start`, `through_end`: it is the line through the points;
* `min_le_through`, `through_le_max`: between the ordinates, the line is between the points;
* `through_le_of_le`, `le_through_of_le`: it goes from the first point towards the second.
-/

namespace Line

variable {K : Type*} [Field K]

/-- The line through `x₀` at `y₀` and `x₁` at `y₁`. -/
def through (x₀ y₀ x₁ y₁ y : K) : K := x₀ + (y₀ - y) * ((x₁ - x₀) / (y₀ - y₁))

@[simp] theorem through_start (x₀ y₀ x₁ y₁ : K) : through x₀ y₀ x₁ y₁ y₀ = x₀ := by
  simp [through]

theorem through_end {x₀ y₀ x₁ y₁ : K} (h : y₀ - y₁ ≠ 0) : through x₀ y₀ x₁ y₁ y₁ = x₁ := by
  rw [through, mul_div_cancel₀ _ h]
  ring

/-! ## Between the ends -/

variable [LinearOrder K] [IsStrictOrderedRing K] {x₀ y₀ x₁ y₁ y y' : K}

theorem through_le_max (h : y₁ < y₀) (hlow : y₁ ≤ y) (hhigh : y ≤ y₀) :
    through x₀ y₀ x₁ y₁ y ≤ max x₀ x₁ := by
  have hpos : 0 < y₀ - y₁ := by linarith
  rw [through, mul_div_assoc', ← le_sub_iff_add_le', div_le_iff₀ hpos]
  -- the weighted mean of two numbers is at most the greater one
  have h₀ : 0 ≤ (y - y₁) * (max x₀ x₁ - x₀) :=
    mul_nonneg (by linarith) (by linarith [le_max_left x₀ x₁])
  have h₁ : 0 ≤ (y₀ - y) * (max x₀ x₁ - x₁) :=
    mul_nonneg (by linarith) (by linarith [le_max_right x₀ x₁])
  linarith

theorem min_le_through (h : y₁ < y₀) (hlow : y₁ ≤ y) (hhigh : y ≤ y₀) :
    min x₀ x₁ ≤ through x₀ y₀ x₁ y₁ y := by
  have hpos : 0 < y₀ - y₁ := by linarith
  rw [through, mul_div_assoc', ← sub_le_iff_le_add', le_div_iff₀ hpos]
  have h₀ : 0 ≤ (y - y₁) * (x₀ - min x₀ x₁) :=
    mul_nonneg (by linarith) (by linarith [min_le_left x₀ x₁])
  have h₁ : 0 ≤ (y₀ - y) * (x₁ - min x₀ x₁) :=
    mul_nonneg (by linarith) (by linarith [min_le_right x₀ x₁])
  linarith

/-- A line that rises as it is walked down. -/
theorem through_le_of_le (h : y₁ < y₀) (hx : x₀ ≤ x₁) (hy : y ≤ y') :
    through x₀ y₀ x₁ y₁ y' ≤ through x₀ y₀ x₁ y₁ y := by
  have hslope : 0 ≤ (x₁ - x₀) / (y₀ - y₁) := div_nonneg (by linarith) (by linarith)
  have hdown := mul_le_mul_of_nonneg_right (show y₀ - y' ≤ y₀ - y by linarith) hslope
  rw [through, through]
  linarith

/-- A line that falls as it is walked down. -/
theorem le_through_of_le (h : y₁ < y₀) (hx : x₁ ≤ x₀) (hy : y ≤ y') :
    through x₀ y₀ x₁ y₁ y ≤ through x₀ y₀ x₁ y₁ y' := by
  have hslope : (x₁ - x₀) / (y₀ - y₁) ≤ 0 :=
    div_nonpos_of_nonpos_of_nonneg (by linarith) (by linarith)
  have hdown := mul_le_mul_of_nonpos_right (show y₀ - y' ≤ y₀ - y by linarith) hslope
  rw [through, through]
  linarith

end Line

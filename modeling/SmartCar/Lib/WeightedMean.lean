import Mathlib.Algebra.BigOperators.Ring.List
import Mathlib.Algebra.Order.BigOperators.Group.List
import Mathlib.Algebra.Order.Field.Basic
import Mathlib.Data.Set.Finite.Lemmas

/-!
# Weighted means

The mean of the values `v` of a list with weights `w` that are not negative, and not
all 0, lies between two of the values.
-/

namespace WeightedMean

variable {α K : Type*} [Field K] [LinearOrder K] [IsStrictOrderedRing K]
variable {l : List α} {w v : α → K}

/-- The sum of the weighted values. -/
def total (l : List α) (w v : α → K) : K := (l.map fun a => v a * w a).sum

theorem mul_sum_le_total (hw : ∀ a ∈ l, 0 ≤ w a) {q : K} (hv : ∀ a ∈ l, q ≤ v a) :
    q * (l.map w).sum ≤ total l w v := by
  rw [total, ← List.sum_map_mul_left]
  exact List.sum_le_sum fun a ha => mul_le_mul_of_nonneg_right (hv a ha) (hw a ha)

/-- Some value is not above the mean. -/
theorem exists_le_mean (hw : ∀ a ∈ l, 0 ≤ w a) (hsum : 0 < (l.map w).sum) :
    ∃ a ∈ l, v a ≤ total l w v / (l.map w).sum := by
  have hmem : ∃ a, a ∈ l := by
    rcases l with - | ⟨a, l⟩
    · simp at hsum
    · exact ⟨a, List.mem_cons_self⟩
  rcases Set.exists_min_image {a | a ∈ l} v (List.finite_toSet l) hmem with ⟨a, ha, hmin⟩
  exact ⟨a, ha, (le_div_iff₀ hsum).mpr (mul_sum_le_total hw hmin)⟩

/-- Some value is not below the mean. -/
theorem exists_mean_le (hw : ∀ a ∈ l, 0 ≤ w a) (hsum : 0 < (l.map w).sum) :
    ∃ a ∈ l, total l w v / (l.map w).sum ≤ v a := by
  rcases exists_le_mean (v := fun a => -v a) hw hsum with ⟨a, ha, hle⟩
  have hneg : total l w (fun a => -v a) = -total l w v := by
    simp [total, List.sum_neg, Function.comp_def]
  rw [hneg, neg_div, neg_le_neg_iff] at hle
  exact ⟨a, ha, hle⟩

end WeightedMean

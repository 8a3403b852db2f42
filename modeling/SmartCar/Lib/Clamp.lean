import Mathlib.Order.MinMax
import Mathlib.Tactic.Common
import Mathlib.Tactic.Linarith

/-!
# Steps of a word that is clamped

A value between two bounds is moved by a step, stored in a word, and then brought between the
bounds again. If the store wraps, the value comes out at the other side.

* `clamp_add_emod_iff`, `clamp_sub_emod_iff`: the result is that of exact arithmetic if and only
  if the store does not wrap, or there is one value only.
-/

namespace Clamp

variable {α : Type*}

/-- `x`, brought between `lo` and `hi`; the lower bound is looked at first. -/
def clamp [LT α] [DecidableLT α] (lo hi x : α) : α :=
  if x < lo then lo else if hi < x then hi else x

variable [LinearOrder α] {lo hi x : α}

theorem clamp_of_le (h : lo ≤ x) : clamp lo hi x = min hi x := by
  rw [clamp, if_neg (not_lt.mpr h)]
  split_ifs with hgt
  · exact (min_eq_left hgt.le).symm
  · exact (min_eq_right (not_lt.mp hgt)).symm

theorem clamp_of_ge (h : x ≤ hi) : clamp lo hi x = max lo x := by
  rw [clamp]
  split_ifs with hlt hgt
  · exact (max_eq_left hlt.le).symm
  · exact absurd h (not_le.mpr hgt)
  · exact (max_eq_right (not_lt.mp hlt)).symm

/-- The clamp of words is the clamp of their values. -/
theorem toNat_clamp {w : ℕ} (lo hi x : BitVec w) :
    ((clamp lo hi x).toNat : ℤ) = clamp (lo.toNat : ℤ) hi.toNat x.toNat := by
  simp only [clamp, BitVec.lt_def, Nat.cast_lt]
  split_ifs <;> rfl

/-! ## Steps that may wrap -/

variable {N low high v step : ℤ}

/-- A step up: a sum that wraps is stored below the value it started from. -/
theorem clamp_add_emod_iff (hlow : 0 ≤ low) (hmin : low ≤ v) (hmax : v ≤ high) (hhigh : high < N)
    (hstep : 0 ≤ step ∧ step < N) :
    clamp low high ((v + step) % N) = min high (v + step) ↔ v + step < N ∨ low = high := by
  by_cases hwrap : v + step < N
  · -- the sum is stored as it is, and only the upper bound can cut it
    rw [Int.emod_eq_of_lt (by omega) hwrap, clamp_of_le (by omega)]
    simp [hwrap]
  · -- what is stored is below `v`, so the upper bound is not reached
    have hstored : (v + step) % N = v + step - N := by
      rw [← Int.sub_emod_right, Int.emod_eq_of_lt (by omega) (by omega)]
    rw [hstored, clamp_of_ge (by omega), min_eq_left (by omega)]
    constructor
    · intro h
      right
      omega
    · rintro (h | h)
      · exact absurd h hwrap
      · omega

/-- A step down: a difference that wraps is stored above the value it started from. -/
theorem clamp_sub_emod_iff (hlow : 0 ≤ low) (hmin : low ≤ v) (hmax : v ≤ high) (hhigh : high < N)
    (hstep : 0 ≤ step ∧ step < N) :
    clamp low high ((v - step) % N) = max low (v - step) ↔ step ≤ v ∨ low = high := by
  by_cases hwrap : step ≤ v
  · rw [Int.emod_eq_of_lt (by omega) (by omega), clamp_of_ge (by omega)]
    simp [hwrap]
  · -- what is stored is above `v`, so the lower bound is not reached
    have hstored : (v - step) % N = v - step + N := by
      rw [← Int.add_emod_right, Int.emod_eq_of_lt (by omega) (by omega)]
    rw [hstored, clamp_of_le (by omega), max_eq_left (by omega)]
    constructor
    · intro h
      right
      omega
    · rintro (h | h)
      · exact absurd h hwrap
      · omega

end Clamp

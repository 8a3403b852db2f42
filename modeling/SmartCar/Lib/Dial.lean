import Mathlib.Tactic.Ring
import SmartCar.Lib.Clamp

/-!
# Dials

A dial has `n + 1` positions, and is turned by one of them at a time; at either end it goes no
further. A word that is moved by a step and clamped is a dial, if its bounds lie a whole number of
steps apart and a step beyond them still fits the word.

* `clamp_turn_emod`: the clamped word follows the dial.
-/

namespace Dial

open Clamp

variable {n : ℕ}

/-- The next position, or the one before. -/
def turn (up : Bool) (k : Fin (n + 1)) : Fin (n + 1) :=
  if up then ⟨min n (k + 1), by omega⟩ else ⟨k - 1, by omega⟩

/-- What is read at position `k`. -/
def reading (low step : ℕ) (k : Fin (n + 1)) : ℕ := low + step * k

theorem reading_le (low step : ℕ) (k : Fin (n + 1)) : reading low step k ≤ low + step * n :=
  Nat.add_le_add_left (Nat.mul_le_mul_left step (Nat.le_of_lt_succ k.isLt)) low

theorem le_reading (low step : ℕ) (k : Fin (n + 1)) : low ≤ reading low step k :=
  Nat.le_add_right _ _

theorem reading_up (low step : ℕ) (k : Fin (n + 1)) :
    reading low step (turn true k) = min (low + step * n) (reading low step k + step) := by
  have hnext : reading low step k + step = low + step * (k + 1) := by
    rw [reading]
    ring
  rw [hnext, Nat.add_min_add_left, Nat.mul_min_mul_left]
  rfl

theorem reading_down (low step : ℕ) (k : Fin (n + 1)) :
    (reading low step (turn false k) : ℤ) = max (low : ℤ) (reading low step k - step) := by
  simp only [reading, turn, Bool.false_eq_true, if_false]
  cases hk : (k : ℕ) with
  | zero => simp
  | succ j =>
    have hpos : (0 : ℤ) ≤ (step : ℤ) * j := by positivity
    push_cast
    rw [max_eq_right (by linarith)]
    ring

/-- The step that is added or taken away is stored before it is clamped. -/
theorem clamp_turn_emod {N low step : ℕ} (hlow : step ≤ low) (hhigh : low + step * (n + 1) < N)
    (k : Fin (n + 1)) (up : Bool) :
    clamp (low : ℤ) ((low + step * n : ℕ) : ℤ)
        ((reading low step k + (if up then 1 else -1) * step) % N) =
      reading low step (turn up k) := by
  have hle := reading_le low step k
  have hge := le_reading low step k
  have hN : low + step * n + step < N := by
    have heq : low + step * (n + 1) = low + step * n + step := by ring
    exact heq ▸ hhigh
  cases up with
  | true =>
    rw [if_pos rfl, one_mul, (clamp_add_emod_iff (by omega) (by omega) (by omega) (by omega)
      (by omega)).mpr (.inl (by omega)), reading_up]
    push_cast
    rfl
  | false =>
    rw [if_neg Bool.false_ne_true, neg_one_mul, ← sub_eq_add_neg,
      (clamp_sub_emod_iff (by omega) (by omega) (by omega) (by omega) (by omega)).mpr
        (.inl (by omega)), reading_down]

end Dial

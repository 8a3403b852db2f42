import Mathlib.Algebra.Order.Field.Basic
import Mathlib.Tactic.FieldSimp
import Mathlib.Tactic.Linarith
import Mathlib.Tactic.Ring

/-!
# Three wheels

A car with a wheel at each side, turned in by an angle with cosine `c`, and one at the rear goes
in any direction and turns at the same time. Its velocity is mixed into the speeds of the wheels,
and can be read back from them.

* `unmix_mix`: what has been mixed is read back;
* `unmix_near`: speeds that are a little off give a velocity that is a little off.
-/

namespace OmniDrive

variable {K : Type*} [Field K] [LinearOrder K] [IsStrictOrderedRing K]

/-- Forward, to the left, and around. -/
@[ext] structure Velocity (K : Type*) where
  forward : K
  left : K
  turn : K

/-- The speeds of the wheels. -/
structure Wheels (K : Type*) where
  left : K
  right : K
  rear : K

variable {c e : K} {v : Velocity K} {w w' : Wheels K}

/-- The speeds at which the wheels have to run for a velocity. -/
def mix (c : K) (v : Velocity K) : Wheels K where
  left := -v.forward * c + v.left * (1 / 2) - v.turn
  right := v.forward * c + v.left * (1 / 2) - v.turn
  rear := v.left + v.turn

/-- The velocity at which the car goes with these speeds. -/
def unmix (c : K) (w : Wheels K) : Velocity K where
  forward := (w.right - w.left) / (2 * c)
  left := (w.left + w.right + 2 * w.rear) / 3
  turn := (w.rear - w.left - w.right) / 3

theorem unmix_mix (hc : 0 < c) : unmix c (mix c v) = v := by
  ext
  · have hne := hc.ne'
    simp only [unmix, mix]
    field_simp
    ring
  · simp only [unmix, mix]
    ring
  · simp only [unmix, mix]
    ring

/-- No wheel is off by `e`. -/
structure Near (e : K) (w w' : Wheels K) : Prop where
  left : |w.left - w'.left| < e
  right : |w.right - w'.right| < e
  rear : |w.rear - w'.rear| < e

/-- Speeds that are close give velocities that are close. -/
theorem unmix_close (hc : 0 < c) (h : Near e w w') :
    |(unmix c w).forward - (unmix c w').forward| < e / c ∧
      |(unmix c w).left - (unmix c w').left| < 4 / 3 * e ∧
      |(unmix c w).turn - (unmix c w').turn| < e := by
  obtain ⟨hleft, hleft'⟩ := abs_lt.mp h.left
  obtain ⟨hright, hright'⟩ := abs_lt.mp h.right
  obtain ⟨hrear, hrear'⟩ := abs_lt.mp h.rear
  refine ⟨?_, ?_, ?_⟩
  · have heq : (unmix c w).forward - (unmix c w').forward =
        (w.right - w'.right - (w.left - w'.left)) / (2 * c) := by
      simp only [unmix]
      rw [← sub_div]
      ring
    have hbound : |w.right - w'.right - (w.left - w'.left)| < 2 * e :=
      abs_lt.mpr ⟨by linarith, by linarith⟩
    rw [heq, abs_div, abs_of_pos (by positivity : (0 : K) < 2 * c), div_lt_div_iff₀ (by positivity)
      hc]
    have hmul := mul_lt_mul_of_pos_right hbound hc
    linarith
  · simp only [unmix]
    exact abs_lt.mpr ⟨by linarith, by linarith⟩
  · simp only [unmix]
    exact abs_lt.mpr ⟨by linarith, by linarith⟩

/-- What is read back from wheels that are off. -/
theorem unmix_near (hc : 0 < c) (h : Near e w (mix c v)) :
    |(unmix c w).forward - v.forward| < e / c ∧ |(unmix c w).left - v.left| < 4 / 3 * e ∧
      |(unmix c w).turn - v.turn| < e := by
  have hclose := unmix_close hc h
  rwa [unmix_mix hc] at hclose

end OmniDrive

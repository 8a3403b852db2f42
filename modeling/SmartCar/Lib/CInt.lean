import Mathlib.Algebra.Order.Ring.Abs
import Mathlib.Data.Rat.Floor
import Mathlib.Tactic.Linarith

/-!
# Machine integers as stores

C evaluates integer expressions in `int` and narrows them when they are stored.
Here an expression is evaluated in `ℤ`, and each store goes through the
narrowing function of its target type.
-/

namespace CInt

/-- Store in a `uint8`. -/
def u8 (z : ℤ) : ℤ := z % 256

/-- Store in a `uint16`. -/
def u16 (z : ℤ) : ℤ := z % 65536

/-- Store in an `int8`. -/
def i8 (z : ℤ) : ℤ := (z + 128) % 256 - 128

/-- Store in an `int16`. -/
def i16 (z : ℤ) : ℤ := (z + 32768) % 65536 - 32768

/-- Store in an `int32`. -/
def i32 (z : ℤ) : ℤ := (z + 2147483648) % 4294967296 - 2147483648

/-- Conversion of a real number to an integer: the fraction is discarded. -/
def trunc (q : ℚ) : ℤ := q.num.tdiv q.den

theorem u8_range (z : ℤ) : 0 ≤ u8 z ∧ u8 z < 256 := by
  unfold u8
  omega

theorem u8_le {z : ℤ} (h : 0 ≤ z) : u8 z ≤ z := by
  unfold u8
  omega

theorem u8_of_range {z : ℤ} (h : 0 ≤ z ∧ z < 256) : u8 z = z := by
  unfold u8
  omega

theorem i16_of_range {z : ℤ} (h : -32768 ≤ z ∧ z < 32768) : i16 z = z := by
  unfold i16
  omega

theorem i32_of_range {z : ℤ} (h : -2147483648 ≤ z ∧ z < 2147483648) : i32 z = z := by
  unfold i32
  omega

@[simp] theorem trunc_intCast (z : ℤ) : trunc z = z := by
  simp [trunc]

theorem trunc_of_nonneg {q : ℚ} (h : 0 ≤ q) : trunc q = ⌊q⌋ := by
  rw [trunc, Int.tdiv_eq_ediv_of_nonneg (Rat.num_nonneg.mpr h), Rat.floor_def']

theorem trunc_le_trunc {q r : ℚ} (h : 0 ≤ q) (hqr : q ≤ r) : trunc q ≤ trunc r := by
  rw [trunc_of_nonneg h, trunc_of_nonneg (h.trans hqr)]
  exact Int.floor_le_floor hqr

theorem trunc_mem {q : ℚ} {a b : ℤ} (h : 0 ≤ a) (ha : a ≤ q) (hb : q ≤ b) :
    a ≤ trunc q ∧ trunc q ≤ b := by
  have hq : (0 : ℚ) ≤ q := le_trans (by exact_mod_cast h) ha
  rw [trunc_of_nonneg hq]
  exact ⟨Int.le_floor.mpr ha, Int.floor_le_iff.mpr (by linarith)⟩

theorem trunc_neg (q : ℚ) : trunc (-q) = -trunc q := by
  simp [trunc]

theorem abs_trunc_le {q : ℚ} {n : ℤ} (h : |q| ≤ n) : |trunc q| ≤ n := by
  have hpos : ∀ r : ℚ, 0 ≤ r → r ≤ n → |trunc r| ≤ n := by
    intro r hr hn
    rw [trunc_of_nonneg hr, abs_of_nonneg (Int.floor_nonneg.mpr hr)]
    exact Int.floor_le_iff.mpr (by linarith)
  rcases le_total 0 q with hq | hq
  · exact hpos q hq (by rwa [abs_of_nonneg hq] at h)
  · rw [abs_of_nonpos hq] at h
    have hneg := hpos (-q) (by linarith) h
    rwa [trunc_neg, abs_neg] at hneg

/-- Less than one unit is discarded. -/
theorem abs_trunc_sub_lt (q : ℚ) : |(trunc q : ℚ) - q| < 1 := by
  have hpos : ∀ r : ℚ, 0 ≤ r → |(trunc r : ℚ) - r| < 1 := by
    intro r hr
    have hle := Int.floor_le r
    have hlt := Int.lt_floor_add_one r
    rw [trunc_of_nonneg hr, abs_lt]
    exact ⟨by linarith, by linarith⟩
  rcases le_total 0 q with hq | hq
  · exact hpos q hq
  · have hneg := hpos (-q) (by linarith)
    rw [trunc_neg, Int.cast_neg, abs_sub_comm] at hneg
    rwa [sub_neg_eq_add, neg_add_eq_sub] at hneg

/-! ## Bytes -/

/-- The values of a `uint8`. -/
def Byte (z : ℤ) : Prop := 0 ≤ z ∧ z < 256

instance (z : ℤ) : Decidable (Byte z) := inferInstanceAs (Decidable (_ ∧ _))

@[simp] theorem byte_u8 (z : ℤ) : Byte (u8 z) := u8_range z

@[simp] theorem byte_zero : Byte 0 := by decide

@[simp] theorem byte_ofNat (n : ℕ) [n.AtLeastTwo] :
    Byte (no_index (OfNat.ofNat n)) ↔ n < 256 := by
  have hcast : (OfNat.ofNat n : ℤ) = (n : ℤ) := rfl
  rw [Byte, hcast]
  omega

@[simp] theorem byte_ite {c : Prop} [Decidable c] {a b : ℤ} :
    Byte (if c then a else b) ↔ (c → Byte a) ∧ (¬ c → Byte b) := by
  split <;> simp [*]

@[simp] theorem byte_update {f : ℤ → ℤ} {y v : ℤ} (hf : ∀ i, Byte (f i)) (hv : Byte v) (i : ℤ) :
    Byte (Function.update f y v i) := by
  by_cases hi : i = y
  · rw [hi, Function.update_self]
    exact hv
  · rw [Function.update_of_ne hi]
    exact hf i

end CInt

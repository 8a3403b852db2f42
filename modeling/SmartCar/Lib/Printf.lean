import Mathlib.Data.Nat.Digits.Lemmas
import Mathlib.Tactic.Common

/-!
# Formatted output

The conversions of `sprintf` for integers, over lists of bytes: `%u` is
`decimal`, `%d` is `signed`, and a field width is `padLeft`. Two facts are kept
about each: how long the text can get, and which bytes it is made of.
-/

namespace Printf

/-- The bytes of an ASCII string. -/
def ascii (s : String) : List UInt8 := s.toList.map fun c => UInt8.ofNat c.toNat

/-- The ASCII code of a decimal digit. -/
def digit (d : ℕ) : UInt8 := UInt8.ofNat (48 + d)

/-- `%u`: the decimal digits, the most significant one first. -/
def decimal (n : ℕ) : List UInt8 :=
  if n = 0 then [digit 0] else (Nat.digits 10 n).reverse.map digit

/-- `%d` -/
def signed (z : ℤ) : List UInt8 :=
  if z < 0 then 45 :: decimal z.natAbs else decimal z.natAbs

/-- A field width: spaces on the left, up to `w` bytes. -/
def padLeft (w : ℕ) (s : List UInt8) : List UInt8 := List.replicate (w - s.length) 32 ++ s

/-! ## Lengths -/

theorem length_padLeft (w : ℕ) (s : List UInt8) : (padLeft w s).length = max w s.length := by
  simp only [padLeft, List.length_append, List.length_replicate]
  omega

theorem length_padLeft_of_le {w : ℕ} {s : List UInt8} (h : s.length ≤ w) :
    (padLeft w s).length = w := by
  rw [length_padLeft, max_eq_left h]

theorem length_decimal_le {n k : ℕ} (hk : 0 < k) (hn : n < 10 ^ k) :
    (decimal n).length ≤ k := by
  unfold decimal
  split
  · exact hk
  · simpa using (Nat.digits_length_le_iff (by norm_num) n).mpr hn

@[simp] theorem signed_natCast (n : ℕ) : signed n = decimal n := by
  simp [signed]

/-! ## The bytes of a text -/

/-- Every byte is a printable character or a line feed: no NUL, nothing outside
ASCII. -/
def IsText (s : List UInt8) : Prop := ∀ b ∈ s, 10 ≤ b ∧ b < 127

instance (s : List UInt8) : Decidable (IsText s) :=
  inferInstanceAs (Decidable (∀ b ∈ s, _))

theorem IsText.append {s t : List UInt8} (hs : IsText s) (ht : IsText t) : IsText (s ++ t) := by
  intro b hb
  exact (List.mem_append.mp hb).elim (hs b) (ht b)

theorem isText_digit {d : ℕ} (h : d < 10) : IsText [digit d] := by
  have hall : ∀ d < 10, IsText [digit d] := by decide +kernel
  exact hall d h

theorem isText_decimal (n : ℕ) : IsText (decimal n) := by
  unfold decimal
  split
  · exact isText_digit (by decide)
  · intro b hb
    simp only [List.mem_map, List.mem_reverse] at hb
    rcases hb with ⟨d, hd, rfl⟩
    exact isText_digit (Nat.digits_lt_base (by decide) hd) _ (List.mem_singleton_self _)

theorem isText_signed (z : ℤ) : IsText (signed z) := by
  unfold signed
  split
  · exact IsText.append (s := [45]) (by decide +kernel) (isText_decimal _)
  · exact isText_decimal _

theorem IsText.padLeft {s : List UInt8} (hs : IsText s) (w : ℕ) : IsText (padLeft w s) := by
  refine IsText.append (fun b hb => ?_) hs
  rw [List.eq_of_mem_replicate hb]
  decide

theorem IsText.not_mem {s : List UInt8} (hs : IsText s) {b : UInt8} (hb : ¬ (10 ≤ b ∧ b < 127)) :
    b ∉ s := fun h => hb (hs b h)

end Printf

import Mathlib.Algebra.Order.Field.Rat
import Mathlib.Algebra.Order.Floor.Semiring
import Mathlib.Data.Rat.Floor
import Mathlib.Tactic.Linarith
import Mathlib.Tactic.NormNum
import SmartCar.Lib.Scanset

/-!
# Floating-point numbers that are printed and read back

`%f` prints six digits after the point, or a name for what is no number. `real_text` says what
`%f` makes of that text when it is read; `text_tiny` that a number below half a millionth prints
as 0.
-/

namespace Scanf

open Printf

/-- A `double`: a number, an infinity, or something that is no number. The last two have signs
of their own. -/
inductive Double
  | fin (q : ℚ) | inf (negative : Bool) | nan (negative : Bool)
deriving DecidableEq, Repr

/-- To the nearest whole number, halves to the even one. -/
def roundHalfEven (q : ℚ) : ℕ :=
  let n := ⌊q⌋₊
  if q - n < 1 / 2 then n else if 1 / 2 < q - n then n + 1 else n + n % 2

def minus (negative : Bool) : List UInt8 := if negative then [45] else []

/-- `%f` -/
def Double.text : Double → List UInt8
  | fin q => minus (decide (q < 0)) ++ fixed 6 (roundHalfEven (|q| * 10 ^ 6))
  | inf negative => minus negative ++ ascii "inf"
  | nan negative => minus negative ++ ascii "nan"

/-- The number without its sign, as six digits have it. -/
def Double.abs : Double → Real
  | fin q => .fin ((roundHalfEven (|q| * 10 ^ 6) : ℚ) / 10 ^ 6)
  | inf _ => .inf
  | nan _ => .nan

def Double.negative : Double → Bool
  | fin q => decide (q < 0)
  | inf negative | nan negative => negative

/-- What the text is read as. -/
def Double.rounded (x : Double) : Real := if x.negative then x.abs.neg else x.abs

/-- The text of a number ends here, even that of an infinity. -/
def Ends (rest : List UInt8) : Prop :=
  Stop rest ∧ ∀ c ∈ rest.head?, lower c ≠ 105 ∧ c ≠ 40

instance : ∀ rest : List UInt8, Decidable (Ends rest)
  | [] => .isTrue (by simp [Ends, Stop])
  | c :: _ => decidable_of_iff (Stop [c] ∧ lower c ≠ 105 ∧ c ≠ 40) (by simp [Ends, Stop])

variable {s rest : List UInt8}

theorem Ends.append (h : Ends s) (hne : s ≠ []) (rest : List UInt8) : Ends (s ++ rest) := by
  refine ⟨h.1.append hne rest, fun c hc => ?_⟩
  rw [List.head?_append_of_ne_nil s hne] at hc
  exact h.2 c hc

/-- A `-` before what is read without a sign. -/
theorem real_minus (hsign : sign s = (false, s)) :
    real (45 :: s) = (real s).map fun (x, rest) => (x.neg, rest) := by
  have hminus : sign (45 :: s) = (true, s) := rfl
  unfold real
  rw [hsign, hminus]
  simp only [if_true, Bool.false_eq_true, if_false]
  split_ifs
  · rfl
  · rfl
  · rfl
  · rw [Option.map_map]
    rfl
  · rw [Option.map_map]
    rfl
  · rw [Option.map_map]
    rfl

theorem real_inf (h : Ends rest) : real (ascii "inf" ++ rest) = some (.inf, rest) := by
  have hword : (rest.take 1).map lower ≠ [105] := by
    cases rest with
    | nil => simp
    | cons c rest => simpa using (h.2 c rfl).1
  have htext : ascii "inf" = [105, 110, 102] := by decide
  rw [htext]
  change (if (rest.take 1).map lower = [105] then _ else some (Real.inf, rest)) = _
  rw [if_neg hword]

theorem real_nan (h : Ends rest) : real (ascii "nan" ++ rest) = some (.nan, rest) := by
  have htail : nanTail rest = some rest := by
    unfold nanTail
    split
    · exact absurd rfl (h.2 40 rfl).2
    · rfl
  have htext : ascii "nan" = [110, 97, 110] := by decide
  rw [htext]
  change (nanTail rest).map (fun rest => (Real.nan, rest)) = _
  rw [htail]
  rfl

/-- A text without its sign. -/
def Double.digits : Double → List UInt8
  | fin q => fixed 6 (roundHalfEven (|q| * 10 ^ 6))
  | inf _ => ascii "inf"
  | nan _ => ascii "nan"

theorem Double.text_eq (x : Double) : x.text = minus x.negative ++ x.digits := by
  cases x <;> rfl

theorem real_digits (x : Double) (h : Ends rest) :
    real (x.digits ++ rest) = some (x.abs, rest) := by
  cases x with
  | fin q =>
    have hfixed := real_fixed (k := 6) (by decide) (roundHalfEven (|q| * 10 ^ 6)) h.1
    exact hfixed
  | inf negative => exact real_inf h
  | nan negative => exact real_nan h

/-- It has no sign, and does not begin with white space. -/
theorem plain_digits (x : Double) (rest : List UInt8) :
    sign (x.digits ++ rest) = (false, x.digits ++ rest) ∧ NoSpace (x.digits ++ rest) := by
  cases x with
  | fin q =>
    rw [Double.digits, fixed, List.append_assoc]
    exact ⟨(skip_digits (isDigits_decimal _) (decimal_ne_nil _) _).2, noSpace_decimal _ _⟩
  | inf negative =>
    have htext : ascii "inf" = [105, 110, 102] := by decide
    rw [Double.digits, htext]
    exact ⟨rfl, fun c hc => by rw [← Option.mem_some_iff.mp hc]; decide⟩
  | nan negative =>
    have htext : ascii "nan" = [110, 97, 110] := by decide
    rw [Double.digits, htext]
    exact ⟨rfl, fun c hc => by rw [← Option.mem_some_iff.mp hc]; decide⟩

/-- `%f` reads what `%f` has printed, as far as it has been printed. -/
theorem real_text (x : Double) (h : Ends rest) :
    real (x.text ++ rest) = some (x.rounded, rest) := by
  rw [Double.text_eq, Double.rounded]
  cases x.negative with
  | false => exact real_digits x h
  | true =>
    have hminus := real_minus (plain_digits x rest).1
    rw [real_digits x h] at hminus
    exact hminus

theorem noSpace_text (x : Double) (rest : List UInt8) : NoSpace (x.text ++ rest) := by
  rw [Double.text_eq]
  cases x.negative with
  | false => exact (plain_digits x rest).2
  | true =>
    intro c hc
    rw [← Option.mem_some_iff.mp hc]
    decide

/-- Less than half a millionth. -/
theorem text_tiny {q : ℚ} (hpos : 0 ≤ q) (hlt : q * 10 ^ 6 < 1 / 2) :
    (Double.fin q).text = ascii "0.000000" := by
  have hfloor : ⌊q * 10 ^ 6⌋₊ = 0 := by
    rw [Nat.floor_eq_zero]
    linarith
  have hround : roundHalfEven (|q| * 10 ^ 6) = 0 := by
    rw [abs_of_nonneg hpos, roundHalfEven, hfloor]
    simp only [Nat.cast_zero, sub_zero, if_pos hlt]
  rw [Double.text, hround, decide_eq_false (not_lt.mpr hpos)]
  decide

end Scanf

import Mathlib.Data.Nat.Cast.Order.Field
import Mathlib.Tactic.Ring
import SmartCar.Lib.Printf
import SmartCar.Lib.Scanf

/-!
# Numbers that are printed and read back

What the conversions of `Printf` print, the conversions of `Scanf` read: `%u` and `%d`
a string of digits, `%f` one with a point. A number ends where something comes that
cannot go on with it, a `Stop`.

* `number_decimal`, `number_zeroPad`: the digits printed denote the number;
* `real_fixed`: `%f` reads back what `%.kf` has printed;
* `scan_u`, `scan_d`, `scan_f`: one conversion of a format, and the rest of the format.
-/

namespace Printf

/-- A field width with the flag `0`: zeros on the left, up to `w` bytes. -/
def zeroPad (w : ℕ) (s : List UInt8) : List UInt8 := List.replicate (w - s.length) 48 ++ s

/-- `%.kf` of `n / 10 ^ k`, for a positive `k`. -/
def fixed (k n : ℕ) : List UInt8 := decimal (n / 10 ^ k) ++ 46 :: zeroPad k (decimal (n % 10 ^ k))

/-- Padding makes a string as wide as asked for, and cuts nothing off. -/
theorem length_zeroPad (w : ℕ) (s : List UInt8) : (zeroPad w s).length = max w s.length := by
  simp only [zeroPad, List.length_append, List.length_replicate]
  omega

end Printf

namespace Scanf

open Printf

/-! ## Digits -/

/-- A string of decimal digits. -/
def IsDigits (s : List UInt8) : Prop := ∀ c ∈ s, isDigit 10 c = true

instance (s : List UInt8) : Decidable (IsDigits s) := List.decidableBAll _ s

variable {s t ds rest : List UInt8} {c : UInt8}

/-- Digits followed by digits. -/
theorem IsDigits.append (hs : IsDigits s) (ht : IsDigits t) : IsDigits (s ++ t) := by
  intro c hc
  exact (List.mem_append.mp hc).elim (hs c) (ht c)

/-- The decimal digits are the bytes from 48 to 57. -/
theorem isDigit_iff : isDigit 10 c = true ↔ 48 ≤ c.toNat ∧ c.toNat ≤ 57 := by
  simp only [isDigit, digitVal, decide_eq_true_eq, UInt8.le_iff_toNat_le]
  simp
  split
  · omega
  · split
    · omega
    · split <;> omega

/-- The digit that is printed for a number below 10. -/
theorem digit_toNat {d : ℕ} (h : d < 10) : (digit d).toNat = 48 + d := by
  simp [digit]
  omega

/-- What is printed for a number below 10 is read as a digit, -/
theorem isDigit_digit {d : ℕ} (h : d < 10) : isDigit 10 (digit d) = true := by
  rw [isDigit_iff, digit_toNat h]
  omega

/-- and as that number. -/
theorem digitVal_digit {d : ℕ} (h : d < 10) : digitVal (digit d) = d := by
  have hall : ∀ d < 10, digitVal (digit d) = d := by decide +kernel
  exact hall d h

/-- `%u` prints digits only. -/
theorem isDigits_decimal (n : ℕ) : IsDigits (decimal n) := by
  unfold decimal
  split
  · intro c hc
    rw [List.mem_singleton.mp hc]
    exact isDigit_digit (by decide)
  · intro c hc
    simp only [List.mem_map, List.mem_reverse] at hc
    rcases hc with ⟨d, hd, rfl⟩
    exact isDigit_digit (Nat.digits_lt_base (by decide) hd)

/-- Zeros are digits too. -/
theorem isDigits_zeroPad (hs : IsDigits s) (w : ℕ) : IsDigits (zeroPad w s) := by
  refine IsDigits.append (fun c hc => ?_) hs
  rw [List.eq_of_mem_replicate hc]
  decide

/-- `%u` prints a digit at least. -/
theorem decimal_ne_nil (n : ℕ) : decimal n ≠ [] := by
  unfold decimal
  split
  · simp
  · rename_i hn
    simp [Nat.digits_eq_nil_iff_eq_zero, hn]

/-- Padding removes nothing. -/
theorem zeroPad_ne_nil (hs : s ≠ []) (w : ℕ) : zeroPad w s ≠ [] := by
  simp [zeroPad, hs]

/-! ## The number denoted -/

/-- Reading on from `n`: its digits move up by one place for each digit read. -/
theorem foldl_number (base n : ℕ) (s : List UInt8) :
    s.foldl (fun n c => n * base + digitVal c) n = n * base ^ s.length + number base s := by
  unfold number
  -- over the digits, for every number read so far
  induction s generalizing n with
  | nil => simp
  | cons c s ih =>
    rw [List.foldl_cons, List.foldl_cons, ih, ih (0 * base + digitVal c), List.length_cons,
      pow_succ]
    ring

/-- The number that digits followed by digits denote. -/
theorem number_append (base : ℕ) (s t : List UInt8) :
    number base (s ++ t) = number base s * base ^ t.length + number base t := by
  rw [number, List.foldl_append, foldl_number]
  rfl

/-- A number has no more places than digits. -/
theorem number_lt (hs : IsDigits s) : number 10 s < 10 ^ s.length := by
  induction s with
  | nil => decide
  | cons c s ih =>
    have hc : digitVal c < 10 := by simpa [isDigit] using hs c (by simp)
    have hlow := ih fun d hd => hs d (by simp [hd])
    have hmul : digitVal c * 10 ^ s.length ≤ 9 * 10 ^ s.length :=
      Nat.mul_le_mul_right _ (by omega)
    have hone : number 10 [c] = digitVal c := by simp [number]
    rw [← List.singleton_append, number_append, hone, List.length_append, List.length_singleton,
      pow_add, pow_one]
    omega

/-- Zeros on the left do not count. -/
theorem number_zeroPad (w : ℕ) (s : List UInt8) : number 10 (zeroPad w s) = number 10 s := by
  have hzero : ∀ n, number 10 (List.replicate n 48) = 0 := by
    intro n
    induction n with
    | zero => rfl
    | succ n ih =>
      rw [List.replicate_succ', number_append, ih]
      decide
  rw [zeroPad, number_append, hzero]
  simp

/-- The digits that `%u` prints denote the number printed. -/
theorem number_decimal (n : ℕ) : number 10 (decimal n) = n := by
  -- the digits come last place first, and are printed in reverse
  have hdigits : ∀ ds : List ℕ, (∀ d ∈ ds, d < 10) →
      number 10 (ds.reverse.map digit) = Nat.ofDigits 10 ds := by
    intro ds hds
    induction ds with
    | nil => rfl
    | cons d ds ih =>
      have hd := hds d (by simp)
      rw [List.reverse_cons, List.map_append, number_append, ih fun d hd => hds d (by simp [hd]),
        Nat.ofDigits_cons]
      simp [number, digitVal_digit hd]
      ring
  unfold decimal
  split
  -- 0 is printed as one digit, though it has none
  · rename_i hn
    rw [hn]
    decide
  · rw [hdigits _ fun d hd => Nat.digits_lt_base (by decide) hd, Nat.ofDigits_digits]

/-! ## Input items -/

/-- A number ends here: what comes is no digit, and no exponent. -/
def Stop (rest : List UInt8) : Prop :=
  ∀ c ∈ rest.head?, isDigit 10 c = false ∧ lower c ≠ 101

instance : ∀ rest : List UInt8, Decidable (Stop rest)
  | [] => .isTrue (by simp [Stop])
  | c :: _ => decidable_of_iff (isDigit 10 c = false ∧ lower c ≠ 101) (by simp [Stop])

/-- The digits end where a number ends. -/
theorem takeWhile_digits (hds : IsDigits ds) (hrest : Stop rest) :
    (ds ++ rest).takeWhile (isDigit 10) = ds ∧ (ds ++ rest).dropWhile (isDigit 10) = rest := by
  rw [List.takeWhile_append_of_pos hds, List.dropWhile_append_of_pos hds]
  cases rest with
  | nil => simp
  | cons c rest => simp [(hrest c rfl).1]

/-- A digit is no white space, no sign and no letter. -/
theorem digit_plain (hc : isDigit 10 c = true) :
    isSpace c = false ∧ (∀ s, sign (c :: s) = (false, c :: s)) ∧ lower c = c := by
  have hrange := isDigit_iff.mp hc
  refine ⟨?_, fun s => ?_, ?_⟩
  -- white space is 32 and 9 to 13
  · simp only [isSpace, UInt8.le_iff_toNat_le, Bool.or_eq_false_iff, decide_eq_false_iff_not,
      Bool.and_eq_false_iff, ← UInt8.toNat_inj]
    simp
    omega
  -- a sign is 43 or 45
  · unfold sign
    split
    · simp_all
    · simp_all
    · rfl
  -- the letters begin at 65
  · simp only [lower, UInt8.le_iff_toNat_le]
    simp
    omega

/-- In front of digits there is neither white space nor a sign to skip. -/
theorem skip_digits (hds : IsDigits ds) (hne : ds ≠ []) (rest : List UInt8) :
    (ds ++ rest).dropWhile isSpace = ds ++ rest ∧ sign (ds ++ rest) = (false, ds ++ rest) := by
  cases ds with
  | nil => exact absurd rfl hne
  | cons c ds =>
    rcases digit_plain (hds c (by simp)) with ⟨hspace, hsign, -⟩
    exact ⟨by simp [hspace], hsign _⟩

/-- A number is read up to where it ends. -/
theorem integer_digits (hds : IsDigits ds) (hne : ds ≠ []) (hrest : Stop rest) :
    integer (ds ++ rest) = some ((number 10 ds : ℤ), rest) := by
  rcases takeWhile_digits hds hrest with ⟨htake, hdrop⟩
  simp [integer, (skip_digits hds hne rest).2, htake, hdrop, hne]

/-- Digits, a point and digits: all of them count, and those after the point divide. -/
theorem magnitude_point (hs : IsDigits s) (ht : IsDigits t) (hne : s ≠ []) (hrest : Stop rest) :
    magnitude 10 101 10 (s ++ 46 :: (t ++ rest)) =
      some ((number 10 (s ++ t) : ℚ) / 10 ^ t.length, rest) := by
  -- the whole digits end at the point
  have hpoint : Stop (46 :: (t ++ rest)) := by
    intro c hc
    rw [← Option.mem_some_iff.mp hc]
    decide
  rcases takeWhile_digits hs hpoint with ⟨hwhole, htail⟩
  rcases takeWhile_digits ht hrest with ⟨hpart, hdrop⟩
  -- and no exponent follows the others
  have hexp : exponent 101 rest = some (0, rest) := by
    cases rest with
    | nil => rfl
    | cons c rest => simp [exponent, (hrest c rfl).2]
  simp [magnitude, hwhole, htail, hpart, hdrop, hexp, hne]

/-- What starts with a digit, and goes on with a digit or a point, starts neither
`inf` nor `nan` nor `0x`. -/
theorem plain_of_point (hs : IsDigits s) (hne : s ≠ []) (rest : List UInt8) :
    ((s ++ 46 :: rest).take 3).map lower ≠ [105, 110, 102] ∧
      ((s ++ 46 :: rest).take 3).map lower ≠ [110, 97, 110] ∧
      ((s ++ 46 :: rest).take 2).map lower ≠ [48, 120] := by
  have hletter : ∀ c, isDigit 10 c = true → lower c ≠ 105 ∧ lower c ≠ 110 ∧ lower c ≠ 120 := by
    intro c hc
    have hrange := isDigit_iff.mp hc
    rw [(digit_plain hc).2.2]
    refine ⟨?_, ?_, ?_⟩ <;> · rintro rfl; simp at hrange
  match s, hne with
  -- one digit: the point comes second
  | [c], _ =>
    have hc := hletter c (hs c (by simp))
    have hdot : lower 46 ≠ 120 := by decide
    simp [hc, hdot]
  -- two digits at least
  | c :: d :: s, _ =>
    have hc := hletter c (hs c (by simp))
    have hd := hletter d (hs d (by simp))
    simp [hc, hd]

/-- `%f` on digits with a point between them. -/
theorem real_point (hs : IsDigits s) (ht : IsDigits t) (hne : s ≠ []) (hrest : Stop rest) :
    real (s ++ 46 :: (t ++ rest)) =
      some (.fin ((number 10 (s ++ t) : ℚ) / 10 ^ t.length), rest) := by
  have hsign := (skip_digits hs hne (46 :: (t ++ rest))).2
  rcases plain_of_point hs hne (t ++ rest) with ⟨hinf, hnan, hhex⟩
  simp only [real, hsign, if_neg hinf, if_neg hnan, if_neg hhex, magnitude_point hs ht hne hrest]
  simp

/-- `%f` reads what `%.kf` has printed. -/
theorem real_fixed {k : ℕ} (hk : 0 < k) (n : ℕ) (hrest : Stop rest) :
    real (fixed k n ++ rest) = some (.fin ((n : ℚ) / 10 ^ k), rest) := by
  have hlow : n % 10 ^ k < 10 ^ k := Nat.mod_lt _ (by positivity)
  -- what comes after the point has `k` places
  have hlen : (zeroPad k (decimal (n % 10 ^ k))).length = k := by
    rw [length_zeroPad, max_eq_left (length_decimal_le hk hlow)]
  -- and with what comes before it denotes `n`
  have hnumber :
      number 10 (decimal (n / 10 ^ k) ++ zeroPad k (decimal (n % 10 ^ k))) = n := by
    rw [number_append, number_zeroPad, number_decimal, number_decimal, hlen, Nat.div_add_mod']
  have hreal := real_point (isDigits_decimal (n / 10 ^ k))
    (isDigits_zeroPad (isDigits_decimal (n % 10 ^ k)) k) (decimal_ne_nil _) hrest
  rw [hnumber, hlen] at hreal
  simpa [fixed] using hreal

/-! ## Conversions -/

variable {fmt : List Directive}

attribute [local simp] scan

/-- A byte of the format is matched by itself. -/
theorem scan_lit (c : UInt8) (fmt : List Directive) (rest : List UInt8) :
    scan (.lit c :: fmt) (c :: rest) = scan fmt rest := by
  simp

/-- `%u` reads the digits, and the rest of the format goes on after them. -/
theorem scan_u (hds : IsDigits ds) (hne : ds ≠ []) (hrest : Stop rest) :
    scan (.u :: fmt) (ds ++ rest) = .int (number 10 ds) :: scan fmt rest := by
  simp [convert, intItem, (skip_digits hds hne rest).1, integer_digits hds hne hrest]

/-- `%d` does so too. -/
theorem scan_d (hds : IsDigits ds) (hne : ds ≠ []) (hrest : Stop rest) :
    scan (.d :: fmt) (ds ++ rest) = .int (number 10 ds) :: scan fmt rest := by
  simp [convert, intItem, (skip_digits hds hne rest).1, integer_digits hds hne hrest]

/-- `%f` reads what `%.kf` has printed, and the rest of the format goes on after it. -/
theorem scan_f {k : ℕ} (hk : 0 < k) (n : ℕ) (hrest : Stop rest) :
    scan (.f :: fmt) (fixed k n ++ rest) = .real (.fin ((n : ℚ) / 10 ^ k)) :: scan fmt rest := by
  have hskip : (fixed k n ++ rest).dropWhile isSpace = fixed k n ++ rest := by
    rw [fixed, List.append_assoc]
    exact (skip_digits (isDigits_decimal _) (decimal_ne_nil _) _).1
  simp [convert, realItem, hskip, real_fixed hk n hrest]

end Scanf

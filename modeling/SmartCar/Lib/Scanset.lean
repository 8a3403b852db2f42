import SmartCar.Lib.Numerals

/-!
# Formatted input: sets of characters, and values that are not kept

`Scanf.scan` knows the conversions that store a number. A format may also have conversions of
single characters and of strings over a set of characters (`%c`, `%[...]`), it may ask how much
has been read (`%n`), and it may suppress the store of a conversion (`%*d`). `fields` matches such
a format.

* `fields_lits`, `fields_int`, `fields_real`, `fields_set`: one directive, and the rest of the
  format;
* `integer_signed`: `%d` reads what `%d` has printed.
-/

namespace Scanf

open Printf

/-- A directive of a format; `keep` is `false` for a conversion with a `*`. -/
inductive Field
  | lit (c : UInt8) | white
  | int (keep : Bool) | real (keep : Bool)
  | set (keep : Bool) (p : UInt8 → Bool)
  | char | count

/-- What is stored for one conversion. -/
inductive Item
  | int (z : ℤ) | real (x : Real) | text (s : List UInt8) | char (c : UInt8) | count (n : ℕ)
deriving DecidableEq

/-- One directive on the input that is left: what is stored, and the rest. `size` is the length
of the whole input. -/
def field (size : ℕ) : Field → List UInt8 → Option (List Item × List UInt8)
  | .lit _, [] => none
  | .lit c, b :: t => if b = c then some ([], t) else none
  | .white, s => some ([], s.dropWhile isSpace)
  | .int keep, s =>
    (integer (s.dropWhile isSpace)).map fun (z, t) => (if keep then [.int z] else [], t)
  | .real keep, s =>
    (real (s.dropWhile isSpace)).map fun (x, t) => (if keep then [.real x] else [], t)
  -- white space is not skipped, and an empty string does not match
  | .set keep p, s =>
    if s.takeWhile p = [] then none
    else some (if keep then [.text (s.takeWhile p)] else [], s.dropWhile p)
  | .char, [] => none
  | .char, c :: t => some ([.char c], t)
  | .count, s => some ([.count (size - s.length)], s)

/-- The values stored, in order, up to the first directive that fails. -/
def fields (size : ℕ) : List Field → List UInt8 → List Item
  | [], _ => []
  | d :: fmt, s =>
    match field size d s with
    | some (stored, t) => stored ++ fields size fmt t
    | none => []

/-- `sscanf` -/
def sscanf (fmt : List Field) (s : List UInt8) : List Item := fields s.length fmt s

/-- A string in a format, blanks excepted. -/
def lits (s : List UInt8) : List Field := s.map .lit

variable {size : ℕ} {fmt : List Field} {s t rest : List UInt8} {keep : Bool} {p : UInt8 → Bool}

theorem fields_of_field {d : Field} {stored : List Item} (h : field size d s = some (stored, t)) :
    fields size (d :: fmt) s = stored ++ fields size fmt t := by
  rw [fields, h]

theorem fields_lits (s rest : List UInt8) :
    fields size (lits s ++ fmt) (s ++ rest) = fields size fmt rest := by
  induction s with
  | nil => rfl
  | cons c s ih =>
    have hlit : field size (.lit c) (c :: (s ++ rest)) = some ([], s ++ rest) := if_pos rfl
    change fields size (.lit c :: (lits s ++ fmt)) (c :: (s ++ rest)) = _
    rw [fields_of_field hlit, ih]
    rfl

/-- The text goes on with something that is no white space. -/
def NoSpace (rest : List UInt8) : Prop := ∀ c ∈ rest.head?, isSpace c = false

instance : ∀ rest : List UInt8, Decidable (NoSpace rest)
  | [] => .isTrue (by simp [NoSpace])
  | c :: _ => decidable_of_iff (isSpace c = false) (by simp [NoSpace])

/-- The rest of a text begins as the text does. -/
theorem NoSpace.append (h : NoSpace s) (hne : s ≠ []) (rest : List UInt8) :
    NoSpace (s ++ rest) := by
  intro c hc
  rw [List.head?_append_of_ne_nil s hne] at hc
  exact h c hc

theorem Stop.append (h : Stop s) (hne : s ≠ []) (rest : List UInt8) : Stop (s ++ rest) := by
  intro c hc
  rw [List.head?_append_of_ne_nil s hne] at hc
  exact h c hc

theorem NoSpace.dropWhile (h : NoSpace rest) : rest.dropWhile isSpace = rest := by
  cases rest with
  | nil => rfl
  | cons c rest => simp [h c rfl]

/-- White space in the format takes all that there is. -/
theorem fields_white (hs : ∀ c ∈ s, isSpace c = true) (hrest : NoSpace rest) :
    fields size (.white :: fmt) (s ++ rest) = fields size fmt rest := by
  have hwhite : field size .white (s ++ rest) = some ([], rest) := by
    rw [field, List.dropWhile_append_of_pos hs, hrest.dropWhile]
  rw [fields_of_field hwhite]
  rfl

theorem fields_int {z : ℤ} (hspace : NoSpace s) (h : integer s = some (z, rest)) :
    fields size (.int keep :: fmt) s = (if keep then [.int z] else []) ++ fields size fmt rest := by
  apply fields_of_field
  rw [field, hspace.dropWhile, h]
  rfl

theorem fields_real {x : Real} (hspace : NoSpace s) (h : real s = some (x, rest)) :
    fields size (.real keep :: fmt) s =
      (if keep then [.real x] else []) ++ fields size fmt rest := by
  apply fields_of_field
  rw [field, hspace.dropWhile, h]
  rfl

theorem fields_set (hne : s ≠ []) (hs : ∀ c ∈ s, p c = true)
    (hrest : ∀ c ∈ rest.head?, p c = false) :
    fields size (.set keep p :: fmt) (s ++ rest) =
      (if keep then [.text s] else []) ++ fields size fmt rest := by
  have hstop : rest.takeWhile p = [] ∧ rest.dropWhile p = rest := by
    cases rest with
    | nil => exact ⟨rfl, rfl⟩
    | cons c rest => simp [hrest c rfl]
  apply fields_of_field
  rw [field, List.takeWhile_append_of_pos hs, List.dropWhile_append_of_pos hs, hstop.1, hstop.2,
    List.append_nil, if_neg hne]

theorem fields_char (c : UInt8) (rest : List UInt8) :
    fields size (.char :: fmt) (c :: rest) = .char c :: fields size fmt rest := by
  have hchar : field size .char (c :: rest) = some ([.char c], rest) := rfl
  rw [fields_of_field hchar]
  rfl

theorem fields_count (s : List UInt8) :
    fields size (.count :: fmt) s = .count (size - s.length) :: fields size fmt s := by
  have hcount : field size .count s = some ([.count (size - s.length)], s) := by
    cases s <;> rfl
  rw [fields_of_field hcount]
  rfl

/-! ## Numbers with a sign -/

/-- A number without a sign begins with a digit. -/
theorem noSpace_decimal (n : ℕ) (rest : List UInt8) : NoSpace (decimal n ++ rest) := by
  have hdigits := isDigits_decimal n
  cases hds : decimal n with
  | nil => exact absurd hds (decimal_ne_nil n)
  | cons c ds =>
    intro b hb
    rw [List.cons_append, List.head?_cons] at hb
    rw [← Option.mem_some_iff.mp hb]
    exact (digit_plain (hdigits c (by rw [hds]; exact List.mem_cons_self))).1

theorem noSpace_signed (z : ℤ) (rest : List UInt8) : NoSpace (signed z ++ rest) := by
  unfold signed
  split
  · intro c hc
    rw [← Option.mem_some_iff.mp hc]
    decide
  · exact noSpace_decimal z.natAbs rest

/-- `%d` reads what `%d` has printed. -/
theorem integer_signed (z : ℤ) (hrest : Stop rest) :
    integer (signed z ++ rest) = some (z, rest) := by
  rcases takeWhile_digits (isDigits_decimal z.natAbs) hrest with ⟨htake, hdrop⟩
  unfold signed
  split
  · rename_i hneg
    have habs : -((z.natAbs : ℕ) : ℤ) = z := by omega
    rw [List.cons_append, integer, sign]
    dsimp only
    rw [htake, hdrop, if_neg (decimal_ne_nil z.natAbs), if_pos rfl, number_decimal, habs]
  · rename_i hpos
    have habs : ((z.natAbs : ℕ) : ℤ) = z := by omega
    rw [integer_digits (isDigits_decimal z.natAbs) (decimal_ne_nil z.natAbs) hrest,
      number_decimal, habs]

end Scanf

import Mathlib.Data.Rat.Defs
import Mathlib.Tactic.Common

/-!
# Formatted input

`sscanf` over lists of bytes, for the conversions `%d`, `%u` and `%f`. A format
is a list of directives; `scan` matches them from left to right against the
input, converts, and stops at the first mismatch. Numbers are exact; what a
conversion stores in its argument is up to the caller (`store`).
-/

namespace Scanf

/-! ## Characters -/

def isSpace (c : UInt8) : Bool := c = 32 || (9 ≤ c && c ≤ 13)

/-- The value of a digit, letters included. -/
def digitVal (c : UInt8) : ℕ :=
  if 48 ≤ c ∧ c ≤ 57 then c.toNat - 48
  else if 65 ≤ c ∧ c ≤ 90 then c.toNat - 55
  else if 97 ≤ c ∧ c ≤ 122 then c.toNat - 87
  else 36

def isDigit (base : ℕ) (c : UInt8) : Bool := digitVal c < base

/-- The number that a list of digits denotes. -/
def number (base : ℕ) (ds : List UInt8) : ℕ := ds.foldl (fun n c => n * base + digitVal c) 0

/-- Upper case letters in lower case. -/
def lower (c : UInt8) : UInt8 := if 65 ≤ c ∧ c ≤ 90 then c + 32 else c

/-! ## Input items

Each function below returns the value of the longest input item at the front of
its argument and the rest, or `none` if the item does not match. -/

/-- An optional sign: whether it is `-`, and the rest. -/
def sign : List UInt8 → Bool × List UInt8
  | 43 :: s => (false, s)
  | 45 :: s => (true, s)
  | s => (false, s)

/-- `%d` and `%u`: an optional sign and decimal digits. -/
def integer (s : List UInt8) : Option (ℤ × List UInt8) :=
  let (negative, t) := sign s
  let ds := t.takeWhile (isDigit 10)
  if ds = [] then none
  else some (if negative then -(number 10 ds : ℤ) else number 10 ds, t.dropWhile (isDigit 10))

/-- What `%f` converts to. The zero of `-0.0` has a sign. -/
inductive Real
  | fin (q : ℚ) | negZero | inf | negInf | nan
deriving DecidableEq, Repr

def Real.neg : Real → Real
  | fin q => if q = 0 then negZero else fin (-q)
  | negZero => fin 0
  | inf => negInf
  | negInf => inf
  | nan => nan

/-- An exponent, introduced by `mark`; without the mark it is 0. -/
def exponent (mark : UInt8) : List UInt8 → Option (ℤ × List UInt8)
  | [] => some (0, [])
  | c :: s => if lower c = mark then integer s else some (0, c :: s)

/-- Digits with an optional point, and an optional exponent of base `expBase`. -/
def magnitude (base : ℕ) (mark : UInt8) (expBase : ℚ) (s : List UInt8) :
    Option (ℚ × List UInt8) :=
  let whole := s.takeWhile (isDigit base)
  let t := s.dropWhile (isDigit base)
  -- digits may follow the point, and one side of it may have none
  let point := t.take 1 = [46]
  let t := if point then t.drop 1 else t
  let part := if point then t.takeWhile (isDigit base) else []
  let t := if point then t.dropWhile (isDigit base) else t
  if whole ++ part = [] then none
  else
    (exponent mark t).map fun (e, t) =>
      ((number base (whole ++ part) : ℚ) / (base : ℚ) ^ part.length * expBase ^ e, t)

/-- The part of `nan(...)` after `nan`. -/
def nanTail : List UInt8 → Option (List UInt8)
  | 40 :: s =>
    match s.dropWhile fun c => isDigit 36 c || c = 95 with
    | 41 :: t => some t
    | _ => none
  | s => some s

/-- `%f`: a decimal or hexadecimal number, an infinity or a NaN, with an optional
sign. -/
def real (s : List UInt8) : Option (Real × List UInt8) :=
  let (negative, t) := sign s
  if (t.take 3).map lower = [105, 110, 102] then           -- inf
    let rest := t.drop 3
    if (rest.take 1).map lower = [105] then                -- infinity
      if (rest.take 5).map lower = [105, 110, 105, 116, 121] then
        some (if negative then .negInf else .inf, rest.drop 5)
      else none
    else some (if negative then .negInf else .inf, rest)
  else if (t.take 3).map lower = [110, 97, 110] then       -- nan
    (nanTail (t.drop 3)).map fun rest => (.nan, rest)
  else
    let m :=
      if (t.take 2).map lower = [48, 120] then magnitude 16 112 2 (t.drop 2)   -- 0x
      else magnitude 10 101 10 t
    m.map fun (q, rest) => (if negative then (Real.fin q).neg else .fin q, rest)

/-! ## Formats -/

/-- A directive of a format: an ordinary character, white space, or a conversion. -/
inductive Directive
  | lit (c : UInt8) | white | d | u | f
deriving DecidableEq, Repr

/-- A converted value. -/
inductive Value
  | int (z : ℤ) | real (x : Real)
deriving DecidableEq, Repr

/-- The integer that `%d` or `%u` delivers. -/
def intOf : Value → ℤ
  | .int z => z
  | .real _ => 0

/-- The number that `%f` delivers. -/
def realOf : Value → Real
  | .int _ => .fin 0
  | .real x => x

/-- A conversion: white space is skipped, then an input item is converted. -/
def convert (item : List UInt8 → Option (Value × List UInt8)) (s : List UInt8) :
    Option (Value × List UInt8) :=
  item (s.dropWhile isSpace)

def intItem (s : List UInt8) : Option (Value × List UInt8) :=
  (integer s).map fun (z, t) => (.int z, t)

def realItem (s : List UInt8) : Option (Value × List UInt8) :=
  (real s).map fun (x, t) => (.real x, t)

/-- The values converted, in order, up to the first directive that fails. -/
def scan : List Directive → List UInt8 → List Value
  | [], _ => []
  | .lit c :: fmt, s =>
    match s with
    | b :: t => if b = c then scan fmt t else []
    | [] => []
  | .white :: fmt, s => scan fmt (s.dropWhile isSpace)
  | .d :: fmt, s | .u :: fmt, s =>
    match convert intItem s with
    | some (v, t) => v :: scan fmt t
    | none => []
  | .f :: fmt, s =>
    match convert realItem s with
    | some (v, t) => v :: scan fmt t
    | none => []

/-- Store the values through the arguments of the call, in order. -/
def store {σ : Type*} (args : List (Value → σ → σ)) (vs : List Value) (s : σ) : σ :=
  (args.zip vs).foldl (fun s (arg, v) => arg v s) s

/-- What every argument keeps is kept. -/
theorem store_keeps {σ : Type*} {args : List (Value → σ → σ)} {p : σ → Prop}
    (h : ∀ a ∈ args, ∀ v s, p s → p (a v s)) (vs : List Value) {s : σ} (hs : p s) :
    p (store args vs s) := by
  induction args generalizing vs s with
  | nil => exact hs
  | cons a args ih =>
    cases vs with
    | nil => exact hs
    | cons v vs =>
      exact ih (fun b hb => h b (List.mem_cons_of_mem a hb)) vs (h a List.mem_cons_self v s hs)

/-- The C string that starts a block of bytes: what comes before the first NUL. -/
def cString (bytes : List UInt8) : List UInt8 := bytes.takeWhile (· ≠ 0)

/-- A string without NULs and its terminator, whatever follows. -/
theorem cString_append {s rest : List UInt8} (h : (0 : UInt8) ∉ s) :
    cString (s ++ 0 :: rest) = s := by
  unfold cString
  rw [List.takeWhile_append_of_pos]
  · simp
  · intro b hb
    have hne : b ≠ 0 := fun h0 => h (h0 ▸ hb)
    simpa using hne

end Scanf

import Mathlib.Data.Rat.Defs
import SmartCar.Lib.Clamp
import SmartCar.Menu.Keys

/-!
# menu: the parameters

`key_adjust_param` moves the selected parameter by a step, and clamps what has been stored in it.
An integer parameter is an unsigned cell: a sum or a difference outside of it wraps before it is
clamped.

* `adjust_exact_iff`: the parameter comes out at the exact value, cut at its bound, if and only
  if the store does not wrap.
-/

namespace SmartCar.Menu

open Clamp

/-! ## The table of parameters -/

/-- `U8Param` and `U16Param`, by the width of the cell; with the value that it points to. -/
structure IntParam (w : ℕ) where
  value : BitVec w
  min : BitVec w
  max : BitVec w
  step : BitVec w
deriving DecidableEq, Repr

abbrev U8Param := IntParam 8

abbrev U16Param := IntParam 16

/-- `F32Param` and `F64Param`, with exact rationals for `float` and `double`. -/
structure RealParam where
  value : ℚ
  min : ℚ
  max : ℚ
  step : ℚ
deriving DecidableEq, Repr

/-- `Param`: its type, and the part of the union that goes with it. -/
inductive Param
  | u8 (p : U8Param)
  | u16 (p : U16Param)
  | f32 (p : RealParam)
  | f64 (p : RealParam)
  | bool (value : Bool)
deriving DecidableEq, Repr

/-- `param_count` -/
def paramCount : ℕ := 3

/-- `params` at power-up. -/
def powerUpParams : Vector Param paramCount :=
  #v[.u16 ⟨80, 70, 130, 5⟩, .u16 ⟨70, 60, 120, 5⟩, .bool true]

/-! ## The menu -/

/-- What the keys act on. -/
structure State where
  keys : Keys
  currentPageId : UInt16
  cubeInfoTableSelectedRow : UInt8
  paramTableSelectedRow : UInt8
  params : Vector Param paramCount
  motorEnableFlag : Bool

/-- `key_clear_state` -/
def State.clearKey (s : State) (key : KeyIndex) : State :=
  { s with keys := keyClearState key s.keys }

/-- The index at which `key_adjust_param` looks up the parameter. -/
def State.paramIndex (s : State) : ℤ := s.paramTableSelectedRow.toNat - 1

/-- An index of `params`. -/
def InTable (index : ℤ) : Prop := 0 ≤ index ∧ index ≤ paramCount - 1

instance (index : ℤ) : Decidable (InTable index) := inferInstanceAs (Decidable (_ ∧ _))

theorem InTable.toNat_lt {index : ℤ} (h : InTable index) : index.toNat < paramCount := by
  obtain ⟨hnonneg, hle⟩ := h
  simp only [paramCount] at hle ⊢
  omega

/-! ## key_adjust_param -/

/-- The sum is an `int`, and is narrowed to the cell; only then it is clamped. -/
def IntParam.adjust {w : ℕ} (sign : ℤ) (p : IntParam w) : IntParam w :=
  { p with value := clamp p.min p.max (.ofInt w (p.value.toNat + sign * p.step.toNat)) }

def RealParam.adjust (sign : ℤ) (p : RealParam) : RealParam :=
  { p with value := clamp p.min p.max (p.value + sign * p.step) }

/-- The switch over the type of the parameter. -/
def Param.adjust (sign : ℤ) : Param → Param
  | .u8 p => .u8 (p.adjust sign)
  | .u16 p => .u16 (p.adjust sign)
  | .f32 p => .f32 (p.adjust sign)
  | .f64 p => .f64 (p.adjust sign)
  | .bool value => .bool !value

/-- Entry `i` of the table is adjusted. -/
def State.adjustEntry (s : State) (i : Fin paramCount) (sign : ℤ) : State :=
  { s with params := s.params.set i (s.params[i].adjust sign) }

/-- The parameter of the selected row is adjusted. Outside of the table there is none: what the
program does there is undefined. -/
def State.adjustParam (s : State) (sign : ℤ) : Option State :=
  if h : InTable s.paramIndex then some (s.adjustEntry ⟨s.paramIndex.toNat, h.toNat_lt⟩ sign)
  else none

/-- `key_adjust_param` -/
def keyAdjustParam (keyPlus keyMinus : KeyIndex) (s : State) : Option State :=
  let keyPlusPressed := keyGetState keyPlus s.keys ≠ .release
  let keyMinusPressed := keyGetState keyMinus s.keys ≠ .release
  if keyPlusPressed ↔ keyMinusPressed then some s
  else
    (s.adjustParam (if keyPlusPressed then 1 else -1)).map fun s' =>
      (s'.clearKey keyPlus).clearKey keyMinus

/-! ## The numbers of a parameter -/

/-- What the numbers of an integer parameter are, and the width of its cell. -/
structure Number where
  bits : ℕ
  value : ℤ
  min : ℤ
  max : ℤ
  step : ℤ
deriving DecidableEq

def IntParam.number {w : ℕ} (p : IntParam w) : Number :=
  ⟨w, p.value.toNat, p.min.toNat, p.max.toNat, p.step.toNat⟩

/-- The numbers of a `U8_PARAM` or a `U16_PARAM`. -/
def Param.number? : Param → Option Number
  | .u8 p => some p.number
  | .u16 p => some p.number
  | _ => none

/-- The numbers after `key_adjust_param`: the step wraps, and is then clamped. -/
def Number.adjust (sign : ℤ) (n : Number) : Number :=
  { n with value := clamp n.min n.max ((n.value + sign * n.step) % 2 ^ n.bits) }

theorem IntParam.number_adjust {w : ℕ} (sign : ℤ) (p : IntParam w) :
    (p.adjust sign).number = p.number.adjust sign := by
  simp only [IntParam.number, IntParam.adjust, Number.adjust, toNat_clamp, BitVec.toNat_ofInt]
  -- the store keeps the sum modulo `2 ^ w`, which is not negative
  have hpos : (0 : ℤ) < 2 ^ w := by positivity
  have hnonneg := Int.emod_nonneg (p.value.toNat + sign * p.step.toNat) hpos.ne'
  rw [Nat.cast_pow, Nat.cast_ofNat, Int.toNat_of_nonneg hnonneg]

theorem Param.number?_adjust (sign : ℤ) (p : Param) :
    (p.adjust sign).number? = p.number?.map (Number.adjust sign) := by
  cases p with
  | u8 p => exact congrArg some (p.number_adjust sign)
  | u16 p => exact congrArg some (p.number_adjust sign)
  | _ => rfl

/-- The numbers of a cell are within its width. -/
structure Number.Fits (n : Number) : Prop where
  min : 0 ≤ n.min
  max : n.max < 2 ^ n.bits
  step : 0 ≤ n.step ∧ n.step < 2 ^ n.bits

theorem IntParam.fits {w : ℕ} (p : IntParam w) : p.number.Fits := by
  have hlt : ∀ x : BitVec w, (x.toNat : ℤ) < 2 ^ w := by
    intro x
    exact_mod_cast x.isLt
  exact ⟨Int.natCast_nonneg _, hlt p.max, Int.natCast_nonneg _, hlt p.step⟩

theorem Param.fits {p : Param} {n : Number} (h : p.number? = some n) : n.Fits := by
  cases p with
  | u8 p =>
    obtain rfl := Option.some.inj h
    exact p.fits
  | u16 p =>
    obtain rfl := Option.some.inj h
    exact p.fits
  | _ => cases h

/-! ## A call with one key -/

/-- One of the two keys is pressed, the other is not. -/
def OnlyPressed (key other : KeyIndex) (s : State) : Prop :=
  keyGetState key s.keys ≠ .release ∧ keyGetState other s.keys = .release

/-- The value of an integer parameter. -/
def State.valueAt (s : State) (i : Fin paramCount) : Option ℤ :=
  s.params[i].number?.map Number.value

/-- `key_adjust_param` leaves parameter `i` with the value `v`. -/
def AdjustsTo (keyPlus keyMinus : KeyIndex) (s : State) (i : Fin paramCount) (v : ℤ) : Prop :=
  (keyAdjustParam keyPlus keyMinus s).bind (fun s' => s'.valueAt i) = some v

theorem adjustParam_of_row {s : State} {i : Fin paramCount} (hrow : s.paramIndex = (i : ℕ))
    (sign : ℤ) : s.adjustParam sign = some (s.adjustEntry i sign) := by
  have hin : InTable s.paramIndex := by
    have hlt := i.isLt
    rw [hrow, InTable]
    omega
  have hi : (⟨s.paramIndex.toNat, hin.toNat_lt⟩ : Fin paramCount) = i := by
    apply Fin.ext
    simp [hrow]
  rw [State.adjustParam, dif_pos hin, hi]

@[simp] theorem valueAt_clearKey (s : State) (key : KeyIndex) (i : Fin paramCount) :
    (s.clearKey key).valueAt i = s.valueAt i := rfl

/-- What an entry is adjusted to. -/
theorem valueAt_adjustEntry {s : State} {i : Fin paramCount} {n : Number}
    (hn : s.params[i].number? = some n) (sign : ℤ) :
    (s.adjustEntry i sign).valueAt i = some (n.adjust sign).value := by
  have hentry : (s.adjustEntry i sign).params[i] = s.params[i].adjust sign := by
    simp [State.adjustEntry]
  rw [State.valueAt, hentry, Param.number?_adjust, hn]
  rfl

variable {keyPlus keyMinus : KeyIndex} {s : State}

theorem keyAdjustParam_of_plus (h : OnlyPressed keyPlus keyMinus s) :
    keyAdjustParam keyPlus keyMinus s =
      (s.adjustParam 1).map fun s' => (s'.clearKey keyPlus).clearKey keyMinus := by
  simp [keyAdjustParam, h.1, h.2]

theorem keyAdjustParam_of_minus (h : OnlyPressed keyMinus keyPlus s) :
    keyAdjustParam keyPlus keyMinus s =
      (s.adjustParam (-1)).map fun s' => (s'.clearKey keyPlus).clearKey keyMinus := by
  simp [keyAdjustParam, h.1, h.2]

theorem adjustsTo_iff {sign : ℤ}
    (hcall : keyAdjustParam keyPlus keyMinus s =
      (s.adjustParam sign).map fun s' => (s'.clearKey keyPlus).clearKey keyMinus)
    {i : Fin paramCount} (hrow : s.paramIndex = (i : ℕ)) {n : Number}
    (hn : s.params[i].number? = some n) (v : ℤ) :
    AdjustsTo keyPlus keyMinus s i v ↔ (n.adjust sign).value = v := by
  rw [AdjustsTo, hcall, adjustParam_of_row hrow, Option.map_some, Option.bind_some,
    valueAt_clearKey, valueAt_clearKey, valueAt_adjustEntry hn, Option.some.injEq]

/-! ## The law -/

/-- The plus key alone takes the selected parameter to `min(max, value + step)` if and only if
the sum fits the cell, and the minus key alone to `max(min, value - step)` if and only if the
difference does; a parameter with one value only keeps it. -/
theorem adjust_exact_iff (keyPlus keyMinus : KeyIndex) (s : State) (i : Fin paramCount)
    (hrow : s.paramIndex = (i : ℕ)) (n : Number) (hn : s.params[i].number? = some n)
    (hmin : n.min ≤ n.value) (hmax : n.value ≤ n.max) :
    (OnlyPressed keyPlus keyMinus s →
      (AdjustsTo keyPlus keyMinus s i (min n.max (n.value + n.step)) ↔
        n.value + n.step < 2 ^ n.bits ∨ n.min = n.max)) ∧
    (OnlyPressed keyMinus keyPlus s →
      (AdjustsTo keyPlus keyMinus s i (max n.min (n.value - n.step)) ↔
        n.step ≤ n.value ∨ n.min = n.max)) := by
  have hfits := Param.fits hn
  constructor
  · intro hplus
    rw [adjustsTo_iff (keyAdjustParam_of_plus hplus) hrow hn, Number.adjust, one_mul]
    exact clamp_add_emod_iff hfits.min hmin hmax hfits.max hfits.step
  · intro hminus
    rw [adjustsTo_iff (keyAdjustParam_of_minus hminus) hrow hn, Number.adjust, neg_one_mul,
      ← sub_eq_add_neg]
    exact clamp_sub_emod_iff hfits.min hmin hmax hfits.max hfits.step

/-! ## A step below 0 -/

/-- The parameter of the first row. -/
def firstParam : Fin paramCount := ⟨0, by decide⟩

/-- The first row is selected, and one key has been pressed. -/
def selectedFirst (key : KeyIndex) (params : Vector Param paramCount) : State where
  keys := Function.update noKeys key ⟨0, .shortPress⟩
  currentPageId := 0
  cubeInfoTableSelectedRow := 1
  paramTableSelectedRow := 1
  params := params
  motorEnableFlag := false

theorem adjust_exact_iff_straight :
    (OnlyPressed .key3 .key4 (selectedFirst .key3 powerUpParams) →
      (AdjustsTo .key3 .key4 (selectedFirst .key3 powerUpParams) firstParam (min 130 (80 + 5)) ↔
        (80 : ℤ) + 5 < 2 ^ 16 ∨ (70 : ℤ) = 130)) ∧
    (OnlyPressed .key4 .key3 (selectedFirst .key3 powerUpParams) →
      (AdjustsTo .key3 .key4 (selectedFirst .key3 powerUpParams) firstParam (max 70 (80 - 5)) ↔
        (5 : ℤ) ≤ 80 ∨ (70 : ℤ) = 130)) :=
  adjust_exact_iff .key3 .key4 (selectedFirst .key3 powerUpParams) firstParam (by decide)
    ⟨16, 80, 70, 130, 5⟩ (by decide) (by decide) (by decide)

/-- A parameter from 0 to 100, three above its minimum. -/
def nearZero : Vector Param paramCount :=
  #v[.u16 ⟨3, 0, 100, 5⟩, .u16 ⟨70, 60, 120, 5⟩, .bool true]

/-- The minus key takes it to its maximum. -/
theorem nearZero_wraps :
    (selectedFirst .key4 nearZero).params[firstParam].number? = some ⟨16, 3, 0, 100, 5⟩ ∧
      OnlyPressed .key4 .key3 (selectedFirst .key4 nearZero) ∧
      AdjustsTo .key3 .key4 (selectedFirst .key4 nearZero) firstParam 100 ∧
      ¬ AdjustsTo .key3 .key4 (selectedFirst .key4 nearZero) firstParam (max 0 (3 - 5)) := by
  have hto : AdjustsTo .key3 .key4 (selectedFirst .key4 nearZero) firstParam 100 := by
    unfold AdjustsTo
    decide +kernel
  refine ⟨by decide, ⟨by decide, by decide⟩, hto, ?_⟩
  rw [AdjustsTo] at hto ⊢
  rw [hto]
  decide

end SmartCar.Menu

import SmartCar.Lib.CInt
import SmartCar.Lib.Goto

/-!
# mt_image: the state of the track search

The constants of `mt_image.h`, the element types, and the variables of
`search`. The variables come in pairs (`xl`/`xr`, `xls`/`xrs`, `ml`/`mr`, ...);
a pair is the same field of two `Track` records. Integers are `ℤ`, narrowed to
their C type at each store.
-/

namespace SmartCar.MtImage

/-! ## Constants -/

@[simp] abbrev xMid : ℤ := 93
@[simp] abbrev xMin : ℤ := 1
@[simp] abbrev xMax : ℤ := 186
@[simp] abbrev yMax : ℤ := 119
@[simp] abbrev height : ℤ := 120

@[simp] abbrev yNormalMin : ℤ := 60
@[simp] abbrev yBdMin : ℤ := 38
@[simp] abbrev yBottomMin : ℤ := 78
@[simp] abbrev yBottomBothLostMin : ℤ := 110
@[simp] abbrev yXrTopMin : ℤ := 50
@[simp] abbrev yXrTopMax : ℤ := 80
@[simp] abbrev xXrTopMin : ℤ := 45
@[simp] abbrev xXrTopMax : ℤ := 143
@[simp] abbrev yXrMHeight : ℤ := 5
@[simp] abbrev yXrMOffset : ℤ := 2
@[simp] abbrev yStrictGMax : ℤ := 45
@[simp] abbrev dxBdMax : ℤ := 5
@[simp] abbrev dxBdInvMax : ℤ := 5
@[simp] abbrev dxMMax : ℤ := 2
@[simp] abbrev bdNgCountMax : ℤ := 3
@[simp] abbrev bdGCountMax : ℤ := 2
@[simp] abbrev cvConvex : ℤ := 4
@[simp] abbrev lpConvex : ℤ := -4
@[simp] abbrev lpUpCountMax : ℤ := 3
@[simp] abbrev lpUpFailedMax : ℤ := 3
@[simp] abbrev leDnMax : ℤ := 3
@[simp] abbrev leUpMax : ℤ := 3
@[simp] abbrev leUpCountMax : ℤ := 3
@[simp] abbrev yLpMin : ℤ := 30
@[simp] abbrev xLpCornerRMin : ℤ := xMin
@[simp] abbrev xLpCornerRMax : ℤ := 150
@[simp] abbrev xLpCornerLMin : ℤ := 20
@[simp] abbrev xLpCornerLMax : ℤ := xMax
@[simp] abbrev xLpCornerLOffset : ℤ := 5
@[simp] abbrev xLpCornerROffset : ℤ := 10
@[simp] abbrev convexLimit : ℤ := 2
@[simp] abbrev bothCountMin : ℤ := 5

/-- `EMPTY`: not road. The other pixel values are `ROAD` and, in the debug build,
the marks. -/
@[simp] abbrev EMPTY : UInt8 := 0
@[simp] abbrev ROAD : UInt8 := 1
@[simp] abbrev BOUND : UInt8 := 2
@[simp] abbrev MID_LINE : UInt8 := 3
@[simp] abbrev BOUND_APP : UInt8 := 4
@[simp] abbrev SPECIAL : UInt8 := 5

/-- The rows of `STD_WIDTH` from 40 on; the rows above are 0. -/
def stdWidthTail : List ℤ :=
  [7, 8, 9, 10, 11, 12, 13, 14,
   15, 15, 16, 17, 18, 19, 19, 20,
   21, 22, 23, 23, 24, 25, 26, 26,
   27, 28, 29, 30, 30, 31, 32, 33,
   34, 34, 35, 36, 37, 38, 38, 39,
   40, 41, 42, 42, 43, 44, 45, 46,
   46, 47, 48, 49, 50, 51, 51, 52,
   53, 54, 55, 55, 56, 57, 58, 58,
   59, 60, 61, 61, 62, 63, 64, 64,
   65, 66, 67, 68, 68, 69, 70, 71]

/-- `STD_WIDTH[y]`. -/
def stdWidth (y : ℤ) : ℤ := if y < 40 then 0 else stdWidthTail.getD (y - 40).toNat 0

theorem stdWidthTail_range (n : ℕ) (h : n < 80) :
    7 ≤ stdWidthTail.getD n 0 ∧ stdWidthTail.getD n 0 ≤ 71 := by
  have hall : ∀ n < 80, 7 ≤ stdWidthTail.getD n 0 ∧ stdWidthTail.getD n 0 ≤ 71 := by decide
  exact hall n h

theorem stdWidth_of_lt {y : ℤ} (h : y < 40) : stdWidth y = 0 := if_pos h

theorem stdWidth_pos {y : ℤ} (h : 40 ≤ y) (h' : y ≤ 119) : 0 < stdWidth y := by
  rw [stdWidth, if_neg (by omega)]
  have := (stdWidthTail_range (y - 40).toNat (by omega)).1
  omega

theorem stdWidth_range {y : ℤ} (h : y ≤ 119) : 0 ≤ stdWidth y ∧ stdWidth y ≤ 71 := by
  unfold stdWidth
  split
  · decide
  · have := stdWidthTail_range (y - 40).toNat (by omega)
    omega

/-! ## Element types -/

/-- `ElementType`, in the order of the enumeration. -/
inductive ElementType
  | zebra | curveLeft | curveRight | normal | crossBefore | cross
  | loopLeftBefore | loopRightBefore | loopLeftBefore2 | loopRightBefore2
  | loopLeft | loopRight | loopLeftAfter | loopRightAfter | rampLeft | rampRight
deriving DecidableEq, Repr

/-- The enumeration's integer value. -/
def ElementType.val : ElementType → ℕ
  | zebra => 0 | curveLeft => 1 | curveRight => 2 | normal => 3 | crossBefore => 4
  | cross => 5 | loopLeftBefore => 6 | loopRightBefore => 7 | loopLeftBefore2 => 8
  | loopRightBefore2 => 9 | loopLeft => 10 | loopRight => 11 | loopLeftAfter => 12
  | loopRightAfter => 13 | rampLeft => 14 | rampRight => 15

instance : LE ElementType := ⟨fun a b => a.val ≤ b.val⟩
instance : LT ElementType := ⟨fun a b => a.val < b.val⟩

instance (a b : ElementType) : Decidable (a ≤ b) := inferInstanceAs (Decidable (_ ≤ _))
instance (a b : ElementType) : Decidable (a < b) := inferInstanceAs (Decidable (_ < _))

/-! ## The offset -/

/-- The value of a `double` expression whose operands are exact: a rational, or
what a division by zero gives. -/
inductive F64
  | fin (q : ℚ) | inf | negInf | nan
deriving DecidableEq, Repr

/-- `a / b` in `double`, for an integral divisor that is not negative. -/
def F64.quot (a : ℚ) (b : ℤ) : F64 :=
  if b ≠ 0 then .fin (a / b)
  else if 0 < a then .inf
  else if a < 0 then .negInf
  else .nan

/-- `(int8) x`, as far as it is defined. -/
def F64.toI8 : F64 → ℤ
  | fin q => CInt.i8 (CInt.trunc q)
  | _ => 0

/-! ## Variables -/

/-- A side of the track. -/
inductive Side
  | left | right
deriving DecidableEq, Repr

namespace Side

/-- The direction from the side's border towards the middle. -/
@[simp] def sgn : Side → ℤ
  | left => 1
  | right => -1

/-- The column at which the side counts as lost: `X_MIN` or `X_MAX`. -/
@[simp] def edge : Side → ℤ
  | left => xMin
  | right => xMax

end Side

/-- The labels of `search` and the heads of its loops. -/
inductive Pc
  | entry | zebra
  | bottom | bottomLeft (thenRight : Bool) | bottomRight | bottomSeek | bottomTest | bottomFound
  | edge (d : Side) | dispatch
  | normalBound | row | side (d : Side) | inward (d : Side) | outward (d : Side)
  | exitProbe (d : Side) | exitColumn (d : Side) | exitDown (d : Side) | exitUp (d : Side)
  | exitClimb (d : Side) | record (d : Side) | normalEnd
  | loop | loopDrop (d : Side) | loopRise (d : Side) | corner (d : Side) | cornerUp (d : Side)
  | cornerDown (d : Side) | append (d : Side) | loopCancel
  | crossBound | top | topLeft (thenRight : Bool) | topRight | topSeek | topTest | topNext
  | crossRow | crossOut (d : Side) | crossIn (d : Side) | crossRecord (d : Side) | crossEnd
  | analyze | mid | midRow
deriving DecidableEq, Repr

/-- The variables that `search` keeps once for each side; the comments give the
names in the source. -/
structure Track where
  x : ℤ                -- xl, xr
  xs : ℤ → ℤ           -- xls, xrs
  m : ℚ                -- ml, mr
  mSet : Bool          -- ml_set, mr_set
  pad : Bool           -- l_pad, r_pad
  y0 : ℤ               -- y0l, y0r
  unset : Bool         -- l_unset, r_unset
  convex : ℤ           -- l_convex, r_convex
  inn : ℤ              -- l_r, r_l: rows on which the edge moved inwards
  out : ℤ              -- l_l, r_r: rows on which it did not
  cont : ℤ             -- l_l_cont, r_r_cont
  dx : ℤ               -- l_dx, r_dx
  ngCount : ℤ
  gCount : ℤ
  ng : Bool
  stop0 : Bool
  stop : Bool
  segs : ℤ

/-- The variables of `search`, with `image_result` and the program point. -/
structure State where
  pc : Pc
  elementType : ElementType
  offset : F64
  el : ElementType
  prevElNormal : Bool
  -- zebra detection
  zx : ℤ               -- x
  curr : UInt8         -- CURR
  changeCount : ℤ
  -- tracking
  y : ℤ
  dx : ℤ
  xm : ℤ
  l : Track
  r : Track
  yStart : ℤ
  yEnd : ℤ
  lost : Bool
  leFailed : Bool
  crossTop : Bool
  -- lateral exit and loop corner: xc, yc, dy, up_count, up_failed_count, y0, y1
  xc : ℤ
  yc : ℤ
  dy : ℤ
  upCount : ℤ
  upFailedCount : ℤ
  y0 : ℤ
  y1 : ℤ
  -- appended boundary: xlf or xrf, and m
  xf : ℚ
  m : ℚ
  -- midline
  sw : ℤ
  so : ℚ
  kw : ℚ
  dxm : ℤ
  bothCount : ℤ

namespace State

/-- The variables of side `d`. -/
@[simp] def track (s : State) : Side → Track
  | .left => s.l
  | .right => s.r

/-- Replace the variables of side `d`. -/
@[simp] def setTrack (s : State) (d : Side) (t : Track) : State :=
  match d with
  | .left => { s with l := t }
  | .right => { s with r := t }

/-- Move the cursor of side `d`. -/
@[simp] def setX (s : State) (d : Side) (x : ℤ) : State := s.setTrack d { s.track d with x := x }

/-- Store a column of side `d` for row `y`. -/
@[simp] def setXs (s : State) (d : Side) (y x : ℤ) : State :=
  s.setTrack d { s.track d with xs := Function.update (s.track d).xs y x }

end State

/-! ## What `search` does to its memory -/

/-- A use of an index of one of the tables of `search`. -/
inductive Entry
  | xls (y : ℤ) | xrs (y : ℤ) | stdWidth (y : ℤ)
deriving DecidableEq, Repr

/-- The table of columns of side `d`. -/
def Entry.xs : Side → ℤ → Entry
  | .left => xls
  | .right => xrs

/-- A use of `SET_IMG(x, y, T)`. -/
structure Mark where
  x : ℤ
  y : ℤ
  t : UInt8

/-- A cell `image[y][x]`, as a pair `(y, x)`. -/
abbrev Cell := ℤ × ℤ

instance neZero_rows : NeZero 120 := ⟨by decide⟩

instance neZero_columns : NeZero 188 := ⟨by decide⟩

/-- A binarised image: the pixels that are road. -/
abbrev Image := Fin 120 → Fin 188 → Bool

/-- The value of `image[y][x]`, the array being 120 rows of 188 bytes on end. An
address outside the array holds the byte that `beyond` says. -/
def memory (image : Image) (beyond : ℤ → UInt8) (c : Cell) : UInt8 :=
  let a := c.1 * 188 + c.2
  if 0 ≤ a ∧ a < 120 * 188 then
    if image (Fin.ofNat 120 (a / 188).toNat) (Fin.ofNat 188 (a % 188).toNat) then ROAD else EMPTY
  else beyond a

/-- What `search` does between two labels. -/
abbrev Go := Act State Cell Entry Mark UInt8

end SmartCar.MtImage

import Mathlib.Data.Fintype.Prod
import Mathlib.Data.List.FinRange
import Mathlib.Tactic.Common

/-!
# cube_detection: the red cube in the camera image

`find_red_cube_center` on the MCX board. One pass over the image counts the red
pixels, in total and for each column and each row; the box of the cube is then
bounded by the outermost columns and rows that hold enough of them.
-/

namespace SmartCar.Mcx

/-! ## Constants and records -/

def scc8660W : ℕ := 320
def scc8660H : ℕ := 240
def rBaseThreshold : UInt8 := 150
def minPixelCount : UInt32 := 4200
def minXPixelCount : UInt8 := 60
def minYPixelCount : UInt8 := 60

/-- `CubeInfo` of the MCX board. -/
structure CubeInfo where
  exist : Bool
  pixelCount : UInt32
  xCenter : UInt16
  yCenter : UInt16
  xMin : ℤ
  xMax : ℤ
  yMin : ℤ
  yMax : ℤ
deriving DecidableEq

/-- The reports that `find_red_cube_center` leaves. -/
structure CubeInfo.InRange (cube : CubeInfo) : Prop where
  xCenter : cube.xCenter < 320
  yCenter : cube.yCenter < 240
  pixelCount : cube.pixelCount ≤ 76800

/-- A camera image, row by row. -/
abbrev Image := Fin scc8660H → Fin scc8660W → UInt16

structure Rgb where
  r : UInt8
  g : UInt8
  b : UInt8

/-- `parse_rgb`: the camera delivers RGB565 with the bytes swapped. -/
def parseRgb (pixel : UInt16) : Rgb :=
  let pixel := ((pixel <<< 8) &&& (0xFF00 : UInt16)) ||| (pixel >>> 8)
  { r := ((pixel &&& (0xf800 : UInt16)) >>> 8).toUInt8
    g := ((pixel &&& (0x07e0 : UInt16)) >>> 3).toUInt8
    b := ((pixel &&& (0x001f : UInt16)) <<< 3).toUInt8 }

/-- The red test of `find_red_cube_center`. -/
def Red (pixel : UInt16) : Prop :=
  let rgb := parseRgb pixel
  rgb.r > rBaseThreshold ∧ rgb.r >>> 1 > rgb.g ∧ rgb.r >>> 1 > rgb.b

instance (pixel : UInt16) : Decidable (Red pixel) := inferInstanceAs (Decidable (_ ∧ _ ∧ _))

/-! ## Counting -/

/-- `pixel_count`, `pixel_x_count` and `pixel_y_count`. -/
structure Tally where
  pixelCount : UInt32
  pixelXCount : Fin scc8660W → UInt8
  pixelYCount : Fin scc8660H → UInt8

def Tally.zero : Tally := ⟨0, fun _ => 0, fun _ => 0⟩

/-- The body of the two loops. -/
def visit (image : Image) (cy : Fin scc8660H) (t : Tally) (cx : Fin scc8660W) : Tally :=
  if Red (image cy cx) then
    { pixelCount := t.pixelCount + 1
      pixelXCount := Function.update t.pixelXCount cx (t.pixelXCount cx + 1)
      pixelYCount := Function.update t.pixelYCount cy (t.pixelYCount cy + 1) }
  else t

/-- `for (cx = 0; cx < SCC8660_W; cx ++)` -/
def visitRow (image : Image) (t : Tally) (cy : Fin scc8660H) : Tally :=
  (List.finRange scc8660W).foldl (visit image cy) t

/-- `for (cy = 0; cy < SCC8660_H; cy ++)` -/
def tally (image : Image) : Tally := (List.finRange scc8660H).foldl (visitRow image) Tally.zero

/-! ## The bounding box -/

/-- A read of a table at an index that may be outside it, where it returns a byte
of something else. -/
def readTable {n : ℕ} (table : Fin n → UInt8) (beyond : ℤ → UInt8) (i : ℤ) : UInt8 :=
  if h : 0 ≤ i ∧ i < n then table ⟨i.toNat, by omega⟩ else beyond i

/-- `while (count[i] < min && i < n) i ++;` -/
def scanUp (count : ℤ → UInt8) (min : UInt8) (n i : ℤ) : ℤ :=
  if count i < min ∧ i < n then scanUp count min n (i + 1) else i
termination_by (n - i).toNat

/-- `while (count[i] < min && i >= 0) i --;` -/
def scanDown (count : ℤ → UInt8) (min : UInt8) (i : ℤ) : ℤ :=
  if count i < min ∧ i ≥ 0 then scanDown count min (i - 1) else i
termination_by (i + 1).toNat

/-- `find_red_cube_center`; `beyondX` and `beyondY` are what lies around the tables
in memory. -/
def findRedCubeCenter (beyondX beyondY : ℤ → UInt8) (image : Image) (cubeInfo : CubeInfo) :
    CubeInfo :=
  let t := tally image
  if t.pixelCount < minPixelCount then { cubeInfo with exist := false }
  else
    -- a scan that finds nothing reads one entry past its table
    let xCount := readTable t.pixelXCount beyondX
    let yCount := readTable t.pixelYCount beyondY
    let xMin := scanUp xCount minXPixelCount scc8660W 0
    let xMax := scanDown xCount minXPixelCount (scc8660W - 1)
    let yMin := scanUp yCount minYPixelCount scc8660H 0
    let yMax := scanDown yCount minYPixelCount (scc8660H - 1)
    if xMin = scc8660W ∨ yMin = scc8660H ∨ xMax = -1 ∨ yMax = -1 then
      { cubeInfo with exist := false }
    else
      { exist := true
        xCenter := .ofInt ((xMin + xMax) / 2)
        yCenter := .ofInt ((yMin + yMax) / 2)
        xMin := xMin
        xMax := xMax
        yMin := yMin
        yMax := yMax
        pixelCount := t.pixelCount }

end SmartCar.Mcx

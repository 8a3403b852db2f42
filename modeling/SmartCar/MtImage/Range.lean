import SmartCar.Lib.Scan
import SmartCar.MtImage.Midline

/-!
# mt_image: scans that stay in the image

A scan of `search` stops at road, at its end, or after a number of steps; nothing
stops it at the border of the image. `ScanOk` says, at the start of each scan,
that one of its own limits comes first.

* `Ahead` is what is left of that while the scan is under way;
* `step_ahead`: a stretch of code stays in the image and in its tables.
-/

namespace SmartCar.MtImage

open CInt Scan

/-! ## Law and condition -/

/-- `image[y][x]` is a pixel. -/
def InImage (c : Cell) : Prop := 0 ≤ c.1 ∧ c.1 < 120 ∧ 0 ≤ c.2 ∧ c.2 < 188

instance (c : Cell) : Decidable (InImage c) := inferInstanceAs (Decidable (_ ∧ _))

/-- The index is one of the table's. -/
def InTable : Entry → Prop
  | .xls y | .xrs y | .stdWidth y => 0 ≤ y ∧ y < 120

/-- Road in row `y`, from column `a` to column `b`. -/
def RoadInRow (mem : Cell → UInt8) (y a b : ℤ) : Prop := Within (fun i => mem (y, i) ≠ EMPTY) a b

/-- A gap in row `y`, from column `a` to column `b`. -/
def GapInRow (mem : Cell → UInt8) (y a b : ℤ) : Prop := Within (fun i => mem (y, i) = EMPTY) a b

/-- Road in column `x`, from row `a` to row `b`. -/
def RoadInColumn (mem : Cell → UInt8) (x a b : ℤ) : Prop :=
  Within (fun i => mem (i, x) ≠ EMPTY) a b

/-- A gap in column `x`, from row `a` to row `b`. -/
def GapInColumn (mem : Cell → UInt8) (x a b : ℤ) : Prop := Within (fun i => mem (i, x) = EMPTY) a b

section

variable (mem : Cell → UInt8) (z a b : ℤ)

instance : Decidable (RoadInRow mem z a b) := inferInstanceAs (Decidable (Within _ _ _))

instance : Decidable (GapInRow mem z a b) := inferInstanceAs (Decidable (Within _ _ _))

instance : Decidable (RoadInColumn mem z a b) := inferInstanceAs (Decidable (Within _ _ _))

instance : Decidable (GapInColumn mem z a b) := inferInstanceAs (Decidable (Within _ _ _))

end

/-- A scan that begins here stays in the image:

* the inward scan gives up after 5 columns, and the outward scan that follows it
  reads the column beyond the cursor;
* the columns of a lateral exit go down at most 2 rows;
* the climb at a loop's corner stops at row 30, unless it has begun at or above it;
* the scan down from a corner on the left has no limit but road;
* a row of a crossing is scanned outwards for at most 6 columns, and inwards up to
  road;
* the rows of the midline go down to `y_start`. -/
def ScanOk (mem : Cell → UInt8) (s : State) : Prop :=
  match s.pc with
  | .inward .left => s.dx = 0 → s.l.x ≤ 187 ∧
      (s.l.x ≤ 182 ∨ RoadInRow mem s.y s.l.x 187) ∧ (s.l.x = 0 → mem (s.y, 0) = EMPTY)
  | .inward .right => s.dx = 0 → s.r.x ≤ 187 ∧
      (5 ≤ s.r.x ∨ RoadInRow mem s.y 0 s.r.x) ∧ (s.r.x = 187 → mem (s.y, 187) = EMPTY)
  | .exitProbe d => s.leFailed = false ∧ (d = .right → s.l.stop0) → (s.track d).x ≤ 187
  | .exitColumn d => within d s.xc → s.yc ≤ 117 ∨ RoadInColumn mem s.xc s.yc 119
  | .corner d => (s.track d).x ≠ cornerLimit d → 1 ≤ s.y ∧
      (s.upCount = 2 ∨ 31 ≤ s.y ∨ GapInColumn mem (s.track d).x 0 (s.y - 1))
  | .cornerDown .left => s.y = s.y1 → RoadInColumn mem s.l.x s.y 119
  | .crossOut .left => s.dx = 0 → 1 ≤ s.l.x ∧ s.l.x ≤ 188 ∧
      (mem (s.y, s.l.x - 1) = EMPTY → RoadInRow mem s.y s.l.x 187) ∧
      (mem (s.y, s.l.x - 1) ≠ EMPTY → 6 ≤ s.l.x ∨ GapInRow mem s.y 0 (s.l.x - 1))
  | .crossOut .right => s.dx = 0 → s.r.x ≤ 186 ∧
      (mem (s.y, s.r.x + 1) = EMPTY → RoadInRow mem s.y 0 s.r.x) ∧
      (mem (s.y, s.r.x + 1) ≠ EMPTY → s.r.x ≤ 181 ∨ GapInRow mem s.y (s.r.x + 1) 187)
  | .mid => 1 ≤ s.yStart
  | _ => True

instance (mem : Cell → UInt8) (s : State) : Decidable (ScanOk mem s) := by
  unfold ScanOk
  split <;> infer_instance

/-! ## While a scan is under way -/

/-- The rows in which the borders begin. -/
def OriginsOk (s : State) : Prop := 0 ≤ s.l.y0 ∧ s.l.y0 < 120 ∧ 0 ≤ s.r.y0 ∧ s.r.y0 < 120

/-- What is left of the look ahead at label `p`. -/
@[simp] def Ahead (mem : Cell → UInt8) (p : Pc) (s : State) : Prop :=
  match p with
  | .row | .side _ | .exitProbe _ | .record _ => OriginsOk s
  | .inward .left => OriginsOk s ∧
      (s.dx ≠ 0 → s.l.x + 5 - s.dx ≤ 187 ∨ RoadInRow mem s.y s.l.x 187)
  | .inward .right => OriginsOk s ∧
      (s.dx ≠ 0 → s.r.x ≤ 187 ∧ (0 ≤ s.r.x - 5 - s.dx ∨ RoadInRow mem s.y 0 s.r.x))
  | .outward .left => OriginsOk s ∧ 1 ≤ s.l.x ∧ s.l.x ≤ 187
  | .outward .right => OriginsOk s ∧ s.r.x ≤ 186
  | .exitColumn _ => OriginsOk s ∧ s.xc ≤ 187 ∧ s.yc ≤ 119 ∧ 38 ≤ s.yc + 2 * s.upCount ∧
      0 ≤ s.upCount ∧ s.upCount ≤ 2
  | .exitDown _ => OriginsOk s ∧ s.xc ≤ 187 ∧ 38 ≤ s.yc + 2 * s.upCount ∧
      0 ≤ s.upCount ∧ s.upCount ≤ 2 ∧
      (s.yc + 2 - s.dy ≤ 119 ∨ RoadInColumn mem s.xc s.yc 119)
  | .exitUp _ => OriginsOk s ∧ s.xc ≤ 187 ∧ s.yc ≤ 119 ∧ 38 ≤ s.yc + 2 * s.upCount ∧
      0 ≤ s.upCount ∧ s.upCount ≤ 2
  | .exitClimb _ => OriginsOk s ∧ s.xc ≤ 187 ∧ s.yc ≤ 119 ∧ 40 ≤ s.yc + 2 * s.upCount + s.dy ∧
      0 ≤ s.upCount ∧ s.upCount ≤ 2
  | .corner _ => s.y ≤ 119 ∧ 0 ≤ s.upCount ∧ s.upCount ≤ 2
  | .cornerUp .left => 1 ≤ s.y ∧ s.y ≤ 118 ∧ s.y1 ≤ 119 ∧ 0 ≤ s.upCount ∧ s.upCount ≤ 2 ∧
      (30 ≤ s.y ∨ GapInColumn mem s.l.x 0 (s.y - 1))
  | .cornerUp .right => 1 ≤ s.y ∧ s.y ≤ 118 ∧ s.y0 ≤ 119 ∧ 0 ≤ s.upCount ∧ s.upCount ≤ 2 ∧
      (30 ≤ s.y ∨ GapInColumn mem s.r.x 0 (s.y - 1))
  | .cornerDown .left => s.y ≤ 119 ∧ s.y1 ≤ 119 ∧ 0 ≤ s.upCount ∧ s.upCount ≤ 2 ∧
      (s.y = s.y1 ∨ RoadInColumn mem s.l.x s.y 119)
  | .cornerDown .right => s.y ≤ 119 ∧ 0 ≤ s.upCount ∧ s.upCount ≤ 2
  | .crossOut .left => s.dx ≠ 0 → 1 ≤ s.l.x ∧ s.l.x ≤ 187 ∧
      (6 ≤ s.l.x + s.dx ∨ GapInRow mem s.y 0 (s.l.x - 1))
  | .crossOut .right => s.dx ≠ 0 → s.r.x ≤ 186 ∧
      (s.r.x ≤ 181 + s.dx ∨ GapInRow mem s.y (s.r.x + 1) 187)
  | .crossIn .left => RoadInRow mem s.y s.l.x 187
  | .crossIn .right => s.r.x ≤ 187 ∧ RoadInRow mem s.y 0 s.r.x
  | .midRow => 1 ≤ s.yStart
  | _ => True

variable {mem : Cell → UInt8} {s : State} {d : Side}

/-- The code stays in the image and in its tables, and looks ahead where it jumps to. -/
abbrev Stays (mem : Cell → UInt8) (a : Go) : Prop :=
  a.Sat mem InImage InTable fun t => Ahead mem t.pc t

/-! ## The first rows -/

/-- Only the left corner of the last row is read. -/
theorem entry_ahead : Stays mem (entry s) := by
  simp [entry, locals, InImage]

/-- The zebra scan reads columns 1 to 186 of the last row. -/
theorem zebra_ahead (h : Inv s) (hpc : s.pc = .zebra) : Stays mem (zebra s) := by
  have hat := h.at hpc
  simp only [At] at hat
  by_cases hp : mem (119, s.zx) = s.curr <;>
    simp [zebra, locals, InImage, hp, hpc] <;>
    omega

/-- The middle of the row is read. -/
theorem bottom_ahead (h : Inv s) (hpc : s.pc = .bottom) : Stays mem (bottom s) := by
  have hat := h.at hpc
  simp [bottom, InImage] at hat ⊢
  omega

/-- The column beyond a cursor that is not left of `X_MIN` is a pixel. -/
theorem bottomLeft_ahead {b : Bool} (h : Inv s) (hpc : s.pc = .bottomLeft b) :
    Stays mem (bottomLeft b s) := by
  have hat := h.at hpc
  cases b <;> simp [bottomLeft, InImage, hpc] at hat ⊢ <;> omega

/-- The column beyond a cursor that is not right of `X_MAX` is a pixel. -/
theorem bottomRight_ahead (h : Inv s) (hpc : s.pc = .bottomRight) : Stays mem (bottomRight s) := by
  have hat := h.at hpc
  simp [bottomRight, InImage, hpc] at hat ⊢
  omega

/-- Either cursor is read next to a column that it may stand in. -/
theorem bottomSeek_ahead (h : Inv s) (hpc : s.pc = .bottomSeek) : Stays mem (bottomSeek s) := by
  have hat := h.at hpc
  simp [bottomSeek, InImage, hpc, u8] at hat ⊢
  omega

/-- The rows of the bottom scan are rows of the tables. -/
theorem bottomTest_ahead (h : Inv s) (hpc : s.pc = .bottomTest) : Stays mem (bottomTest s) := by
  have hat := h.at hpc
  simp only [bottomTest, bottomStore, Act.sat_ite, Act.sat_touch]
  simp [InTable, Entry.xs] at hat ⊢
  omega

/-- Of the tables only the last row is used. -/
theorem bottomFound_ahead : Stays mem (bottomFound s) := by
  simp [bottomFound, edgeLeft, edgeRight, InTable]

/-- The border is read from `y_end` up to row 79. -/
theorem edge_ahead (h : Inv s) (hpc : s.pc = .edge d) : Stays mem (edge d s) := by
  have hat := h.at hpc
  cases d <;> simp [edge, edgeDone, edgeRight, setStop, InImage, hpc] at hat ⊢ <;> omega

/-- The choice of the pass reads no pixel; the passes start with no scan under way. -/
theorem dispatch_ahead : Stays mem (dispatch s) := by
  simp [dispatch]

/-! ## The normal pass -/

/-- Both borders begin in row 0 until a row with a border is found. -/
theorem normalBound_ahead : Stays mem (normalBound s) := by
  simp [normalBound, resetTrack, OriginsOk]

/-- The origins stay rows of the tables. -/
theorem row_ahead (ha : OriginsOk s) : Stays mem (row s) := by
  simp only [OriginsOk] at ha
  simp [row, OriginsOk, ha]

/-- The origins are as they were, whichever side was the last. -/
theorem afterSide_ahead (ha : OriginsOk s) : Ahead mem (afterSide d s).pc (afterSide d s) := by
  cases d <;> exact ha

/-- The inward scan starts with `dx` 0, so that what it looks ahead to is up to `ScanOk`. -/
theorem side_ahead (ha : OriginsOk s) : Stays mem (side d s) := by
  simp only [side, Act.sat_ite, sideEnd_eq]
  refine ⟨fun _ => afterSide_ahead ha, fun _ => ?_⟩
  cases d <;> simpa [OriginsOk] using ha

/-- The limit of the inward scan is 5 columns from where it has begun. -/
theorem inward_ahead (h : Inv s) (hpc : s.pc = .inward d) (ha : Ahead mem (.inward d) s)
    (hok : ScanOk mem s) : Stays mem (inward d s) := by
  have hat := h.at hpc
  have hl := h.ranges.lx
  have hr := h.ranges.rx
  simp only [ScanOk, hpc] at hok
  simp only [inward, inwardEnd, sat_px, Act.sat_ite]
  cases d <;>
    simp [InImage, OriginsOk, hpc, RoadInRow, Within] at hat ha hok ⊢ <;>
    grind [u8, i16, Byte]

/-- The cursor is inside the border when the column beyond it is read, and at the border the
scan ends. -/
theorem outward_ahead (h : Inv s) (hpc : s.pc = .outward d) (ha : Ahead mem (.outward d) s) :
    Stays mem (outward d s) := by
  have hat := h.at hpc
  have hl := h.ranges.lx
  have hr := h.ranges.rx
  simp only [outward, sat_px, Act.sat_ite]
  cases d <;> simp [inside, InImage, OriginsOk, hpc] at hat ha ⊢ <;> grind [u8, Byte]

/-- The pixel above the cursor is read, and the exit starts in the row of the pass. -/
theorem exitProbe_ahead (h : Inv s) (hpc : s.pc = .exitProbe d) (ha : Ahead mem (.exitProbe d) s)
    (hok : ScanOk mem s) : Stays mem (exitProbe d s) := by
  have hat := h.at hpc
  have hl := h.ranges.lx
  have hr := h.ranges.rx
  simp only [ScanOk, hpc] at hok
  simp only [exitProbe, invLost, sat_px, Act.sat_ite]
  cases d <;> simp [InImage, OriginsOk] at hat ha hok ⊢ <;> grind [Byte]

/-- From here the column goes down 2 rows at most, or meets road before the last row. -/
theorem exitColumn_ahead (h : Inv s) (hpc : s.pc = .exitColumn d)
    (ha : Ahead mem (.exitColumn d) s) (hok : ScanOk mem s) : Stays mem (exitColumn d s) := by
  have hat := h.at hpc
  simp only [ScanOk, hpc] at hok
  simp only [exitColumn, appendStart, Act.sat_ite, Act.sat_touch, sat_setImg]
  cases d <;>
    simp [within, InTable, Entry.xs, OriginsOk, RoadInColumn, Within] at hat ha hok ⊢ <;>
    grind

/-- Every row gone down is one less to go, until road is met. -/
theorem exitDown_ahead (h : Inv s) (hpc : s.pc = .exitDown d) (ha : Ahead mem (.exitDown d) s) :
    Stays mem (exitDown d s) := by
  have hat := h.at hpc
  have hxc := h.ranges.xc
  have hyc := h.ranges.yc
  simp [exitDown, loopExitLost, invLost, InImage, OriginsOk, hpc, RoadInColumn, Within]
    at hat ha ⊢
  grind [u8, Byte]

/-- A climb is counted before it starts, and the third one ends the exit, which so stays
away from row 0. -/
theorem exitUp_ahead (h : Inv s) (hpc : s.pc = .exitUp d) (ha : Ahead mem (.exitUp d) s) :
    Stays mem (exitUp d s) := by
  have hat := h.at hpc
  have hxc := h.ranges.xc
  cases d <;>
    simp [exitUp, exitNext, loopExitLost, invLost, within, InImage, OriginsOk] at hat ha ⊢ <;>
    grind [u8, Byte]

/-- A climb goes up 2 rows, which its count pays for. -/
theorem exitClimb_ahead (h : Inv s) (hpc : s.pc = .exitClimb d) (ha : Ahead mem (.exitClimb d) s) :
    Stays mem (exitClimb d s) := by
  have hat := h.at hpc
  have hxc := h.ranges.xc
  cases d <;>
    simp [exitClimb, exitNext, loopExitLost, invLost, within, InImage, OriginsOk, hpc]
      at hat ha ⊢ <;>
    grind [u8, Byte]

/-- A row uses its own entry of the tables, the one below it and the origins'. -/
theorem record_ahead (h : Inv s) (hpc : s.pc = .record d) (ha : OriginsOk s) :
    Stays mem (record d s) := by
  have hat := h.at hpc
  -- the row, the row below it and the origins are rows of the tables
  have hU : RowEntries InTable d s := by
    intro i hi
    cases d <;> simp [InTable, OriginsOk] at hat ha hi ⊢ <;> omega
  refine (record_sat hU).mono fun t ⟨u, hu, ht⟩ => ?_
  have hy0 := hu.y0
  rcases hu.frame with ⟨track, dx, el, elementType, prevElNormal, rfl⟩
  cases d <;> rcases ht with rfl | rfl <;>
    simp [afterSide, OriginsOk] at hat ha hy0 ⊢ <;>
    omega

/-- The analysis that follows reads no pixel. -/
theorem normalEnd_ahead : Stays mem (normalEnd s) := by
  simp [normalEnd]

/-! ## The loop pass -/

/-- The loop pass starts its scans at the border. -/
theorem loop_ahead : Stays mem (loop s) := by
  simp [loop]

/-- The border is read from the last row up to row 30. -/
theorem loopDrop_ahead (h : Inv s) (hpc : s.pc = .loopDrop d) : Stays mem (loopDrop d s) := by
  have hat := h.at hpc
  cases d <;> simp [loopDrop, InImage, hpc] at hat ⊢ <;> omega

/-- The border is read above the cursor's row, up to row 29. -/
theorem loopRise_ahead (h : Inv s) (hpc : s.pc = .loopRise d) : Stays mem (loopRise d s) := by
  have hat := h.at hpc
  cases d <;> simp [loopRise, InImage, hpc] at hat ⊢ <;> omega

/-- The pixel above the cursor is read; a climb that starts here stops at row 30, or begins
above it and stops at a gap. -/
theorem corner_ahead (h : Inv s) (hpc : s.pc = .corner d) (ha : Ahead mem (.corner d) s)
    (hok : ScanOk mem s) : Stays mem (corner d s) := by
  have hat := h.at hpc
  rcases ha with ⟨hy, hcount⟩
  simp only [ScanOk, hpc] at hok
  have hup : u8 (s.upCount + 1) = s.upCount + 1 := u8_of_range (by omega)
  simp only [corner, cornerFound, appendStart, sat_px, Act.sat_ite, hup]
  cases d <;>
    simp [cornerLimit, InImage, InTable, Entry.xs, GapInColumn, Within] at hat hok ⊢ <;>
    grind [u8]

/-- A climb below row 30 stops there, and one above it stops at the gap that is ahead. -/
theorem cornerUp_ahead (h : Inv s) (hpc : s.pc = .cornerUp d) (ha : Ahead mem (.cornerUp d) s) :
    Stays mem (cornerUp d s) := by
  have hat := h.at hpc
  cases d <;>
    simp [cornerUp, cornerUpDone, InImage, GapInColumn, RoadInColumn, Within, hpc] at hat ha ⊢ <;>
    grind [u8]

/-- On the left the road that stops the scan is in the column; on the right the last row
stops it too. -/
theorem cornerDown_ahead (h : Inv s) (hpc : s.pc = .cornerDown d)
    (ha : Ahead mem (.cornerDown d) s) (hok : ScanOk mem s) : Stays mem (cornerDown d s) := by
  have hat := h.at hpc
  have hy := h.ranges.y
  simp only [ScanOk, hpc] at hok
  cases d <;>
    simp [cornerDown, cornerNext, InImage, RoadInColumn, Within, hpc] at hat ha hok ⊢ <;>
    grind [u8, Byte]

/-- The rows that are appended lie below `y_c`, and above the last row. -/
theorem append_ahead (h : Inv s) (hpc : s.pc = .append d) : Stays mem (append d s) := by
  have hat := h.at hpc
  have hyc := h.ranges.yc
  cases d <;> simp [append, InTable, Entry.xs, hpc] at hat ⊢ <;> grind [Byte]

/-- The normal pass is to start anew. -/
theorem loopCancel_ahead : Stays mem (loopCancel s) := by
  simp [loopCancel]

/-! ## The cross pass -/

/-- The top of the crossing is yet to be looked for. -/
theorem crossBound_ahead : Stays mem (crossBound s) := by
  simp [crossBound]

/-- The middle of the row is read. -/
theorem top_ahead (h : Inv s) (hpc : s.pc = .top) : Stays mem (top s) := by
  have hat := h.at hpc
  simp [top, InImage] at hat ⊢
  omega

/-- The column beyond a cursor that is not left of column 45 is a pixel. -/
theorem topLeft_ahead {b : Bool} (h : Inv s) (hpc : s.pc = .topLeft b) :
    Stays mem (topLeft b s) := by
  have hat := h.at hpc
  cases b <;> simp [topLeft, InImage, hpc] at hat ⊢ <;> omega

/-- The column beyond a cursor that is not right of column 143 is a pixel. -/
theorem topRight_ahead (h : Inv s) (hpc : s.pc = .topRight) : Stays mem (topRight s) := by
  have hat := h.at hpc
  simp [topRight, InImage, hpc] at hat ⊢
  omega

/-- Either cursor is read next to a column that it may stand in. -/
theorem topSeek_ahead (h : Inv s) (hpc : s.pc = .topSeek) : Stays mem (topSeek s) := by
  have hat := h.at hpc
  simp [topSeek, InImage, hpc, u8] at hat ⊢
  omega

/-- The rows of the top are rows of `STD_WIDTH`. -/
theorem topTest_ahead (h : Inv s) (hpc : s.pc = .topTest) : Stays mem (topTest s) := by
  have hat := h.at hpc
  simp [topTest, InTable] at hat ⊢
  omega

/-- The next row starts with its cursors in the middle. -/
theorem topNext_ahead : Stays mem (topNext s) := by
  simp [topNext, crossExit]

/-- The outward scan starts with `dx` 0, so that what it looks ahead to is up to `ScanOk`. -/
theorem crossRow_ahead : Stays mem (crossRow s) := by
  simp [crossRow]

/-- The limit of the outward scan is 6 columns from where it has begun. -/
theorem crossOut_ahead (h : Inv s) (hpc : s.pc = .crossOut d) (ha : Ahead mem (.crossOut d) s)
    (hok : ScanOk mem s) : Stays mem (crossOut d s) := by
  have hat := h.at hpc
  simp only [ScanOk, hpc] at hok
  -- neither the count nor the cursor wraps, so that the next turn is one column further
  have hi16 : s.dx ≠ 5 → i16 (s.dx + 1) = s.dx + 1 := fun _ => i16_of_range (by simp at hat; omega)
  have hl := h.ranges.lx
  have hr := h.ranges.rx
  simp only [crossOut, crossOutEnd, sat_px, Act.sat_ite]
  cases d with
  | left =>
    -- on the first turn `ScanOk` bounds the cursor, later what is left of it
    have hx : 1 ≤ s.l.x ∧ s.l.x ≤ 188 := by
      by_cases hdx : s.dx = 0
      · exact ⟨(hok hdx).1, (hok hdx).2.1⟩
      · have := ha hdx
        omega
    have hu8 : u8 (s.l.x - 1) = s.l.x - 1 := u8_of_range (by omega)
    simp [InImage, RoadInRow, GapInRow, Within, hpc, hu8] at hat ha hok ⊢
    grind
  | right =>
    have hx : s.r.x ≤ 186 := by
      by_cases hdx : s.dx = 0
      · exact (hok hdx).1
      · exact (ha hdx).1
    have hu8 : u8 (s.r.x + 1) = s.r.x + 1 := u8_of_range (by simp only [Byte] at hr; omega)
    simp [InImage, RoadInRow, GapInRow, Within, hpc, hu8] at hat ha hok ⊢
    grind [Byte]

/-- The road that stops the scan lies between its cursor and the border. -/
theorem crossIn_ahead (h : Inv s) (hpc : s.pc = .crossIn d) (ha : Ahead mem (.crossIn d) s) :
    Stays mem (crossIn d s) := by
  have hat := h.at hpc
  have hl := h.ranges.lx
  have hr := h.ranges.rx
  cases d <;> simp [crossIn, InImage, RoadInRow, Within, hpc] at hat ha ⊢ <;> grind [u8, Byte]

/-- The row of the crossing is a row of the tables. -/
theorem crossRecord_ahead (h : Inv s) (hpc : s.pc = .crossRecord d) :
    Stays mem (crossRecord d s) := by
  have hat := h.at hpc
  cases d <;> simp only [crossRecord, Act.sat_touch, Act.sat_ite, sat_setImg] <;>
    simp [InTable, Entry.xs] at hat ⊢ <;> omega

/-- The slopes are taken between two rows from `y_start` down to `y_end`. -/
theorem crossEnd_ahead (h : Inv s) (hpc : s.pc = .crossEnd) : Stays mem (crossEnd s) := by
  have hat := h.at hpc
  simp [crossEnd, crossExit, crossSlope, InTable, Entry.xs, u8] at hat ⊢
  omega

/-! ## Element types and the midline -/

/-- The element type is decided on counts only. -/
theorem analyze_ahead {enableLoop : Bool} : Stays mem (analyze enableLoop s) := by
  simp [analyze]

/-- By `ScanOk` the rows of the midline do not go up to row 0. -/
theorem mid_ahead (hpc : s.pc = .mid) (hok : ScanOk mem s) : Stays mem (mid s) := by
  simp only [ScanOk, hpc] at hok
  simpa [mid] using hok

/-- The rows of the midline lie between `y_start` and the last row. -/
theorem midRow_ahead (h : Inv s) (hpc : s.pc = .midRow) (ha : Ahead mem .midRow s) :
    Stays mem (midRow s) := by
  have hat := h.at hpc
  simp only [At, Ahead] at hat ha
  simp only [midRow, Act.sat_ite, sat_setImg, Act.sat_halt, implies_true, and_true]
  refine fun hge => midline_sat ?_ fun v hv => ?_
  -- the row is one of the tables'
  · simp only [InTable]
    omega
  -- and the midline does not move `y_start`
  · rcases hv.frame with ⟨xl, xr, dx, xm, dxm, bothCount, rfl⟩
    simpa [hpc] using ha

/-- A stretch of code that begins within its bounds stays in the image and in its
tables. -/
theorem step_ahead (enableLoop : Bool) (h : Inv s) (ha : Ahead mem s.pc s) (hok : ScanOk mem s) :
    Stays mem (code enableLoop s) := by
  unfold code
  cases hpc : s.pc with
  -- the bottom row: every scan has a limit of its own
  | entry => exact entry_ahead
  | zebra => exact zebra_ahead h hpc
  | bottom => exact bottom_ahead h hpc
  | bottomLeft b => exact bottomLeft_ahead h hpc
  | bottomRight => exact bottomRight_ahead h hpc
  | bottomSeek => exact bottomSeek_ahead h hpc
  | bottomTest => exact bottomTest_ahead h hpc
  | bottomFound => exact bottomFound_ahead
  | edge d => exact edge_ahead h hpc
  | dispatch => exact dispatch_ahead
  -- the normal pass: the inward scan and the lateral exit look ahead
  | normalBound => exact normalBound_ahead
  | row => exact row_ahead (by simpa [hpc] using ha)
  | side d => exact side_ahead (by simpa [hpc] using ha)
  | inward d => exact inward_ahead h hpc (hpc ▸ ha) hok
  | outward d => exact outward_ahead h hpc (hpc ▸ ha)
  | exitProbe d => exact exitProbe_ahead h hpc (hpc ▸ ha) hok
  | exitColumn d => exact exitColumn_ahead h hpc (hpc ▸ ha) hok
  | exitDown d => exact exitDown_ahead h hpc (hpc ▸ ha)
  | exitUp d => exact exitUp_ahead h hpc (hpc ▸ ha)
  | exitClimb d => exact exitClimb_ahead h hpc (hpc ▸ ha)
  | record d => exact record_ahead h hpc (by simpa [hpc] using ha)
  | normalEnd => exact normalEnd_ahead
  -- the loop pass: the two scans at a corner look ahead
  | loop => exact loop_ahead
  | loopDrop d => exact loopDrop_ahead h hpc
  | loopRise d => exact loopRise_ahead h hpc
  | corner d => exact corner_ahead h hpc (hpc ▸ ha) hok
  | cornerUp d => exact cornerUp_ahead h hpc (hpc ▸ ha)
  | cornerDown d => exact cornerDown_ahead h hpc (hpc ▸ ha) hok
  | append d => exact append_ahead h hpc
  | loopCancel => exact loopCancel_ahead
  -- the cross pass: both scans of a row look ahead
  | crossBound => exact crossBound_ahead
  | top => exact top_ahead h hpc
  | topLeft b => exact topLeft_ahead h hpc
  | topRight => exact topRight_ahead h hpc
  | topSeek => exact topSeek_ahead h hpc
  | topTest => exact topTest_ahead h hpc
  | topNext => exact topNext_ahead
  | crossRow => exact crossRow_ahead
  | crossOut d => exact crossOut_ahead h hpc (hpc ▸ ha) hok
  | crossIn d => exact crossIn_ahead h hpc (hpc ▸ ha)
  | crossRecord d => exact crossRecord_ahead h hpc
  | crossEnd => exact crossEnd_ahead h hpc
  -- the element type and the midline
  | analyze => exact analyze_ahead
  | mid => exact mid_ahead hpc hok
  | midRow => exact midRow_ahead h hpc (hpc ▸ ha)

end SmartCar.MtImage

import SmartCar.MtImage.Record
import Mathlib.Tactic.MkIffOfInductiveProp

/-!
# mt_image: what holds at each label

`Inv` bounds the cursors and counters at every label, whatever the image holds
and also where a scan has lost its way: a `uint8` stays a byte, and what the code
compares with a limit at every turn stays within it.

* `At p s` are the bounds at label `p`;
* `step_inv` says that each stretch of code keeps the invariant, `inv_visits` that
  every state visited has it.
-/

namespace SmartCar.MtImage

open CInt

/-- The `uint8` variables hold bytes. -/
@[mk_iff] structure Ranges (s : State) : Prop where
  y : Byte s.y
  lx : Byte s.l.x
  lxs : ∀ i, Byte (s.l.xs i)
  rx : Byte s.r.x
  rxs : ∀ i, Byte (s.r.xs i)
  yStart : Byte s.yStart
  yEnd : Byte s.yEnd
  xc : Byte s.xc
  yc : Byte s.yc
  y0 : Byte s.y0
  y1 : Byte s.y1

/-! ## The invariant -/

/-- The bounds at label `p`. -/
@[simp] def At (p : Pc) (s : State) : Prop :=
  match p with
  | .entry => True
  | .zebra => 1 ≤ s.zx ∧ s.zx ≤ 187
  | .bottom | .bottomFound => 110 ≤ s.y ∧ s.y ≤ 119
  | .bottomLeft thenRight =>
    111 ≤ s.y ∧ s.y ≤ 119 ∧ 2 ≤ s.l.x ∧ s.l.x ≤ 93 ∧ (thenRight → s.r.x = 93)
  | .bottomRight => 111 ≤ s.y ∧ s.y ≤ 119 ∧ 93 ≤ s.r.x ∧ s.r.x ≤ 185
  | .bottomSeek => 111 ≤ s.y ∧ s.y ≤ 119 ∧ 2 ≤ s.l.x ∧ s.l.x ≤ 93 ∧ s.l.x + s.r.x = 186
  | .bottomTest => 111 ≤ s.y ∧ s.y ≤ 119
  | .edge _ => 79 ≤ s.y ∧ s.y ≤ 119 ∧ 110 ≤ s.yEnd ∧ s.yEnd ≤ 119
  | .dispatch | .normalBound | .loop | .loopCancel => True
  | .row | .normalEnd => 37 ≤ s.y ∧ s.y ≤ 118 ∧ s.yEnd = 119
  | .side _ | .outward _ | .exitProbe _ | .exitColumn _ | .record _ =>
    38 ≤ s.y ∧ s.y ≤ 118 ∧ s.yEnd = 119
  | .inward d => 38 ≤ s.y ∧ s.y ≤ 118 ∧ s.yEnd = 119 ∧ 0 ≤ d.sgn * s.dx ∧ d.sgn * s.dx ≤ 5
  | .exitDown d =>
    38 ≤ s.y ∧ s.y ≤ 118 ∧ s.yEnd = 119 ∧ within d s.xc ∧ 0 ≤ s.dy ∧ s.dy ≤ 2
  | .exitUp d => 38 ≤ s.y ∧ s.y ≤ 118 ∧ s.yEnd = 119 ∧ within d s.xc
  | .exitClimb d =>
    38 ≤ s.y ∧ s.y ≤ 118 ∧ s.yEnd = 119 ∧ within d s.xc ∧ 1 ≤ s.dy ∧ s.dy ≤ 2
  | .loopDrop _ | .loopRise _ => 30 ≤ s.y ∧ s.y ≤ 119 ∧ s.yEnd = 119
  | .corner .left => 2 ≤ s.l.x ∧ s.l.x ≤ 186 ∧ s.yEnd = 119
  | .corner .right => 1 ≤ s.r.x ∧ s.r.x ≤ 185 ∧ s.yEnd = 119
  | .cornerUp d | .cornerDown d => 2 ≤ (s.track d).x ∧ (s.track d).x ≤ 185 ∧ s.yEnd = 119
  | .append _ => s.y ≤ 118 ∧ s.yEnd = 119
  | .crossBound => s.el = .cross
  | .top | .topTest | .topNext => 50 ≤ s.y ∧ s.y ≤ 80 ∧ s.el = .cross
  | .topLeft thenRight =>
    50 ≤ s.y ∧ s.y ≤ 80 ∧ s.el = .cross ∧ 45 ≤ s.l.x ∧ s.l.x ≤ 93 ∧ (thenRight → s.r.x = 93)
  | .topRight => 50 ≤ s.y ∧ s.y ≤ 80 ∧ s.el = .cross ∧ 93 ≤ s.r.x ∧ s.r.x ≤ 143
  | .topSeek =>
    50 ≤ s.y ∧ s.y ≤ 80 ∧ s.el = .cross ∧ 45 ≤ s.l.x ∧ s.l.x ≤ 93 ∧ s.l.x + s.r.x = 186
  | .crossRow | .crossEnd => 51 ≤ s.y ∧ s.y ≤ 119 ∧ s.el = .cross ∧ 50 ≤ s.yStart ∧ s.yStart ≤ 80
  | .crossOut _ =>
    51 ≤ s.y ∧ s.y ≤ 118 ∧ s.el = .cross ∧ 50 ≤ s.yStart ∧ s.yStart ≤ 80 ∧
      0 ≤ s.dx ∧ s.dx ≤ 5
  | .crossIn _ | .crossRecord _ =>
    51 ≤ s.y ∧ s.y ≤ 118 ∧ s.el = .cross ∧ 50 ≤ s.yStart ∧ s.yStart ≤ 80
  | .analyze | .mid => s.yEnd ≤ 119
  | .midRow => s.yStart = 0 ∨ s.y ≤ 119

/-- The invariant of `search`. -/
@[mk_iff] structure Inv (s : State) : Prop where
  ranges : Ranges s
  kw : s.pc ≠ .entry → s.pc ≠ .zebra → s.kw = 1
  here : At s.pc s

variable {mem : Cell → UInt8} {s : State} {d : Side}

/-- `search` is called: the stored element type is one that the program stores. Of the
other variables, set or not, only the bytes matter. -/
structure Start (s : State) : Prop where
  pc : s.pc = .entry
  elementType : s.elementType ≤ .loopRight
  ranges : Ranges s

/-- A call of `search`, with variables that happen to be 0. -/
def called (elementType : ElementType) : State :=
  let t : Track :=
    { x := 0, xs := fun _ => 0, m := 0, mSet := false, pad := false, y0 := 0, unset := false
      convex := 0, inn := 0, out := 0, cont := 0, dx := 0, ngCount := 0, gCount := 0, ng := false
      stop0 := false, stop := false, segs := 0 }
  { pc := .entry, elementType := elementType, offset := .fin 0, el := .normal
    prevElNormal := false, zx := 0, curr := 0, changeCount := 0, y := 0, dx := 0, xm := 0
    l := t, r := t, yStart := 0, yEnd := 0, lost := false, leFailed := false, crossTop := false
    xc := 0, yc := 0, dy := 0, upCount := 0, upFailedCount := 0, y0 := 0, y1 := 0, xf := 0, m := 0
    sw := 0, so := 0, kw := 0, dxm := 0, bothCount := 0 }

/-- The element types that the program stores are those up to `LoopRight`. -/
theorem start_called {elementType : ElementType} (h : elementType ≤ .loopRight) :
    Start (called elementType) where
  pc := rfl
  elementType := h
  ranges := by simp [ranges_iff, called]

/-- A call begins within the bounds: at `entry` only the bytes are bounded. -/
theorem Start.inv (h : Start s) : Inv s where
  ranges := h.ranges
  kw := fun hne => absurd h.pc hne
  here := by simp [h.pc]

/-- The bounds of the label that the state is at. -/
theorem Inv.at (h : Inv s) {p : Pc} (hpc : s.pc = p) : At p s := hpc ▸ h.here

/-! ## The bottom row -/

/-- The zebra scan starts in column 1, the search without it in the last row. -/
theorem entry_inv (h : Inv s) : Leads mem Inv (entry s) := by
  simp [entry, locals, initTrack, inv_iff, ranges_iff, (ranges_iff s).mp h.ranges]

/-- The zebra scan goes right column by column, and ends one column past `X_MAX`. -/
theorem zebra_inv (h : Inv s) (hpc : s.pc = .zebra) : Leads mem Inv (zebra s) := by
  have hat := h.at hpc
  simp only [At] at hat
  -- a change of colour is counted, and the tenth ends the search
  by_cases hp : mem (119, s.zx) = s.curr <;>
    simp [zebra, locals, initTrack, inv_iff, ranges_iff, (ranges_iff s).mp h.ranges, hp, hpc]
  all_goals grind [u8]

/-- Both cursors start in the middle column; at row 110 the scan has come to its end. -/
theorem bottom_inv (h : Inv s) (hpc : s.pc = .bottom) : Leads mem Inv (bottom s) := by
  have hat := h.at hpc
  simp only [At] at hat
  simp [bottom, inv_iff, ranges_iff, (ranges_iff s).mp h.ranges, h.kw, hpc]
  omega

/-- The left cursor goes left from the middle, and stops at `X_MIN`. -/
theorem bottomLeft_inv {b : Bool} (h : Inv s) (hpc : s.pc = .bottomLeft b) :
    Leads mem Inv (bottomLeft b s) := by
  have hat := h.at hpc
  cases b <;>
    simp [bottomLeft, inv_iff, ranges_iff, (ranges_iff s).mp h.ranges, h.kw, hpc] at hat ⊢ <;>
    grind [u8]

/-- The right cursor goes right from the middle, and stops at `X_MAX`. -/
theorem bottomRight_inv (h : Inv s) (hpc : s.pc = .bottomRight) :
    Leads mem Inv (bottomRight s) := by
  have hat := h.at hpc
  simp [bottomRight, inv_iff, ranges_iff, (ranges_iff s).mp h.ranges, h.kw, hpc] at hat ⊢
  grind [u8]

/-- The cursors move apart column by column, so that their sum stays twice the middle; where
road is found, the cursor on the other side of it is put there too. -/
theorem bottomSeek_inv (h : Inv s) (hpc : s.pc = .bottomSeek) : Leads mem Inv (bottomSeek s) := by
  have hat := h.at hpc
  simp [bottomSeek, inv_iff, ranges_iff, (ranges_iff s).mp h.ranges, h.kw, hpc] at hat ⊢
  grind [u8]

/-- A row without road from border to border is left for the row above it. -/
theorem bottomTest_inv (h : Inv s) (hpc : s.pc = .bottomTest) : Leads mem Inv (bottomTest s) := by
  have hat := h.at hpc
  simp [bottomTest, bottomStore, inv_iff, ranges_iff, (ranges_iff s).mp h.ranges, h.kw, hpc]
    at hat ⊢
  grind [u8]

/-- The row in which the scan has ended, 110 or below, becomes `y_end`. -/
theorem bottomFound_inv (h : Inv s) (hpc : s.pc = .bottomFound) :
    Leads mem Inv (bottomFound s) := by
  have hat := h.at hpc
  simp [bottomFound, edgeLeft, edgeRight, inv_iff, ranges_iff, (ranges_iff s).mp h.ranges, h.kw,
    hpc] at hat ⊢
  grind

/-- Up the border of the image, from `y_end`; the scan stops at row 78. -/
theorem edge_inv (h : Inv s) (hpc : s.pc = .edge d) : Leads mem Inv (edge d s) := by
  have hat := h.at hpc
  cases d <;>
    simp [edge, edgeDone, edgeRight, setStop, inv_iff, ranges_iff, (ranges_iff s).mp h.ranges,
      h.kw, hpc] at hat ⊢ <;>
    grind [u8]

/-- The cross pass is chosen for the element type `Cross` only. -/
theorem dispatch_inv (h : Inv s) (hpc : s.pc = .dispatch) : Leads mem Inv (dispatch s) := by
  simp [dispatch, inv_iff, ranges_iff, (ranges_iff s).mp h.ranges, h.kw, hpc]

/-! ## The normal pass -/

/-- The normal pass starts one row above the last row, which becomes `y_end`. -/
theorem normalBound_inv (h : Inv s) (hpc : s.pc = .normalBound) :
    Leads mem Inv (normalBound s) := by
  simp [normalBound, resetTrack, u8, inv_iff, ranges_iff, (ranges_iff s).mp h.ranges, h.kw, hpc]

/-- The normal pass goes up to row 38. -/
theorem row_inv (h : Inv s) (hpc : s.pc = .row) : Leads mem Inv (row s) := by
  have hat := h.at hpc
  simp [row, inv_iff, ranges_iff, (ranges_iff s).mp h.ranges, h.kw, hpc] at hat ⊢
  grind

/-- The end of a side, from any label of the side's row. -/
theorem sideEnd_inv (h : Inv s) (hkw : s.kw = 1) (hy : 38 ≤ s.y ∧ s.y ≤ 118) (he : s.yEnd = 119) :
    Leads mem Inv (sideEnd d s) := by
  cases d <;>
    simp [sideEnd, inv_iff, ranges_iff, (ranges_iff s).mp h.ranges, hkw, hy, he]
  grind [u8]

/-- A side starts with `dx` 0, or is left out once it has stopped. -/
theorem side_inv (h : Inv s) (hpc : s.pc = .side d) : Leads mem Inv (side d s) := by
  have hat := h.at hpc
  have hkw := h.kw (by simp [hpc]) (by simp [hpc])
  simp only [At] at hat
  simp only [side, Act.sat_ite]
  refine ⟨fun _ => sideEnd_inv h hkw ⟨hat.1, hat.2.1⟩ hat.2.2, fun _ => ?_⟩
  simp [inv_iff, ranges_iff, (ranges_iff s).mp h.ranges, hkw, hat]

/-- The inward scan counts its columns in `dx` and gives up after 5. -/
theorem inward_inv (h : Inv s) (hpc : s.pc = .inward d) : Leads mem Inv (inward d s) := by
  have hat := h.at hpc
  cases d <;>
    simp [inward, inwardEnd, inv_iff, ranges_iff, (ranges_iff s).mp h.ranges, h.kw, hpc]
      at hat ⊢ <;>
    grind [u8, i16]

/-- The outward scan moves the cursor only, which wraps as a byte does. -/
theorem outward_inv (h : Inv s) (hpc : s.pc = .outward d) : Leads mem Inv (outward d s) := by
  have hat := h.at hpc
  cases d <;>
    simp [outward, inside, inv_iff, ranges_iff, (ranges_iff s).mp h.ranges, h.kw, hpc] at hat ⊢ <;>
    grind

/-- A lateral exit starts at the cursor, in the row of the pass. -/
theorem exitProbe_inv (h : Inv s) (hpc : s.pc = .exitProbe d) : Leads mem Inv (exitProbe d s) := by
  have hat := h.at hpc
  cases d <;>
    simp [exitProbe, invLost, inv_iff, ranges_iff, (ranges_iff s).mp h.ranges, h.kw, hpc]
      at hat ⊢ <;>
    grind

/-- A column of the exit is followed only while it lies this side of the far border. -/
theorem exitColumn_inv (h : Inv s) (hpc : s.pc = .exitColumn d) :
    Leads mem Inv (exitColumn d s) := by
  have hat := h.at hpc
  cases d <;>
    simp [exitColumn, within, appendStart, u8, inv_iff, ranges_iff, (ranges_iff s).mp h.ranges,
      h.kw, hpc] at hat ⊢ <;>
    grind

/-- A column is followed down for at most 2 rows: the third loses the exit. -/
theorem exitDown_inv (h : Inv s) (hpc : s.pc = .exitDown d) : Leads mem Inv (exitDown d s) := by
  have hat := h.at hpc
  simp [exitDown, loopExitLost, invLost, inv_iff, ranges_iff, (ranges_iff s).mp h.ranges, h.kw,
    hpc] at hat ⊢
  grind [u8]

/-- A climb starts with one row counted. -/
theorem exitUp_inv (h : Inv s) (hpc : s.pc = .exitUp d) : Leads mem Inv (exitUp d s) := by
  have hat := h.at hpc
  simp [exitUp, exitNext, loopExitLost, invLost, inv_iff, ranges_iff,
    (ranges_iff s).mp h.ranges, h.kw, hpc] at hat ⊢
  grind

/-- A column is followed up for at most 2 rows: the third loses the exit. -/
theorem exitClimb_inv (h : Inv s) (hpc : s.pc = .exitClimb d) : Leads mem Inv (exitClimb d s) := by
  have hat := h.at hpc
  simp [exitClimb, exitNext, loopExitLost, invLost, inv_iff, ranges_iff,
    (ranges_iff s).mp h.ranges, h.kw, hpc] at hat ⊢
  grind [u8]

/-- Of the bytes, a row changes the cursor and the columns of its own side only. -/
theorem record_inv (h : Inv s) (hpc : s.pc = .record d) : Leads mem Inv (record d s) := by
  have hat := h.at hpc
  have hb := (ranges_iff s).mp h.ranges
  have hkw := h.kw (by simp [hpc]) (by simp [hpc])
  -- `u` is the state after the row, `t` the one that the side ends in
  refine (record_sat fun _ _ => ⟨trivial, trivial⟩).mono fun t ⟨u, hu, ht⟩ => ?_
  have hx := hu.x
  have hxs := hu.xs
  rcases hu.frame with ⟨track, dx, el, elementType, prevElNormal, rfl⟩
  cases d <;> simp [hb] at hat hx hxs <;> rcases ht with rfl | rfl <;>
    simp [afterSide, inv_iff, ranges_iff, hb, hkw, hx, hxs] <;>
    grind [u8]

/-- The normal pass has not changed `y_end`. -/
theorem normalEnd_inv (h : Inv s) (hpc : s.pc = .normalEnd) : Leads mem Inv (normalEnd s) := by
  have hat := h.at hpc
  simp [normalEnd, inv_iff, ranges_iff, (ranges_iff s).mp h.ranges, h.kw, hpc] at hat ⊢
  omega

/-! ## The loop pass -/

/-- The loop pass starts in the last row, which becomes `y_end`. -/
theorem loop_inv (h : Inv s) (hpc : s.pc = .loop) : Leads mem Inv (loop s) := by
  simp [loop, inv_iff, ranges_iff, (ranges_iff s).mp h.ranges, h.kw, hpc]

/-- Up an empty border column, but not past row 30. -/
theorem loopDrop_inv (h : Inv s) (hpc : s.pc = .loopDrop d) : Leads mem Inv (loopDrop d s) := by
  have hat := h.at hpc
  simp [loopDrop, inv_iff, ranges_iff, (ranges_iff s).mp h.ranges, h.kw, hpc] at hat ⊢
  grind [u8]

/-- The border's corner is looked for from the column next to the border on. -/
theorem loopRise_inv (h : Inv s) (hpc : s.pc = .loopRise d) : Leads mem Inv (loopRise d s) := by
  have hat := h.at hpc
  cases d <;>
    simp [loopRise, u8, inv_iff, ranges_iff, (ranges_iff s).mp h.ranges, h.kw, hpc] at hat ⊢ <;>
    grind [Byte]

/-- The columns end at the limit of the scan, where the loop is given up. -/
theorem corner_inv (h : Inv s) (hpc : s.pc = .corner d) : Leads mem Inv (corner d s) := by
  have hat := h.at hpc
  cases d <;>
    simp [corner, cornerLimit, cornerFound, appendStart, inv_iff, ranges_iff,
      (ranges_iff s).mp h.ranges, h.kw, hpc] at hat ⊢ <;>
    grind [u8]

/-- The climb moves in its column only. -/
theorem cornerUp_inv (h : Inv s) (hpc : s.pc = .cornerUp d) : Leads mem Inv (cornerUp d s) := by
  have hat := h.at hpc
  cases d <;>
    simp [cornerUp, cornerUpDone, inv_iff, ranges_iff, (ranges_iff s).mp h.ranges, h.kw, hpc]
      at hat ⊢ <;>
    grind

/-- The column after this one is one further in, and no further than the limit. -/
theorem cornerDown_inv (h : Inv s) (hpc : s.pc = .cornerDown d) :
    Leads mem Inv (cornerDown d s) := by
  have hat := h.at hpc
  cases d <;>
    simp [cornerDown, cornerNext, inv_iff, ranges_iff, (ranges_iff s).mp h.ranges, h.kw, hpc]
      at hat ⊢ <;>
    grind [u8]

/-- The columns appended are narrowed to bytes. -/
theorem append_inv (h : Inv s) (hpc : s.pc = .append d) : Leads mem Inv (append d s) := by
  have hat := h.at hpc
  have hb := (ranges_iff s).mp h.ranges
  cases d <;>
    simp [append, inv_iff, ranges_iff, hb, h.kw, hpc, byte_update] at hat ⊢ <;>
    grind [u8, Byte]

/-- A loop that is given up leaves nothing that the normal pass would have to bound. -/
theorem loopCancel_inv (h : Inv s) (hpc : s.pc = .loopCancel) : Leads mem Inv (loopCancel s) := by
  simp [loopCancel, inv_iff, ranges_iff, (ranges_iff s).mp h.ranges, h.kw, hpc]

/-! ## The cross pass -/

/-- The top of the crossing is looked for from row 50 on. -/
theorem crossBound_inv (h : Inv s) (hpc : s.pc = .crossBound) : Leads mem Inv (crossBound s) := by
  have hat := h.at hpc
  simp [crossBound, inv_iff, ranges_iff, (ranges_iff s).mp h.ranges, h.kw, hpc] at hat ⊢
  exact hat

/-- Both cursors start in the middle column, as in the bottom row. -/
theorem top_inv (h : Inv s) (hpc : s.pc = .top) : Leads mem Inv (top s) := by
  have hat := h.at hpc
  simp [top, inv_iff, ranges_iff, (ranges_iff s).mp h.ranges, h.kw, hpc] at hat ⊢
  simp [hat]

/-- The left cursor goes left to column 45; where the road is wider, the row is no top. -/
theorem topLeft_inv {b : Bool} (h : Inv s) (hpc : s.pc = .topLeft b) :
    Leads mem Inv (topLeft b s) := by
  have hat := h.at hpc
  cases b <;>
    simp [topLeft, inv_iff, ranges_iff, (ranges_iff s).mp h.ranges, h.kw, hpc] at hat ⊢ <;>
    grind [u8]

/-- The right cursor goes right to column 143; where the road is wider, the row is no top. -/
theorem topRight_inv (h : Inv s) (hpc : s.pc = .topRight) : Leads mem Inv (topRight s) := by
  have hat := h.at hpc
  simp [topRight, inv_iff, ranges_iff, (ranges_iff s).mp h.ranges, h.kw, hpc] at hat ⊢
  grind [u8]

/-- The cursors move apart, as in the bottom row. -/
theorem topSeek_inv (h : Inv s) (hpc : s.pc = .topSeek) : Leads mem Inv (topSeek s) := by
  have hat := h.at hpc
  simp [topSeek, inv_iff, ranges_iff, (ranges_iff s).mp h.ranges, h.kw, hpc] at hat ⊢
  grind [u8]

/-- The row of the top becomes `y_start`, and the crossing starts in the row below it. -/
theorem topTest_inv (h : Inv s) (hpc : s.pc = .topTest) : Leads mem Inv (topTest s) := by
  have hat := h.at hpc
  simp [topTest, inv_iff, ranges_iff, (ranges_iff s).mp h.ranges, h.kw, hpc] at hat ⊢
  grind [u8]

/-- Every third row is tried, down to row 80. -/
theorem topNext_inv (h : Inv s) (hpc : s.pc = .topNext) : Leads mem Inv (topNext s) := by
  have hat := h.at hpc
  simp [topNext, crossExit, inv_iff, ranges_iff, (ranges_iff s).mp h.ranges, h.kw, hpc] at hat ⊢
  grind [u8]

/-- The rows of the crossing end above the last row. -/
theorem crossRow_inv (h : Inv s) (hpc : s.pc = .crossRow) : Leads mem Inv (crossRow s) := by
  have hat := h.at hpc
  simp [crossRow, inv_iff, ranges_iff, (ranges_iff s).mp h.ranges, h.kw, hpc] at hat ⊢
  grind

/-- The outward scan counts its columns in `dx` and gives up after 5. -/
theorem crossOut_inv (h : Inv s) (hpc : s.pc = .crossOut d) : Leads mem Inv (crossOut d s) := by
  have hat := h.at hpc
  cases d <;>
    simp [crossOut, crossOutEnd, inv_iff, ranges_iff, (ranges_iff s).mp h.ranges, h.kw, hpc]
      at hat ⊢ <;>
    grind [i16]

/-- The inward scan has no limit of its own: of its cursor only the byte is kept. -/
theorem crossIn_inv (h : Inv s) (hpc : s.pc = .crossIn d) : Leads mem Inv (crossIn d s) := by
  have hat := h.at hpc
  cases d <;>
    simp [crossIn, inv_iff, ranges_iff, (ranges_iff s).mp h.ranges, h.kw, hpc] at hat ⊢ <;>
    grind

/-- After the right side comes the row below, or the end of the crossing. -/
theorem crossRecord_inv (h : Inv s) (hpc : s.pc = .crossRecord d) :
    Leads mem Inv (crossRecord d s) := by
  have hat := h.at hpc
  cases d <;>
    simp [crossRecord, inv_iff, ranges_iff, (ranges_iff s).mp h.ranges, h.kw, hpc] at hat ⊢ <;>
    grind [u8]

/-- The row in which the crossing has ended becomes `y_end`. -/
theorem crossEnd_inv (h : Inv s) (hpc : s.pc = .crossEnd) : Leads mem Inv (crossEnd s) := by
  have hat := h.at hpc
  simp [crossEnd, crossExit, crossSlope, inv_iff, ranges_iff, (ranges_iff s).mp h.ranges, h.kw,
    hpc] at hat ⊢
  grind

/-! ## Element types and the midline -/

/-- The passes that are chosen here set their own bounds: `Cross` for the cross pass. -/
theorem analyze_inv {enableLoop : Bool} (h : Inv s) (hpc : s.pc = .analyze) :
    Leads mem Inv (analyze enableLoop s) := by
  have hat := h.at hpc
  simp [analyze, inv_iff, ranges_iff, (ranges_iff s).mp h.ranges, h.kw, hpc] at hat ⊢
  grind

/-- The midline starts in row `y_end`. -/
theorem mid_inv (h : Inv s) (hpc : s.pc = .mid) : Leads mem Inv (mid s) := by
  have hat := h.at hpc
  simp [mid, inv_iff, ranges_iff, (ranges_iff s).mp h.ranges, h.kw, hpc] at hat ⊢
  exact .inr hat

/-- The midline goes up from `y_end`; with `y_start` 0 its row wraps round instead. -/
theorem midRow_inv (h : Inv s) (hpc : s.pc = .midRow) : Leads mem Inv (midRow s) := by
  have hat := h.at hpc
  have hb := (ranges_iff s).mp h.ranges
  simp [midRow, midline, midOneSided, inv_iff, ranges_iff, hb, h.kw, hpc] at hat ⊢
  grind [u8, Byte]

/-- Each stretch of code keeps the invariant. -/
theorem step_inv {enableLoop : Bool} (h : Inv s) : Leads mem Inv (code enableLoop s) := by
  unfold code
  cases hpc : s.pc with
  -- the bottom row
  | entry => exact entry_inv h
  | zebra => exact zebra_inv h hpc
  | bottom => exact bottom_inv h hpc
  | bottomLeft b => exact bottomLeft_inv h hpc
  | bottomRight => exact bottomRight_inv h hpc
  | bottomSeek => exact bottomSeek_inv h hpc
  | bottomTest => exact bottomTest_inv h hpc
  | bottomFound => exact bottomFound_inv h hpc
  | edge d => exact edge_inv h hpc
  | dispatch => exact dispatch_inv h hpc
  -- the normal pass
  | normalBound => exact normalBound_inv h hpc
  | row => exact row_inv h hpc
  | side d => exact side_inv h hpc
  | inward d => exact inward_inv h hpc
  | outward d => exact outward_inv h hpc
  | exitProbe d => exact exitProbe_inv h hpc
  | exitColumn d => exact exitColumn_inv h hpc
  | exitDown d => exact exitDown_inv h hpc
  | exitUp d => exact exitUp_inv h hpc
  | exitClimb d => exact exitClimb_inv h hpc
  | record d => exact record_inv h hpc
  | normalEnd => exact normalEnd_inv h hpc
  -- the loop pass
  | loop => exact loop_inv h hpc
  | loopDrop d => exact loopDrop_inv h hpc
  | loopRise d => exact loopRise_inv h hpc
  | corner d => exact corner_inv h hpc
  | cornerUp d => exact cornerUp_inv h hpc
  | cornerDown d => exact cornerDown_inv h hpc
  | append d => exact append_inv h hpc
  | loopCancel => exact loopCancel_inv h hpc
  -- the cross pass
  | crossBound => exact crossBound_inv h hpc
  | top => exact top_inv h hpc
  | topLeft b => exact topLeft_inv h hpc
  | topRight => exact topRight_inv h hpc
  | topSeek => exact topSeek_inv h hpc
  | topTest => exact topTest_inv h hpc
  | topNext => exact topNext_inv h hpc
  | crossRow => exact crossRow_inv h hpc
  | crossOut d => exact crossOut_inv h hpc
  | crossIn d => exact crossIn_inv h hpc
  | crossRecord d => exact crossRecord_inv h hpc
  | crossEnd => exact crossEnd_inv h hpc
  -- the element type and the midline
  | analyze => exact analyze_inv h hpc
  | mid => exact mid_inv h hpc
  | midRow => exact midRow_inv h hpc

/-- The invariant holds in every state that `search` visits. -/
theorem inv_visits {enableLoop : Bool} (h : Inv s) {t : State}
    (ht : Goto.Visits (code enableLoop) mem s t) : Inv t :=
  Goto.visits_induction Inv h (fun _ _ _ hu hnext => (step_inv hu).next hnext) t ht

end SmartCar.MtImage

import SmartCar.MtImage.State

/-!
# mt_image: the track search

`search` as a goto program. Each label of the source, and the head of each of
its loops, is a `Pc`; the definitions below say what the program does from one
to the next. Code that the source writes once for each side, mirrored, is one
definition over the side `d`, with the places where the two copies differ as a
`match` on `d`.
-/

namespace SmartCar.MtImage

open CInt

variable (enableLoop : Bool)

/-- Read `image[y][x]`. -/
def px (y x : ℤ) (k : UInt8 → Go) : Go := .read (y, x) k

/-- `SET_IMG(x, y, T)`. -/
def setImg (x y : ℤ) (t : UInt8) (k : Go) : Go := .mark ⟨x, y, t⟩ k

/-- `limit(x, a)`; the argument is narrowed to `int8` by the call. -/
def limit (x a : ℤ) : ℤ :=
  if i8 x < -a then i8 (-a) else if i8 x > a then i8 a else i8 x

/-! ## Entry and zebra detection -/

/-- The declarations with initialiser of one side; the array's cells beyond its
end are not initialised. -/
def initTrack (t : Track) : Track :=
  { t with
    xs := fun i => if 0 ≤ i ∧ i < height then 0 else t.xs i
    mSet := false, pad := false, unset := true, cont := 0, dx := 0
    ngCount := 0, gCount := bdGCountMax, ng := true, stop0 := false, stop := false }

/-- The declarations of `search`, up to `bottom:`. -/
def locals (s : State) : State :=
  { s with
    pc := .bottom, y := yMax, l := initTrack s.l, r := initTrack s.r
    lost := false, sw := 0, so := 0, kw := 1 }

def entry (s : State) : Go :=
  let s := { s with el := s.elementType, prevElNormal := decide (s.elementType ≤ .normal) }
  px yMax 0 fun p =>
    if p ≠ ROAD then .goto { s with pc := .zebra, curr := ROAD, changeCount := 0, zx := xMin }
    else .goto (locals s)

def zebra (s : State) : Go :=
  if s.zx ≤ xMax then
    px yMax s.zx fun p =>
      let s := if p ≠ s.curr then { s with curr := p, changeCount := u8 (s.changeCount + 1) } else s
      -- enough changes for a zebra crossing: nothing else is searched
      if s.changeCount > 9 then .halt { s with elementType := .zebra }
      else .goto { s with zx := u8 (s.zx + 1) }
  else if s.el = .zebra then .goto (locals { s with elementType := .normal })
  else .goto (locals s)

/-! ## The bottom row -/

def bottom (s : State) : Go :=
  if s.y > yBottomBothLostMin then
    let s := (s.setX .left xMid).setX .right xMid
    px s.y xMid fun p =>
      if p ≠ EMPTY then .goto { s with pc := .bottomLeft true }
      else .goto { s with pc := .bottomSeek }
  else .goto { s with pc := .bottomFound }

/-- `while (image[y][xl - 1] != EMPTY) if (-- xl == X_MIN) break;` -/
def bottomLeft (thenRight : Bool) (s : State) : Go :=
  let done (s : State) : Go :=
    .goto { s with pc := if thenRight then .bottomRight else .bottomTest }
  px s.y (s.l.x - 1) fun p =>
    if p ≠ EMPTY then
      let s := s.setX .left (u8 (s.l.x - 1))
      if s.l.x = xMin then done s else .goto s
    else done s

/-- `while (image[y][xr + 1] != EMPTY) if (++ xr == X_MAX) break;` -/
def bottomRight (s : State) : Go :=
  px s.y (s.r.x + 1) fun p =>
    if p ≠ EMPTY then
      let s := s.setX .right (u8 (s.r.x + 1))
      if s.r.x = xMax then .goto { s with pc := .bottomTest } else .goto s
    else .goto { s with pc := .bottomTest }

/-- One turn of `while (true)`: a column to the left, then one to the right. -/
def bottomSeek (s : State) : Go :=
  let s := s.setX .left (u8 (s.l.x - 1))
  if s.l.x = xMin then .goto { s with pc := .bottomTest }
  else px s.y s.l.x fun p =>
    if p ≠ EMPTY then .goto { s.setX .right s.l.x with pc := .bottomLeft false }
    else
      let s := s.setX .right (u8 (s.r.x + 1))
      px s.y (s.r.x + 1) fun p =>
        if p ≠ EMPTY then .goto { s.setX .left s.r.x with pc := .bottomRight }
        else .goto s

/-- `if (xl != X_MIN) xls[y] = xl;` and its mirror image. -/
def bottomStore (d : Side) (s : State) (k : State → Go) : Go :=
  if (s.track d).x ≠ d.edge then .touch (.xs d s.y) (k (s.setXs d s.y (s.track d).x)) else k s

def bottomTest (s : State) : Go :=
  if s.l.x ≠ xMin ∨ s.r.x ≠ xMax then
    bottomStore .left s fun s => bottomStore .right s fun s => .goto { s with pc := .bottomFound }
  else .goto { s with pc := .bottom, y := u8 (s.y - 1) }

/-- `if (xr == X_MAX) for (y = y_end; ...`, then `normal_bound` or another pass. -/
def edgeRight (s : State) : Go :=
  if s.r.x = xMax then .goto { s with pc := .edge .right, y := s.yEnd }
  else .goto { s with pc := .dispatch }

/-- `if (xl == X_MIN) for (y = y_end; ...` -/
def edgeLeft (s : State) : Go :=
  if s.l.x = xMin then .goto { s with pc := .edge .left, y := s.yEnd } else edgeRight s

def bottomFound (s : State) : Go :=
  .touch (.xls yMax) <| .touch (.xrs yMax) <|
    let s := { s with
      l := { s.l with pad := decide (s.l.xs yMax = xMin) }
      r := { s.r with pad := decide (s.r.xs yMax = xMax) }
      yEnd := s.y }
    setImg s.l.x s.y BOUND <| setImg s.r.x s.y BOUND <| edgeLeft s

/-- The whole border is road. The right copy sets `r_stop0` twice and leaves
`r_stop` alone. -/
def setStop (d : Side) (s : State) : State :=
  match d with
  | .left => { s with l := { s.l with stop0 := true, stop := true, ng := true } }
  | .right => { s with r := { s.r with stop0 := true, ng := true } }

/-- After the border scan of side `d`. -/
def edgeDone : Side → State → Go
  | .left, s => edgeRight s
  | .right, s => .goto { s with pc := .dispatch }

/-- `for (y = y_end; image[y --][X_MIN] != EMPTY; ) if (y == Y_BOTTOM_MIN) ...` -/
def edge (d : Side) (s : State) : Go :=
  px s.y d.edge fun p =>
    let s := { s with y := u8 (s.y - 1) }
    if p ≠ EMPTY then
      if s.y = yBottomMin then edgeDone d (setStop d s) else .goto s
    else edgeDone d s

def dispatch (s : State) : Go :=
  -- road from border to border: the offset of the frame before is kept
  if s.l.stop0 ∧ s.r.stop0 then .halt s
  else if s.el = .loopRight then .goto { s with pc := .loop }
  else if s.el = .loopLeft then .goto { s with pc := .loop }
  else if s.el = .cross then .goto { s with pc := .crossBound }
  else .goto { s with pc := .normalBound }

/-! ## The normal pass -/

/-- What `normal_bound:` resets for one side. -/
def resetTrack (t : Track) : Track :=
  { t with y0 := 0, unset := true, mSet := false, convex := 0, inn := 0, out := 0, segs := 0 }

def normalBound (s : State) : Go :=
  .goto { s with
    pc := .row, l := resetTrack s.l, r := resetTrack s.r, yEnd := yMax, leFailed := false
    y := u8 (yMax - 1), dx := 0 }

def row (s : State) : Go :=
  if s.y ≥ yBdMin then
    -- a track that has been normal so far is not followed further up
    if s.y = yNormalMin ∧ s.prevElNormal ∧ s.l.ngCount = 0 ∧ s.r.ngCount = 0 ∧
        s.l.segs = 1 ∧ s.r.segs = 1 then
      .goto { s with pc := .normalEnd }
    else .goto { s with pc := .side .left }
  else .goto { s with pc := .normalEnd }

/-- `left$:` or `right$:`. -/
def sideEnd (d : Side) (s : State) : Go :=
  match d with
  | .left => .goto { s with pc := .side .right }
  | .right => .goto { s with pc := .row, y := u8 (s.y - 1) }

def side (d : Side) (s : State) : Go :=
  if (s.track d).stop then sideEnd d s
  else .goto { s with pc := .inward d, lost := false, dx := 0 }

/-- After the inward scan. -/
def inwardEnd (d : Side) (s : State) : Go :=
  if s.dx = 0 ∧ (s.track d).x ≠ d.edge then .goto { s with pc := .outward d }
  else .goto { s with pc := .record d }

/-- `for (dx = 0; image[y][xl] == EMPTY; dx ++, xl ++) if (dx == DX_BD_MAX) ...` -/
def inward (d : Side) (s : State) : Go :=
  px s.y (s.track d).x fun p =>
    if p = EMPTY then
      if s.dx = d.sgn * dxBdMax then
        inwardEnd d { s.setX d (u8 ((s.track d).x - d.sgn * dxBdMax)) with lost := true }
      else
        .goto { s.setX d (u8 ((s.track d).x + d.sgn)) with dx := i16 (s.dx + d.sgn) }
    else inwardEnd d s

/-- `xl > X_MIN`, `xr < X_MAX`. -/
def inside (d : Side) (x : ℤ) : Prop :=
  match d with
  | .left => x > xMin
  | .right => x < xMax

instance (d : Side) (x : ℤ) : Decidable (inside d x) :=
  match d with
  | .left => inferInstanceAs (Decidable (_ > _))
  | .right => inferInstanceAs (Decidable (_ < _))

/-- `for (; image[y][xl - 1] != EMPTY && xl > X_MIN; dx --, xl --)`, given up after
`DX_BD_INV_MAX - l_l_cont` columns, and then undone by `DX_BD_INV_MAX`. -/
def outward (d : Side) (s : State) : Go :=
  px s.y ((s.track d).x - d.sgn) fun p =>
    if p ≠ EMPTY ∧ inside d (s.track d).x then
      if s.dx = d.sgn * (-dxBdInvMax + (s.track d).cont) then
        .goto { s.setX d (u8 ((s.track d).x + d.sgn * dxBdInvMax)) with pc := .exitProbe d }
      else
        .goto { s.setX d (u8 ((s.track d).x - d.sgn)) with dx := i16 (s.dx - d.sgn) }
    else .goto { s with pc := .record d }

/-! ### The lateral exit -/

/-- `l_inv_lost:` -/
def invLost (d : Side) (s : State) : Go := .goto { s with pc := .record d, lost := true }

/-- `l_loop_exit_lost:` -/
def loopExitLost (d : Side) (s : State) : Go := invLost d { s with leFailed := true }

/-- The right copy also asks for `l_stop0`. -/
def exitProbe (d : Side) (s : State) : Go :=
  if s.leFailed = false ∧ (d = .right → s.l.stop0) then
    px (s.y - 1) (s.track d).x fun p =>
      if p = EMPTY then
        .goto { s with pc := .exitColumn d, xc := (s.track d).x, yc := s.y, dy := 0, upCount := 0 }
      else invLost d s
  else invLost d s

/-- The start of an append loop for the columns of side `d`: `xlf = xls[Y_MAX]`,
and the slope towards `(xc, yc)`. -/
def appendStart (d : Side) (s : State) : Go :=
  .touch (.xs d yMax) <|
    let x := (s.track d).xs yMax
    setImg x yMax SPECIAL <|
      .goto { s with
        pc := .append d, xf := x, m := ((s.xc - x : ℤ) : ℚ) / ((yMax - s.yc : ℤ) : ℚ)
        y := u8 (yMax - 1) }

/-- `for (y = Y_MAX - 1; y > yc; y --) { xlf += m; xls[y] = (uint8) xlf; }` -/
def append (d : Side) (s : State) : Go :=
  if s.y > s.yc then
    let s := { s with xf := s.xf + s.m }
    .touch (.xs d s.y) <| setImg (u8 (trunc s.xf)) s.y BOUND_APP <|
      .goto { s.setXs d s.y (u8 (trunc s.xf)) with y := u8 (s.y - 1) }
  else .goto { s with pc := .mid }

/-- `xc <= X_MAX`, `xc >= X_MIN`. -/
def within (d : Side) (xc : ℤ) : Prop :=
  match d with
  | .left => xc ≤ xMax
  | .right => xc ≥ xMin

instance (d : Side) (xc : ℤ) : Decidable (within d xc) :=
  match d with
  | .left => inferInstanceAs (Decidable (_ ≤ _))
  | .right => inferInstanceAs (Decidable (_ ≥ _))

def exitColumn (d : Side) (s : State) : Go :=
  -- past the last column the exit has been followed across the image
  if within d s.xc then .goto { s with pc := .exitDown d, dy := 0 }
  else appendStart d { s with yStart := s.yc }

def exitDown (d : Side) (s : State) : Go :=
  px s.yc s.xc fun p =>
    if p = EMPTY then
      let s := { s with dy := u8 (s.dy + 1) }
      if s.dy = leDnMax then loopExitLost d s else .goto { s with yc := u8 (s.yc + 1) }
    else .goto { s with pc := .exitUp d }

/-- The column is done: mark it and go on with the next one. -/
def exitNext (d : Side) (s : State) : Go :=
  setImg s.xc s.yc BOUND <| .goto { s with pc := .exitColumn d, xc := u8 (s.xc + d.sgn) }

def exitUp (d : Side) (s : State) : Go :=
  px (s.yc - 1) s.xc fun p =>
    if p ≠ EMPTY then
      let s := { s with upCount := u8 (s.upCount + 1) }
      if s.upCount = leUpCountMax then loopExitLost d s
      else .goto { s with pc := .exitClimb d, dy := 1, yc := u8 (s.yc - 1) }
    else exitNext d s

def exitClimb (d : Side) (s : State) : Go :=
  px (s.yc - 1) s.xc fun p =>
    if p ≠ EMPTY then
      let s := { s with dy := u8 (s.dy + 1) }
      if s.dy = leUpMax then loopExitLost d s else .goto { s with yc := u8 (s.yc - 1) }
    else exitNext d s

/-! ### Recording a row -/

/-- `left_g:` -/
def good (d : Side) (s : State) : Go :=
  let t := s.track d
  sideEnd d (if t.ng then s.setTrack d { t with ng := false, segs := u8 (t.segs + 1) } else s)

/-- `left_ng:` -/
def noGood (d : Side) (s : State) : Go :=
  let t := s.track d
  let t := { t with gCount := 0, ngCount := u8 (t.ngCount + 1) }
  sideEnd d (s.setTrack d (if t.ngCount = bdNgCountMax then { t with ng := true } else t))

/-- The debounce of a recorded row: `if (l_ng_count) ... else if (l_g_count) ...` -/
def debounce (d : Side) (s : State) : Go :=
  let t := s.track d
  if t.ngCount ≠ 0 then
    -- near the car a border must be good for a few rows first
    if s.y > yStrictGMax then
      sideEnd d (s.setTrack d { t with ngCount := 0, gCount := bdGCountMax })
    else good d (s.setTrack d { t with ngCount := 0 })
  else if t.gCount ≠ 0 then
    let t := { t with gCount := u8 (t.gCount - 1) }
    if t.gCount = 0 then good d (s.setTrack d t) else sideEnd d (s.setTrack d t)
  else sideEnd d s

/-- The curve that a convex border of side `d` announces. -/
def curveOf : Side → ElementType
  | .left => .curveRight
  | .right => .curveLeft

def loopBefore : Side → ElementType
  | .left => .loopLeftBefore
  | .right => .loopRightBefore

def loopBefore2 : Side → ElementType
  | .left => .loopLeftBefore2
  | .right => .loopRightBefore2

/-- Whether the edge moved inwards or not, and how the border bends. -/
def countRow (dx : ℤ) (t : Track) : Track :=
  let t := if dx > 0 then { t with inn := u8 (t.inn + 1), cont := 0 }
    else { t with out := u8 (t.out + 1), cont := u8 (t.cont + 1) }
  { t with convex := i8 (t.convex + limit (dx - t.dx) convexLimit) }

/-- `else if (l_convex <= LP_CONVEX && el == LoopLeftBefore)` -/
def secondLoop (d : Side) (s : State) : State :=
  if (s.track d).convex ≤ lpConvex ∧ s.el = loopBefore d then
    { s with el := loopBefore2 d, elementType := loopBefore2 d, prevElNormal := false }
  else s

/-- From `dx = xl - xls[y + 1];` to the end of the row: counts, convexity,
debounce. The row below is read after this row has been stored. -/
def convexity (d : Side) (s : State) : Go :=
  .touch (.xs d (s.y + 1)) <|
    let t := s.track d
    let dx := i16 (d.sgn * (t.x - t.xs (s.y + 1)))
    let s : State := { s.setTrack d (countRow dx t) with dx := dx }
    if (s.track d).convex ≥ cvConvex ∧ s.prevElNormal then
      .goto { s with pc := .normalEnd, el := curveOf d, elementType := curveOf d }
    else
      let s := secondLoop d s
      debounce d (s.setTrack d { s.track d with dx := i8 dx })

/-- The guard of the slope up to its last conjunct, which reads a table. -/
def slopeGuard (d : Side) (s : State) : Prop :=
  (s.track d).unset = false ∧ s.y - (s.track d).y0 ≠ 0 ∧
    0 < d.sgn * s.dx ∧ d.sgn * s.dx ≤ dxMMax

instance (d : Side) (s : State) : Decidable (slopeGuard d s) :=
  inferInstanceAs (Decidable (_ ∧ _))

/-- The last conjunct compares with `xrs[y0]` on both sides. -/
def slope (d : Side) (s : State) (k : State → Go) : Go :=
  let t := s.track d
  if slopeGuard d s then
    .touch (.xrs t.y0) <|
      if t.x - s.r.xs t.y0 ≠ 0 then
        .touch (.xs d t.y0) <|
          k (s.setTrack d
            { t with m := ((t.x - t.xs t.y0 : ℤ) : ℚ) / ((s.y - t.y0 : ℤ) : ℚ), mSet := true })
      else k s
  else k s

/-- The row has a border: store it. -/
def recordFound (d : Side) (s : State) : Go :=
  slope d s fun s =>
    .touch (.xs d s.y) <| setImg (s.track d).x s.y BOUND <|
      convexity d (s.setXs d s.y (s.track d).x)

/-- The row is lost: stop the side, extrapolate, or leave the row out. -/
def recordLost (d : Side) (s : State) : Go :=
  let t := s.track d
  -- next to a loop a lost side is given up, elsewhere it is extrapolated
  if s.el > .cross then sideEnd d (s.setTrack d { t with stop := true })
  else if t.mSet then
    .touch (.xs d t.y0) <|
      let x := u8 (trunc (t.m * (s.y - t.y0 : ℤ) + t.xs t.y0))
      .touch (.xs d s.y) <| setImg x s.y BOUND_APP <| noGood d ((s.setX d x).setXs d s.y x)
  else sideEnd d s

def record (d : Side) (s : State) : Go :=
  let t := s.track d
  if t.x = d.edge then noGood d (s.setTrack d { t with unset := true })
  else
    let s := if t.unset then s.setTrack d { t with y0 := s.y, unset := false } else s
    if s.lost then recordLost d s else recordFound d s

def normalEnd (s : State) : Go := .goto { s with pc := .analyze, yStart := s.y }

/-! ## The loop pass -/

/-- `loop_cancel:` -/
def loopCancel (s : State) : Go :=
  .goto { s with pc := .normalBound, el := .normal, elementType := .normal }

def loop (s : State) : Go :=
  let s := { s with yEnd := yMax, y := yMax }
  if s.el = .loopLeft then .goto { s with pc := .loopDrop .left }
  else .goto { s with pc := .loopDrop .right }

/-- `for (y = Y_MAX; image[y][X_MIN] == EMPTY && y > Y_LP_MIN; y --);` -/
def loopDrop (d : Side) (s : State) : Go :=
  px s.y d.edge fun p =>
    if p = EMPTY ∧ s.y > yLpMin then .goto { s with y := u8 (s.y - 1) }
    else .goto { s with pc := .loopRise d }

def markOf : Side → UInt8
  | .left => SPECIAL
  | .right => BOUND

/-- `for (; image[y - 1][X_MIN] != EMPTY; y --) if (y == Y_LP_MIN) goto loop_cancel;` -/
def loopRise (d : Side) (s : State) : Go :=
  px (s.y - 1) d.edge fun p =>
    if p ≠ EMPTY then
      if s.y = yLpMin then .goto { s with pc := .loopCancel }
      else .goto { s with y := u8 (s.y - 1) }
    else
      setImg d.edge s.y (markOf d) <|
        .goto { s.setX d (u8 (d.edge + d.sgn)) with
          pc := .corner d, upCount := 0, upFailedCount := 0 }

/-- The corner has been found: append the opposite border of the loop from the
bottom to the corner. -/
def cornerFound (d : Side) (s : State) : Go :=
  let x := (s.track d).x
  match d with
  | .left =>
    if x < xLpCornerLMin then .goto { s with pc := .loopCancel }
    else
      let s := { s with
        xc := u8 (max (i16 x - lpUpCountMax - xLpCornerLOffset) xMin)
        y := s.y0, yc := s.y0, yStart := s.y0 }
      setImg s.xc s.yc SPECIAL <| appendStart .right s
  | .right =>
    if x > xLpCornerRMax then .goto { s with pc := .loopCancel }
    else
      let s := { s with xc := u8 (min (x + xLpCornerROffset) xMax), yc := s.y, yStart := s.y }
      setImg s.xc s.yc SPECIAL <| appendStart .left s

def cornerLimit : Side → ℤ
  | .left => xLpCornerLMax
  | .right => xLpCornerRMin

/-- The head of the column loop. On the left `y0` keeps the last row on which the
border did not rise; on the right it keeps the row before the climb. -/
def corner (d : Side) (s : State) : Go :=
  let x := (s.track d).x
  if x = cornerLimit d then .goto { s with pc := .loopCancel }
  else px (s.y - 1) x fun p =>
    if p ≠ EMPTY then
      let s := { s with upCount := u8 (s.upCount + 1) }
      -- three climbs in a row are the corner
      if s.upCount = lpUpCountMax then cornerFound d s
      else match d with
        | .left => .goto { s with pc := .cornerUp .left, y1 := s.y, y := u8 (s.y - 1) }
        | .right => .goto { s with pc := .cornerUp .right, y0 := s.y, y := u8 (s.y - 1) }
    else match d with
      | .left => .goto { s with pc := .cornerDown .left, upCount := 0, y0 := s.y, y1 := s.y }
      | .right => .goto { s with pc := .cornerDown .right, upCount := 0 }

/-- The climb is over: go down in the same column. -/
def cornerUpDone (d : Side) (s : State) : Go :=
  match d with
  | .left => .goto { s with pc := .cornerDown .left, y1 := s.y }
  | .right => .goto { s with pc := .cornerDown .right }

/-- `for (y1 = y, y --; image[y - 1][xl] != EMPTY; y --) if (y == Y_LP_MIN) ...` -/
def cornerUp (d : Side) (s : State) : Go :=
  px (s.y - 1) (s.track d).x fun p =>
    if p ≠ EMPTY then
      if s.y = yLpMin then
        let s := { s with upFailedCount := u8 (s.upFailedCount + 1) }
        -- the climb has no end: the column is taken to be flat
        if s.upFailedCount = lpUpFailedMax then .goto { s with pc := .loopCancel }
        else match d with
          | .left => cornerUpDone .left { s with y := s.y1 }
          | .right => cornerUpDone .right { s with y := s.y0 }
      else .goto { s with y := u8 (s.y - 1) }
    else cornerUpDone d s

/-- The column is done: mark it and go on with the next one. -/
def cornerNext (d : Side) (s : State) : Go :=
  setImg (s.track d).x s.y BOUND <|
    .goto { s.setX d (u8 ((s.track d).x + d.sgn)) with pc := .corner d }

/-- On the left the scan gives up `LP_UP_COUNT_MAX` rows *above* its start; on the
right it stops at the bottom row. -/
def cornerDown (d : Side) (s : State) : Go :=
  px s.y (s.track d).x fun p =>
    match d with
    | .left =>
      if p = EMPTY then
        if s.y = s.y1 - lpUpCountMax then cornerNext .left { s with y := s.y1 }
        else .goto { s with y := u8 (s.y + 1) }
      else cornerNext .left s
    | .right =>
      if p = EMPTY ∧ s.y < yMax then .goto { s with y := u8 (s.y + 1) }
      else cornerNext .right s

/-! ## The cross pass -/

/-- `cross_exit:` -/
def crossExit (s : State) : Go :=
  .goto { s with pc := .normalBound, el := .normal, elementType := .normal }

def crossBound (s : State) : Go := .goto { s with pc := .top, y := yXrTopMin }

def top (s : State) : Go :=
  let s := (s.setX .left xMid).setX .right xMid
  px s.y xMid fun p =>
    if p ≠ EMPTY then .goto { s with pc := .topLeft true } else .goto { s with pc := .topSeek }

def topLeft (thenRight : Bool) (s : State) : Go :=
  px s.y (s.l.x - 1) fun p =>
    if p ≠ EMPTY then
      let s := s.setX .left (u8 (s.l.x - 1))
      if s.l.x < xXrTopMin then .goto { s with pc := .topNext } else .goto s
    else .goto { s with pc := if thenRight then .topRight else .topTest }

def topRight (s : State) : Go :=
  px s.y (s.r.x + 1) fun p =>
    if p ≠ EMPTY then
      let s := s.setX .right (u8 (s.r.x + 1))
      if s.r.x > xXrTopMax then .goto { s with pc := .topNext } else .goto s
    else .goto { s with pc := .topTest }

def topSeek (s : State) : Go :=
  let s := s.setX .left (u8 (s.l.x - 1))
  if s.l.x < xXrTopMin then .goto { s with pc := .topNext }
  else px s.y s.l.x fun p =>
    if p ≠ EMPTY then .goto { s.setX .right s.l.x with pc := .topLeft false }
    else
      let s := s.setX .right (u8 (s.r.x + 1))
      px s.y (s.r.x + 1) fun p =>
        if p ≠ EMPTY then .goto { s.setX .left s.r.x with pc := .topRight }
        else .goto s

def topTest (s : State) : Go :=
  let s := { s with dx := i16 (s.r.x - s.l.x) }
  if s.dx > 5 then
    .touch (.stdWidth s.y) <|
      if s.dx ≤ stdWidth s.y * 3 then
        setImg s.l.x s.y MID_LINE <| setImg s.r.x s.y MID_LINE <|
          .goto { s with pc := .crossRow, yStart := s.y, crossTop := true, y := u8 (s.y + 1) }
      else .goto { s with pc := .topNext }
  else .goto { s with pc := .topNext }

/-- `cross_next_y:` -/
def topNext (s : State) : Go :=
  let s := { s with y := u8 (s.y + 3) }
  if s.y > yXrTopMax then crossExit s else .goto { s with pc := .top }

def crossRow (s : State) : Go :=
  if s.y < yMax then .goto { s with pc := .crossOut .left, dx := 0 }
  else .goto { s with pc := .crossEnd }

def crossOutEnd (d : Side) (s : State) : Go :=
  if s.dx = 0 then .goto { s with pc := .crossIn d } else .goto { s with pc := .crossRecord d }

/-- `for (dx = 0; image[y][xl - 1] != EMPTY; dx ++, xl --) if (dx == DX_BD_MAX) ...` -/
def crossOut (d : Side) (s : State) : Go :=
  px s.y ((s.track d).x - d.sgn) fun p =>
    if p ≠ EMPTY then
      if s.dx = dxBdMax then crossOutEnd d { s with crossTop := false }
      else .goto { s.setX d (u8 ((s.track d).x - d.sgn)) with dx := i16 (s.dx + 1) }
    else crossOutEnd d s

/-- `for (; image[y][xl] == EMPTY; xl ++);` -/
def crossIn (d : Side) (s : State) : Go :=
  px s.y (s.track d).x fun p =>
    if p = EMPTY then .goto (s.setX d (u8 ((s.track d).x + d.sgn)))
    else .goto { s with pc := .crossRecord d }

def crossRecord (d : Side) (s : State) : Go :=
  let x := (s.track d).x
  .touch (.xs d s.y) <|
    let s := s.setXs d s.y x
    match d with
    | .left => setImg x s.y BOUND <| .goto { s with pc := .crossOut .right, dx := 0 }
    | .right =>
      if s.crossTop then
        setImg x s.y BOUND <| .goto { s with pc := .crossRow, y := u8 (s.y + 1) }
      else .goto { s with pc := .crossEnd }

/-- The slope of side `d` between rows `y0` and `y1`. -/
def crossSlope (d : Side) (y0 y1 : ℤ) (s : State) (k : State → Go) : Go :=
  let t := s.track d
  .touch (.xs d y1) <| .touch (.xs d y0) <|
    k (s.setTrack d { t with m := ((t.xs y1 - t.xs y0 : ℤ) : ℚ) / ((y1 - y0 : ℤ) : ℚ) })

/-- The end of the cross pass, and `cross_app:`; the boundary that the debug build
draws below is left out. -/
def crossEnd (s : State) : Go :=
  let s := { s with yEnd := s.y }
  -- the crossing goes down to the last row: it is over
  if s.y = yMax then crossExit s
  else
    let y0 := u8 (max s.yStart (s.y - yXrMHeight - yXrMOffset))
    let y1 := u8 (s.y - yXrMOffset)
    crossSlope .left y0 y1 s fun s => crossSlope .right y0 y1 s fun s =>
      .goto { s with pc := .analyze }

/-! ## Element types -/

/-- `cross_bound$:` The element type of the frame. -/
def analyze (s : State) : Go :=
  -- the border hardly goes inwards any more, or is road all along: the loop is here
  if s.el = .loopLeftBefore2 ∧ ((¬ s.l.pad ∧ s.l.inn < 2) ∨ s.l.stop0) then
    .goto { s with pc := .loop, el := .loopLeft, elementType := .loopLeft }
  else if s.el = .loopRightBefore2 ∧ ((¬ s.r.pad ∧ s.r.inn < 2) ∨ s.r.stop0) then
    .goto { s with pc := .loop, el := .loopRight, elementType := .loopRight }
  else if s.el ≤ .normal then
    if enableLoop ∧ s.l.segs ≥ 3 ∧ s.r.segs = 1 then
      .goto { s with pc := .mid, el := .loopLeftBefore, elementType := .loopLeftBefore }
    else if enableLoop ∧ s.l.segs = 1 ∧ s.r.segs ≥ 3 then
      .goto { s with pc := .mid, el := .loopRightBefore, elementType := .loopRightBefore }
    else if s.l.segs ≥ 2 ∧ s.r.segs ≥ 2 then
      .goto { s with pc := .mid, el := .crossBefore, elementType := .crossBefore }
    else if |s.l.convex| < cvConvex ∧ |s.r.convex| < cvConvex then
      .goto { s with pc := .mid, elementType := .normal }
    else .goto { s with pc := .mid }
  -- the borders are no longer broken: the crossing itself is next
  else if s.el = .crossBefore ∧ s.l.segs < 2 ∧ s.r.segs < 2 then
    .goto { s with pc := .crossBound, el := .cross, elementType := .cross }
  else .goto { s with pc := .mid }

/-! ## The midline -/

def mid (s : State) : Go :=
  .goto { s with pc := .midRow, so := 0, sw := 0, dxm := 0, bothCount := 0, y := s.yEnd }

/-- A row with one border: the width is the standard one, and the middle is kept
continuous for as long as it was measured before. `sign` is `-1` for a row with a
right border and `1` for one with a left border. -/
def midOneSided (x sign : ℤ) (s : State) (k : State → Go) : Go :=
  .touch (.stdWidth s.y) <|
    let s := { s with dx := i16 (trunc (s.kw * stdWidth s.y)) }
    if s.bothCount > bothCountMin then
      k { s with dxm := i8 (s.xm - (x + sign * s.dx)), bothCount := 0 }
    else k { s with xm := i16 (x + sign * s.dx + s.dxm), bothCount := 0 }

/-- The middle and the width of row `y`. -/
def midline (s : State) (k : State → Go) : Go :=
  .touch (.xls s.y) <| .touch (.xrs s.y) <|
    let s := (s.setX .left (s.l.xs s.y)).setX .right (s.r.xs s.y)
    let xl := s.l.x
    let xr := s.r.x
    if xl ≠ 0 ∧ xr ≠ 0 then
      k { s with
        dx := i16 (xr - xl), xm := i16 ((xl + xr) / 2), dxm := 0
        bothCount := u8 (s.bothCount + 1) }
    else if xl = 0 ∧ xr = 0 then k { s with bothCount := 0 }
    else if xl = 0 ∨ s.el = .loopLeft then midOneSided xr (-1) s k
    else if xr = 0 ∨ s.el = .loopRight then midOneSided xl 1 s k
    else k { s with bothCount := 0 }

def midRow (s : State) : Go :=
  if s.y ≥ s.yStart then
    midline s fun s =>
      setImg s.xm s.y MID_LINE <|
        .goto { s with
          so := s.so + ((s.xm - xMid) * s.dx : ℤ), sw := u16 (s.sw + s.dx), y := u8 (s.y - 1) }
  else
    let s := { s with offset := .quot s.so s.sw }
    setImg (xMid + s.offset.toI8) yMax SPECIAL <| .halt s

/-! ## The program -/

/-- `search`, label by label. -/
def code (s : State) : Go :=
  match s.pc with
  | .entry => entry s
  | .zebra => zebra s
  | .bottom => bottom s
  | .bottomLeft thenRight => bottomLeft thenRight s
  | .bottomRight => bottomRight s
  | .bottomSeek => bottomSeek s
  | .bottomTest => bottomTest s
  | .bottomFound => bottomFound s
  | .edge d => edge d s
  | .dispatch => dispatch s
  | .normalBound => normalBound s
  | .row => row s
  | .side d => side d s
  | .inward d => inward d s
  | .outward d => outward d s
  | .exitProbe d => exitProbe d s
  | .exitColumn d => exitColumn d s
  | .exitDown d => exitDown d s
  | .exitUp d => exitUp d s
  | .exitClimb d => exitClimb d s
  | .record d => record d s
  | .normalEnd => normalEnd s
  | .loop => loop s
  | .loopDrop d => loopDrop d s
  | .loopRise d => loopRise d s
  | .corner d => corner d s
  | .cornerUp d => cornerUp d s
  | .cornerDown d => cornerDown d s
  | .append d => append d s
  | .loopCancel => loopCancel s
  | .crossBound => crossBound s
  | .top => top s
  | .topLeft thenRight => topLeft thenRight s
  | .topRight => topRight s
  | .topSeek => topSeek s
  | .topTest => topTest s
  | .topNext => topNext s
  | .crossRow => crossRow s
  | .crossOut d => crossOut d s
  | .crossIn d => crossIn d s
  | .crossRecord d => crossRecord d s
  | .crossEnd => crossEnd s
  | .analyze => analyze enableLoop s
  | .mid => mid s
  | .midRow => midRow s

end SmartCar.MtImage

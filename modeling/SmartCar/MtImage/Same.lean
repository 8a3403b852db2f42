import SmartCar.MtImage.Range

/-!
# mt_image: two runs side by side

Two runs of `search` over the same image. `Same` relates their states: at each label
the variables that are still to be read hold the same, whatever the others hold.
`dx` and `xm` are related by what the two runs began with, until they are assigned.

* `Live p` are the variables still to be read at label `p`;
* `step_same` says that related states do the same, up to the midline;
* `same_midRow` is the law of the midline, where `dx` and `xm` are read.
-/

namespace SmartCar.MtImage

open CInt

/-! ## The relation -/

/-- The same columns in the rows of the image. -/
def TableEq (f g : ℤ → ℤ) : Prop := ∀ i, 0 ≤ i → i < 120 → g i = f i

/-- The tables of both sides. -/
@[simp] def TablesEq (s t : State) : Prop := TableEq s.l.xs t.l.xs ∧ TableEq s.r.xs t.r.xs

/-- The cursors. -/
@[simp] def CursorsEq (s t : State) : Prop := t.l.x = s.l.x ∧ t.r.x = s.r.x

/-- The element types. -/
@[simp] def ElementEq (s t : State) : Prop := t.el = s.el ∧ t.prevElNormal = s.prevElNormal

/-- `dx` is the same, or what it was at the beginning. -/
@[simp] def DxEq (a b s t : State) : Prop := t.dx = s.dx ∨ s.dx = a.dx ∧ t.dx = b.dx

/-- What the bottom stage does not assign: `dx`, and the offset of the frame before. -/
@[simp] def KeptEq (a b s t : State) : Prop :=
  s.dx = a.dx ∧ t.dx = b.dx ∧ t.offset = s.offset

/-- What a side remembers from pass to pass, but for its cursor. -/
@[simp] def MemoryEq (u v : Track) : Prop :=
  v.stop0 = u.stop0 ∧ v.stop = u.stop ∧ v.ngCount = u.ngCount ∧
    (u.stop = false → v.cont = u.cont ∧ v.dx = u.dx ∧ v.gCount = u.gCount ∧ v.ng = u.ng)

/-- What a pass finds out about a side, but for its cursor. -/
@[simp] def PassEq (u v : Track) : Prop :=
  MemoryEq u v ∧ v.pad = u.pad ∧ v.segs = u.segs ∧ v.convex = u.convex ∧ v.inn = u.inn ∧
    (u.stop = false → v.y0 = u.y0 ∧ v.unset = u.unset ∧ v.mSet = u.mSet ∧
      (u.mSet = true → v.m = u.m))

/-- The cursor of a side that is still followed. -/
@[simp] def CursorEq (u v : Track) : Prop := u.stop = false → v.x = u.x

/-- The rows in which the borders begin are rows of the image. -/
@[simp] def OriginEq (u : Track) : Prop := 0 ≤ u.y0 ∧ u.y0 < 120

/-- The variables that a pass starts with. -/
@[simp] def StartEq (s t : State) : Prop :=
  ElementEq s t ∧ t.kw = s.kw ∧ TablesEq s t ∧ MemoryEq s.l t.l ∧ MemoryEq s.r t.r ∧
    t.l.pad = s.l.pad ∧ t.r.pad = s.r.pad

/-- The variables that a row of the normal pass starts with. -/
@[simp] def RowEq (s t : State) : Prop :=
  ElementEq s t ∧ t.kw = s.kw ∧ TablesEq s t ∧ PassEq s.l t.l ∧ PassEq s.r t.r ∧
    CursorEq s.l t.l ∧ CursorEq s.r t.r ∧ t.y = s.y ∧ t.yEnd = s.yEnd ∧
    t.leFailed = s.leFailed ∧ t.dx = s.dx ∧ OriginEq s.l ∧ OriginEq s.r

/-- The variables still to be read at label `p`. -/
@[simp] def Live (a b : State) (p : Pc) (s t : State) : Prop :=
  match p with
  | .entry => KeptEq a b s t
  | .zebra =>
    KeptEq a b s t ∧ ElementEq s t ∧ t.zx = s.zx ∧ t.curr = s.curr ∧
      t.changeCount = s.changeCount
  | .bottom =>
    KeptEq a b s t ∧ ElementEq s t ∧ t.kw = s.kw ∧ TablesEq s t ∧
      MemoryEq s.l t.l ∧ MemoryEq s.r t.r ∧ t.y = s.y ∧ (s.y ≤ 110 → CursorsEq s t)
  | .bottomLeft _ | .bottomRight | .bottomSeek | .bottomTest | .bottomFound =>
    KeptEq a b s t ∧ ElementEq s t ∧ t.kw = s.kw ∧ TablesEq s t ∧
      MemoryEq s.l t.l ∧ MemoryEq s.r t.r ∧ t.y = s.y ∧ CursorsEq s t
  | .edge _ =>
    KeptEq a b s t ∧ StartEq s t ∧ CursorsEq s t ∧ t.y = s.y ∧ t.yEnd = s.yEnd
  | .dispatch => KeptEq a b s t ∧ StartEq s t ∧ CursorsEq s t
  | .normalBound | .loopCancel => StartEq s t ∧ CursorEq s.l t.l ∧ CursorEq s.r t.r
  | .row | .side _ | .normalEnd => RowEq s t
  | .inward d | .outward d | .record d =>
    RowEq s t ∧ (s.track d).stop = false ∧ t.lost = s.lost
  | .exitProbe d => RowEq s t ∧ (s.track d).stop = false
  | .exitColumn d =>
    RowEq s t ∧ (s.track d).stop = false ∧ t.xc = s.xc ∧ t.yc = s.yc ∧ t.upCount = s.upCount
  | .exitDown d | .exitUp d | .exitClimb d =>
    RowEq s t ∧ (s.track d).stop = false ∧ t.xc = s.xc ∧ t.yc = s.yc ∧ t.upCount = s.upCount ∧
      t.dy = s.dy
  | .loop => StartEq s t ∧ CursorEq s.l t.l ∧ CursorEq s.r t.r ∧ DxEq a b s t
  | .loopDrop _ | .loopRise _ =>
    StartEq s t ∧ CursorEq s.l t.l ∧ CursorEq s.r t.r ∧ DxEq a b s t ∧ t.y = s.y ∧
      t.yEnd = s.yEnd
  | .corner d =>
    StartEq s t ∧ CursorEq s.l t.l ∧ CursorEq s.r t.r ∧ DxEq a b s t ∧ t.y = s.y ∧
      t.yEnd = s.yEnd ∧ (t.track d).x = (s.track d).x ∧ t.upCount = s.upCount ∧
      t.upFailedCount = s.upFailedCount ∧
      -- on the left `y0` is not set until a column does not rise
      (d = .left → t.y0 = s.y0 ∨ s.l.x = s.upCount + 2)
  | .cornerUp d =>
    StartEq s t ∧ CursorEq s.l t.l ∧ CursorEq s.r t.r ∧ DxEq a b s t ∧ t.y = s.y ∧
      t.yEnd = s.yEnd ∧ (t.track d).x = (s.track d).x ∧ t.upCount = s.upCount ∧
      t.upFailedCount = s.upFailedCount ∧
      (d = .left → t.y1 = s.y1 ∧ (t.y0 = s.y0 ∨ s.l.x = s.upCount + 1)) ∧
      (d = .right → t.y0 = s.y0)
  | .cornerDown d =>
    StartEq s t ∧ CursorEq s.l t.l ∧ CursorEq s.r t.r ∧ DxEq a b s t ∧ t.y = s.y ∧
      t.yEnd = s.yEnd ∧ (t.track d).x = (s.track d).x ∧ t.upCount = s.upCount ∧
      t.upFailedCount = s.upFailedCount ∧
      (d = .left → t.y1 = s.y1 ∧ (t.y0 = s.y0 ∨ s.l.x = s.upCount + 1))
  | .append _ =>
    t.el = s.el ∧ t.kw = s.kw ∧ TablesEq s t ∧ DxEq a b s t ∧ t.y = s.y ∧ t.yc = s.yc ∧
      t.yStart = s.yStart ∧ t.yEnd = s.yEnd ∧ t.xf = s.xf ∧ t.m = s.m
  | .crossBound => StartEq s t
  | .top => StartEq s t ∧ t.y = s.y
  | .topLeft _ | .topRight | .topSeek | .topTest | .topNext =>
    StartEq s t ∧ t.y = s.y ∧ CursorsEq s t
  | .crossRow | .crossOut _ | .crossIn _ | .crossRecord _ =>
    StartEq s t ∧ t.y = s.y ∧ CursorsEq s t ∧ t.yStart = s.yStart ∧ t.crossTop = s.crossTop ∧
      t.dx = s.dx
  | .crossEnd => StartEq s t ∧ t.y = s.y ∧ CursorsEq s t ∧ t.yStart = s.yStart ∧ t.dx = s.dx
  | .analyze =>
    StartEq s t ∧ CursorEq s.l t.l ∧ CursorEq s.r t.r ∧ t.dx = s.dx ∧ t.yStart = s.yStart ∧
      t.yEnd = s.yEnd ∧
      (s.el ≠ .cross → t.l.segs = s.l.segs ∧ t.r.segs = s.r.segs ∧ t.l.convex = s.l.convex ∧
        t.r.convex = s.r.convex ∧ t.l.inn = s.l.inn ∧ t.r.inn = s.r.inn)
  | .mid =>
    t.el = s.el ∧ t.kw = s.kw ∧ TablesEq s t ∧ DxEq a b s t ∧ t.yStart = s.yStart ∧
      t.yEnd = s.yEnd
  | .midRow => False

/-- Two runs, begun in `a` and in `b`, are at the same label and may not differ. -/
@[mk_iff] structure Same (a b s t : State) : Prop where
  pc : t.pc = s.pc
  elementType : t.elementType = s.elementType
  xm : s.xm = a.xm ∧ t.xm = b.xm
  here : Live a b s.pc s t

/-- What a frame leaves. -/
def SameResult (u v : State) : Prop := v.elementType = u.elementType ∧ v.offset = u.offset

/-! ## Stretches of code -/

variable {mem : Cell → UInt8} {a b s t : State} {d : Side} {Q F : State → State → Prop}

/-- Both runs read the same image. -/
@[simp] theorem pair_px (y x y' x' : ℤ) (k k' : UInt8 → Go) :
    Act.Pair mem Q F (px y x k) (px y' x' k') ↔
      Act.Pair mem Q F (k (mem (y, x))) (k' (mem (y', x'))) := Iff.rfl

/-- The marks are the debug build's, and are not compared. -/
@[simp] theorem pair_setImg (x y x' y' : ℤ) (c c' : UInt8) (k k' : Go) :
    Act.Pair mem Q F (setImg x y c k) (setImg x' y' c' k') ↔ Act.Pair mem Q F k k' := Iff.rfl

/-- The two runs do the same, up to the midline. -/
abbrev Does (mem : Cell → UInt8) (a b : State) (p q : Go) : Prop :=
  Act.Pair mem (Same a b) SameResult p q

/-- A table is the same as itself. -/
theorem TableEq.refl (f : ℤ → ℤ) : TableEq f f := fun _ _ _ => rfl

/-- The same column stored in the same row. -/
theorem TableEq.update {f g : ℤ → ℤ} (h : TableEq f g) (y x : ℤ) :
    TableEq (Function.update f y x) (Function.update g y x) := by
  intro i hi hi'
  by_cases hiy : i = y
  · simp [hiy]
  · simp [hiy, h i hi hi']

/-- The relation at a known label. -/
theorem Same.live (h : Same a b s t) {p : Pc} (hpc : s.pc = p) :
    (t.pc = p ∧ t.elementType = s.elementType ∧ s.xm = a.xm ∧
      t.xm = b.xm) ∧ Live a b p s t :=
  ⟨⟨h.pc.trans hpc, h.elementType, h.xm⟩, hpc ▸ h.here⟩

/-! ## The bottom row -/

/-- The declarations assign all that the bottom stage reads. -/
theorem entry_same (h : Same a b s t) (hpc : s.pc = .entry) :
    Does mem a b (entry s) (entry t) := by
  have hs := h.live hpc
  simp at hs
  simp [entry, locals, initTrack, same_iff, TableEq, hs]
  grind

/-- The zebra scan reads its own column, colour and count. -/
theorem zebra_same (h : Same a b s t) (hpc : s.pc = .zebra) :
    Does mem a b (zebra s) (zebra t) := by
  have hs := h.live hpc
  simp at hs
  by_cases hp : mem (119, s.zx) = s.curr <;>
    simp [zebra, locals, initTrack, same_iff, SameResult, TableEq, hs, hpc, hp] <;> grind

/-- Both cursors are assigned before they are read; at the end of the scan they are the same. -/
theorem bottom_same (h : Same a b s t) (hpc : s.pc = .bottom) :
    Does mem a b (bottom s) (bottom t) := by
  have hs := h.live hpc
  simp at hs
  simp +contextual [bottom, same_iff, hs, hpc]

/-- The left cursor and the row decide what is read and where the scan ends. -/
theorem bottomLeft_same {c : Bool} (h : Same a b s t) (hpc : s.pc = .bottomLeft c) :
    Does mem a b (bottomLeft c s) (bottomLeft c t) := by
  have hs := h.live hpc
  simp at hs
  cases c <;> simp +contextual [bottomLeft, same_iff, hs, hpc]

/-- The right cursor and the row decide what is read and where the scan ends. -/
theorem bottomRight_same (h : Same a b s t) (hpc : s.pc = .bottomRight) :
    Does mem a b (bottomRight s) (bottomRight t) := by
  have hs := h.live hpc
  simp at hs
  simp +contextual [bottomRight, same_iff, hs, hpc]

/-- The two cursors and the row decide what is read and where the scan ends. -/
theorem bottomSeek_same (h : Same a b s t) (hpc : s.pc = .bottomSeek) :
    Does mem a b (bottomSeek s) (bottomSeek t) := by
  have hs := h.live hpc
  simp at hs
  simp +contextual [bottomSeek, same_iff, hs, hpc]

/-- The same cursors are stored in the same row of both tables. -/
theorem bottomTest_same (h : Same a b s t) (hpc : s.pc = .bottomTest) :
    Does mem a b (bottomTest s) (bottomTest t) := by
  have hs := h.live hpc
  simp at hs
  simp +contextual [bottomTest, bottomStore, TableEq.update, same_iff, hs, hpc]

/-- The flags `l_pad` and `r_pad` are taken from the last row of the tables. -/
theorem bottomFound_same (h : Same a b s t) (hpc : s.pc = .bottomFound) :
    Does mem a b (bottomFound s) (bottomFound t) := by
  have hs := h.live hpc
  simp at hs
  have hl : t.l.xs 119 = s.l.xs 119 := hs.2.2.2.2.1.1 119 (by decide) (by decide)
  have hr : t.r.xs 119 = s.r.xs 119 := hs.2.2.2.2.1.2 119 (by decide) (by decide)
  simp +contextual [bottomFound, edgeLeft, edgeRight, same_iff, hs, hl, hr]

/-- The row decides what is read; a border that is road sets the same flags. -/
theorem edge_same (h : Same a b s t) (hpc : s.pc = .edge d) :
    Does mem a b (edge d s) (edge d t) := by
  have hs := h.live hpc
  simp at hs
  cases d <;> simp +contextual [edge, edgeDone, edgeRight, setStop, same_iff, hs, hpc]

/-- The flags of the borders and the element type decide the pass; a call that ends here
keeps the offset. -/
theorem dispatch_same (h : Same a b s t) (hpc : s.pc = .dispatch) :
    Does mem a b (dispatch s) (dispatch t) := by
  have hs := h.live hpc
  simp at hs
  simp +contextual [dispatch, same_iff, SameResult, hs]

/-! ## The normal pass -/

/-- The pass resets what it will read of a side that is still followed. -/
theorem normalBound_same (h : Same a b s t) (hpc : s.pc = .normalBound) :
    Does mem a b (normalBound s) (normalBound t) := by
  have hs := h.live hpc
  simp at hs
  simp +contextual [normalBound, resetTrack, same_iff, hs]

/-- The counts of both sides decide whether the pass goes on. -/
theorem row_same (h : Same a b s t) (hpc : s.pc = .row) : Does mem a b (row s) (row t) := by
  have hs := h.live hpc
  simp at hs
  simp +contextual [row, same_iff, hs]

/-- A side that has stopped is left out in both runs. -/
theorem side_same (h : Same a b s t) (hpc : s.pc = .side d) :
    Does mem a b (side d s) (side d t) := by
  have hs := h.live hpc
  simp at hs
  cases d <;> simp +contextual [side, sideEnd, same_iff, hs]

/-- From here on `lost` is assigned, and the cursor of the side is the same. -/
theorem inward_same (h : Same a b s t) (hpc : s.pc = .inward d) :
    Does mem a b (inward d s) (inward d t) := by
  have hs := h.live hpc
  simp at hs
  cases d <;> simp +contextual [inward, inwardEnd, same_iff, hs, hpc]

/-- The cursor, its count and how often the border has gone out decide where the scan ends. -/
theorem outward_same (h : Same a b s t) (hpc : s.pc = .outward d) :
    Does mem a b (outward d s) (outward d t) := by
  have hs := h.live hpc
  simp at hs
  cases d <;> simp +contextual [outward, inside, same_iff, hs, hpc]

/-! ### The lateral exit -/

/-- Whether the exit is tried is decided by flags that are the same. -/
theorem exitProbe_same (h : Same a b s t) (hpc : s.pc = .exitProbe d) :
    Does mem a b (exitProbe d s) (exitProbe d t) := by
  have hs := h.live hpc
  simp at hs
  cases d <;> simp +contextual [exitProbe, invLost, same_iff, hs]

/-- An append loop starts from the last row of a table and from the corner `(xc, yc)`. -/
theorem appendStart_same (d : Side) (hs : TablesEq s t) (hxc : t.xc = s.xc) (hyc : t.yc = s.yc)
    (hrest : t.elementType = s.elementType ∧ s.xm = a.xm ∧ t.xm = b.xm ∧
      t.el = s.el ∧ t.kw = s.kw ∧ DxEq a b s t ∧ t.yStart = s.yStart ∧ t.yEnd = s.yEnd) :
    Does mem a b (appendStart d s) (appendStart d t) := by
  have hl : t.l.xs 119 = s.l.xs 119 := hs.1 119 (by decide) (by decide)
  have hr : t.r.xs 119 = s.r.xs 119 := hs.2 119 (by decide) (by decide)
  simp at hs hrest
  cases d <;> simp [appendStart, same_iff, hs, hxc, hyc, hrest, hl, hr]

/-- The column decides whether the exit goes on. -/
theorem exitColumn_same (h : Same a b s t) (hpc : s.pc = .exitColumn d) :
    Does mem a b (exitColumn d s) (exitColumn d t) := by
  have hs := h.live hpc
  simp at hs
  refine Act.Pair.ite (by cases d <;> simp [within, hs]) ?_ fun _ => ?_
  · cases d <;> simp +contextual [same_iff, hs]
  · apply appendStart_same <;> simp [hs]

/-- The column, its row and the rows gone down decide what is read and where the way down ends. -/
theorem exitDown_same (h : Same a b s t) (hpc : s.pc = .exitDown d) :
    Does mem a b (exitDown d s) (exitDown d t) := by
  have hs := h.live hpc
  simp at hs
  cases d <;> simp +contextual [exitDown, loopExitLost, invLost, same_iff, hs, hpc]

/-- The climbs counted are the same. -/
theorem exitUp_same (h : Same a b s t) (hpc : s.pc = .exitUp d) :
    Does mem a b (exitUp d s) (exitUp d t) := by
  have hs := h.live hpc
  simp at hs
  cases d <;> simp +contextual [exitUp, exitNext, loopExitLost, invLost, same_iff, hs]

/-- The column, its row and the rows climbed decide what is read and where the climb ends. -/
theorem exitClimb_same (h : Same a b s t) (hpc : s.pc = .exitClimb d) :
    Does mem a b (exitClimb d s) (exitClimb d t) := by
  have hs := h.live hpc
  simp at hs
  cases d <;> simp +contextual [exitClimb, exitNext, loopExitLost, invLost, same_iff, hs, hpc]

/-! ### Recording a row -/

/-- What a row of the normal pass needs to know of a side. -/
@[simp] def TrackEq (u v : Track) : Prop :=
  TableEq u.xs v.xs ∧ PassEq u v ∧ CursorEq u v ∧ OriginEq u

/-- The two runs are in a row of the normal pass. -/
@[simp] def RowSame (a b s t : State) : Prop :=
  (t.elementType = s.elementType ∧ s.xm = a.xm ∧ t.xm = b.xm) ∧ RowEq s t

/-- What the relation says about one side. -/
theorem RowSame.track (h : RowSame a b s t) (d : Side) : TrackEq (s.track d) (t.track d) := by
  simp at h
  cases d <;> simp +contextual [h]

/-- A side may be replaced in both runs by what a row need not tell apart. -/
theorem RowSame.setTrack (h : RowSame a b s t) {u v : Track} (hu : TrackEq u v) :
    RowSame a b (s.setTrack d u) (t.setTrack d v) := by
  simp at h hu
  cases d <;> simp +contextual [h, hu]

/-- The two runs are in the same row. -/
theorem RowSame.y (h : RowSame a b s t) : t.y = s.y := by
  simp at h
  simp [h]

/-- On a side that is still followed nothing that is read differs. -/
theorem TrackEq.going {u v : Track} (h : TrackEq u v) (hstop : u.stop = false) :
    TableEq u.xs v.xs ∧ v.x = u.x ∧ v.cont = u.cont ∧ v.dx = u.dx ∧ v.gCount = u.gCount ∧
      v.ng = u.ng ∧ v.y0 = u.y0 ∧ v.unset = u.unset ∧ v.mSet = u.mSet ∧
      (u.mSet = true → v.m = u.m) ∧ v.stop0 = u.stop0 ∧ v.stop = false ∧
      v.ngCount = u.ngCount ∧ v.pad = u.pad ∧ v.segs = u.segs ∧ v.convex = u.convex ∧
      v.inn = u.inn ∧ 0 ≤ u.y0 ∧ u.y0 < 120 ∧ u.stop = false := by
  simp [hstop] at h
  simp +contextual [h, hstop]

/-- The side is done. -/
theorem sideEnd_same (h : RowSame a b s t) : Does mem a b (sideEnd d s) (sideEnd d t) := by
  simp at h
  cases d <;> simp +contextual [sideEnd, same_iff, h]

/-- A good row begins a segment, in both runs or in neither. -/
theorem good_same (h : RowSame a b s t) (hstop : (s.track d).stop = false) :
    Does mem a b (good d s) (good d t) := by
  have hd := (h.track d).going hstop
  apply sideEnd_same
  by_cases hng : (s.track d).ng
  · simp only [hd, hng, if_true]
    apply h.setTrack
    simp +contextual [-State.track, hd]
  · simpa only [hd, hng, if_false, Bool.false_eq_true] using h

/-- A bad row is counted in both runs. -/
theorem noGood_same (h : RowSame a b s t) (hstop : (s.track d).stop = false) :
    Does mem a b (noGood d s) (noGood d t) := by
  have hd := (h.track d).going hstop
  apply sideEnd_same
  apply h.setTrack
  simp only [hd]
  split <;> simp +contextual [-State.track, hd]

/-- A side reads back as it has been written. -/
theorem track_setTrack (s : State) (d : Side) (u : Track) : (s.setTrack d u).track d = u := by
  cases d <;> rfl

/-- The counts of a side that is still followed take it through the debounce in the same way. -/
theorem debounce_same (h : RowSame a b s t) (hstop : (s.track d).stop = false) :
    Does mem a b (debounce d s) (debounce d t) := by
  have hd := (h.track d).going hstop
  simp only [debounce, hd, h.y, Act.pair_ite]
  refine ⟨fun _ => ⟨fun _ => sideEnd_same ?_, fun _ => good_same ?_ ?_⟩,
    fun _ => ⟨fun _ => ⟨fun _ => good_same ?_ ?_, fun _ => sideEnd_same ?_⟩,
      fun _ => sideEnd_same h⟩⟩
  -- after bad rows near the car: a few good rows are asked for
  · exact h.setTrack (by simp +contextual [-State.track, hd])
  -- after bad rows further off: the first good row counts
  · exact h.setTrack (by simp +contextual [-State.track, hd])
  · rw [track_setTrack]
  -- the last of the good rows asked for
  · exact h.setTrack (by simp +contextual [-State.track, hd])
  · rw [track_setTrack]
  -- there are more to come
  · exact h.setTrack (by simp +contextual [-State.track, hd])

/-- `dx` is assigned. -/
theorem RowSame.setDx (h : RowSame a b s t) (dx : ℤ) :
    RowSame a b { s with dx := dx } { t with dx := dx } := by
  simp at h
  simp +contextual [h]

/-- The element type is assigned. -/
theorem RowSame.setEl (h : RowSame a b s t) (el : ElementType) (p : Bool) :
    RowSame a b { s with el := el, elementType := el, prevElNormal := p }
      { t with el := el, elementType := el, prevElNormal := p } := by
  simp at h
  simp +contextual [h]

/-- A column is stored in the table of a side. -/
theorem RowSame.setXs (h : RowSame a b s t) (y x : ℤ) :
    RowSame a b (s.setXs d y x) (t.setXs d y x) := by
  have hd := h.track d
  apply h.setTrack
  simp only [TrackEq] at hd
  exact ⟨hd.1.update y x, hd.2⟩

/-- The second sign of a loop is seen in both runs or in neither. -/
theorem secondLoop_same (h : RowSame a b s t) :
    RowSame a b (secondLoop d s) (secondLoop d t) := by
  have hconvex : (t.track d).convex = (s.track d).convex := by
    have hd := h.track d
    simp [-State.track] at hd
    simp [-State.track, hd]
  have hel : t.el = s.el := by
    simp at h
    simp [h]
  simp only [secondLoop, hconvex, hel]
  split
  · exact h.setEl _ _
  · exact h

/-- The counts of a row go on from the same counts. -/
theorem TrackEq.countRow {u v : Track} (h : TrackEq u v) (hstop : u.stop = false) (dx : ℤ) :
    TrackEq (countRow dx u) (countRow dx v) := by
  have hd := h.going hstop
  simp only [MtImage.countRow]
  split <;> simp +contextual [hd]

/-- The column of a row, of a side that is still followed. -/
theorem RowSame.xs (h : RowSame a b s t) (d : Side) {i : ℤ} (hi : 0 ≤ i) (hi' : i < 120) :
    (t.track d).xs i = (s.track d).xs i := (h.track d).1 i hi hi'

/-- The second sign of a loop leaves the sides alone. -/
theorem secondLoop_track (d : Side) (s : State) : (secondLoop d s).track d = s.track d := by
  unfold secondLoop
  split
  · cases d <;> rfl
  · rfl

/-- What follows the counts of a row: the end of the pass at a curve, or the debounce. -/
theorem bend_same (h : RowSame a b s t) (hstop : (s.track d).stop = false) (dx : ℤ) :
    Does mem a b
      (if (s.track d).convex ≥ cvConvex ∧ s.prevElNormal then
        .goto { s with pc := .normalEnd, el := curveOf d, elementType := curveOf d }
      else
        debounce d ((secondLoop d s).setTrack d { (secondLoop d s).track d with dx := i8 dx }))
      (if (t.track d).convex ≥ cvConvex ∧ t.prevElNormal then
        .goto { t with pc := .normalEnd, el := curveOf d, elementType := curveOf d }
      else
        debounce d
          ((secondLoop d t).setTrack d { (secondLoop d t).track d with dx := i8 dx })) := by
  have hd := (h.track d).going hstop
  have hprev : t.prevElNormal = s.prevElNormal := by
    simp at h
    simp only [h]
  refine Act.Pair.ite (by simp only [hd, hprev]) (fun _ => ?_) fun _ => debounce_same ?_ ?_
  -- a curve ends the pass
  · simp at h
    simp +contextual [same_iff, h]
  -- otherwise the inward step is remembered for the next row
  · apply (secondLoop_same h).setTrack
    simp +contextual [-State.track, secondLoop_track, hd]
  · rw [track_setTrack, secondLoop_track]
    exact hstop

/-- Counting a row stops no side. -/
theorem countRow_stop (dx : ℤ) (u : Track) : (countRow dx u).stop = u.stop := by
  unfold countRow
  split <;> rfl

/-- The row below has the same column in both tables. -/
theorem convexity_same (h : RowSame a b s t) (hstop : (s.track d).stop = false)
    (hy : 0 ≤ s.y ∧ s.y < 119) : Does mem a b (convexity d s) (convexity d t) := by
  have hd := (h.track d).going hstop
  have hx : (t.track d).x = (s.track d).x := by simp only [hd]
  have hxs := h.xs d (i := s.y + 1) (by omega) (by omega)
  simp only [convexity, h.y, hx, hxs, Act.pair_touch]
  refine bend_same ((h.setTrack ((h.track d).countRow hstop _)).setDx _) ?_ _
  cases d <;> exact (countRow_stop _ _).trans hstop

/-- The guard of the slope. -/
theorem slopeGuard_same (h : RowSame a b s t) (hstop : (s.track d).stop = false) :
    slopeGuard d t ↔ slopeGuard d s := by
  have hd := (h.track d).going hstop
  have hdx : t.dx = s.dx := by
    simp at h
    simp [h]
  simp only [slopeGuard, hd, h.y, hdx]

/-- The slope is taken from the origin of the side; where the guard fails it stays as it was. -/
theorem slope_same {k : State → Go} (h : RowSame a b s t) (hstop : (s.track d).stop = false)
    (hk : ∀ s' t', RowSame a b s' t' → (s'.track d).stop = false → s'.y = s.y →
      Does mem a b (k s') (k t')) : Does mem a b (slope d s k) (slope d t k) := by
  have hd := (h.track d).going hstop
  have hr : t.r.xs (t.track d).y0 = s.r.xs (s.track d).y0 := by
    rw [hd.2.2.2.2.2.2.1]
    exact h.xs .right (by simp [-State.track, hd]) (by simp [-State.track, hd])
  have hx : (t.track d).xs (t.track d).y0 = (s.track d).xs (s.track d).y0 := by
    rw [hd.2.2.2.2.2.2.1]
    exact h.xs d (by simp [-State.track, hd]) (by simp [-State.track, hd])
  refine Act.Pair.ite (slopeGuard_same h hstop) (fun _ => ?_) fun _ => hk _ _ h hstop rfl
  -- the last conjunct of the guard reads the right table, on both sides
  refine Act.Pair.ite (by rw [hd.2.1, hr]) (fun _ => ?_) fun _ => hk _ _ h hstop rfl
  refine hk _ _ (h.setTrack ?_) (by rw [track_setTrack]; exact hstop) (by cases d <;> rfl)
  rw [hx]
  simp +contextual [-State.track, hd, h.y]

/-- The row has a border: the slope, the column and the counts. -/
theorem recordFound_same (h : RowSame a b s t) (hstop : (s.track d).stop = false)
    (hy : 0 ≤ s.y ∧ s.y < 119) : Does mem a b (recordFound d s) (recordFound d t) := by
  refine slope_same h hstop fun s' t' h' hstop' hy' => ?_
  have hd := (h'.track d).going hstop'
  simp only [Act.pair_touch, pair_setImg, h'.y, hd]
  apply convexity_same (h'.setXs _ _)
  · cases d <;> exact hstop'
  · cases d <;> simpa [hy'] using hy

/-- The row is lost: whether the side stops, and what is extrapolated, is read from a side
that is still followed. -/
theorem recordLost_same (h : RowSame a b s t) (hstop : (s.track d).stop = false) :
    Does mem a b (recordLost d s) (recordLost d t) := by
  have hd := (h.track d).going hstop
  have hel : t.el = s.el := by
    simp at h
    simp only [h]
  have hy0 : (t.track d).y0 = (s.track d).y0 := by simp only [hd]
  have hx : (t.track d).xs (t.track d).y0 = (s.track d).xs (s.track d).y0 := by
    rw [hy0]
    exact h.xs d (by simp only [hd]) (by simp only [hd])
  refine Act.Pair.ite (by rw [hel]) (fun _ => sideEnd_same (h.setTrack ?_)) fun _ =>
    Act.Pair.ite (by simp only [hd]) (fun hm => ?_) fun _ => sideEnd_same h
  -- next to a loop the side stops
  · simp [-State.track, hd]
  -- elsewhere the column is extrapolated from the origin and the slope
  · have hslope : (t.track d).m = (s.track d).m := by simp only [hd, hm]
    rw [hy0] at hx
    simp only [Act.pair_touch, pair_setImg, hslope, hx, hy0, h.y]
    apply noGood_same
    · apply RowSame.setXs
      apply h.setTrack
      simp +contextual [-State.track, hd]
    · cases d <;> exact hstop

/-- The first row with a border becomes the origin of the side. -/
def begun (d : Side) (s : State) : State :=
  if (s.track d).unset then s.setTrack d { s.track d with y0 := s.y, unset := false } else s

/-- The origin is all that changes. -/
theorem begun_frame (d : Side) (s : State) :
    (begun d s).y = s.y ∧ ((begun d s).track d).stop = (s.track d).stop ∧
      (begun d s).lost = s.lost := by
  unfold begun
  split
  · cases d <;> exact ⟨rfl, rfl, rfl⟩
  · exact ⟨rfl, rfl, rfl⟩

/-- The origin is the same row in both runs. -/
theorem begun_same (h : RowSame a b s t) (hstop : (s.track d).stop = false)
    (hy : 0 ≤ s.y ∧ s.y < 120) : RowSame a b (begun d s) (begun d t) := by
  have hd := (h.track d).going hstop
  have hunset : (t.track d).unset = (s.track d).unset := by simp only [hd]
  rw [begun, begun, hunset, h.y]
  split
  · apply h.setTrack
    simp +contextual [-State.track, hd, hy]
  · exact h

/-- Whatever the row has been found to be, both runs record it alike. -/
theorem record_same (h : Same a b s t) (hi : Inv s) (hpc : s.pc = .record d) :
    Does mem a b (record d s) (record d t) := by
  have hat := hi.at hpc
  have hs := h.live hpc
  simp only [At] at hat
  obtain ⟨⟨-, het, hxm⟩, hrow, hstop, hlost⟩ := hs
  have hsame : RowSame a b s t := ⟨⟨het, hxm⟩, hrow⟩
  have hd := (hsame.track d).going hstop
  refine Act.Pair.ite (by simp only [hd]) (fun _ => noGood_same (hsame.setTrack ?_) ?_) fun _ => ?_
  -- the border is at the edge of the image
  · simp +contextual [-State.track, hd]
  · rw [track_setTrack]
    exact hstop
  -- there is a border, lost or found
  · obtain ⟨hy, hstop', hlost'⟩ := begun_frame d s
    have hbegun := begun_same hsame hstop ⟨by omega, by omega⟩
    have hgoing := hstop'.trans hstop
    refine Act.Pair.ite ?_ (fun _ => recordLost_same hbegun hgoing) fun _ =>
      recordFound_same hbegun hgoing ?_
    · change (begun d t).lost = true ↔ (begun d s).lost = true
      rw [hlost', (begun_frame d t).2.2, hlost]
    · change 0 ≤ (begun d s).y ∧ (begun d s).y < 119
      omega

/-- The row becomes `y_start`. -/
theorem normalEnd_same (h : Same a b s t) (hpc : s.pc = .normalEnd) :
    Does mem a b (normalEnd s) (normalEnd t) := by
  have hs := h.live hpc
  simp at hs
  simp +contextual [normalEnd, same_iff, hs]

/-! ## The loop pass -/

/-- The normal pass starts anew from what every pass starts with. -/
theorem loopCancel_same (h : Same a b s t) (hpc : s.pc = .loopCancel) :
    Does mem a b (loopCancel s) (loopCancel t) := by
  have hs := h.live hpc
  simp at hs
  simp +contextual [loopCancel, same_iff, hs]

/-- The row and `y_end` are assigned, and the element type decides the side. -/
theorem loop_same (h : Same a b s t) (hpc : s.pc = .loop) : Does mem a b (loop s) (loop t) := by
  have hs := h.live hpc
  simp at hs
  simp +contextual [loop, same_iff, hs]

/-- The row decides what is read. -/
theorem loopDrop_same (h : Same a b s t) (hpc : s.pc = .loopDrop d) :
    Does mem a b (loopDrop d s) (loopDrop d t) := by
  have hs := h.live hpc
  simp at hs
  simp +contextual [loopDrop, same_iff, hs, hpc]

/-- The row decides what is read; at the end the cursor of the side is assigned. -/
theorem loopRise_same (h : Same a b s t) (hpc : s.pc = .loopRise d) :
    Does mem a b (loopRise d s) (loopRise d t) := by
  have hs := h.live hpc
  simp at hs
  cases d <;> simp +contextual [loopRise, u8, same_iff, hs, hpc]

/-- The corner has been found, where `y0` is set or the loop is given up. -/
theorem cornerFound_same (d : Side) (hx : (t.track d).x = (s.track d).x)
    (hframe : t.elementType = s.elementType ∧ s.xm = a.xm ∧ t.xm = b.xm)
    (hstart : StartEq s t ∧ CursorEq s.l t.l ∧ CursorEq s.r t.r) (hdx : DxEq a b s t)
    (hy : t.y = s.y) (hend : t.yEnd = s.yEnd) (hy0 : d = .left → t.y0 = s.y0 ∨ s.l.x < 20) :
    Does mem a b (cornerFound d s) (cornerFound d t) := by
  simp at hstart hdx
  cases d with
  | left =>
    replace hx : t.l.x = s.l.x := hx
    refine Act.Pair.ite (by simp [hx]) (fun _ => ?_) fun hfar => ?_
    · simp +contextual [same_iff, hframe, hstart]
    · have hset : t.y0 = s.y0 := (hy0 rfl).resolve_right hfar
      rw [pair_setImg]
      apply appendStart_same <;> simp [hstart, hx, hset, hframe, hdx, hend]
  | right =>
    replace hx : t.r.x = s.r.x := hx
    refine Act.Pair.ite (by simp [hx]) (fun _ => ?_) fun _ => ?_
    · simp +contextual [same_iff, hframe, hstart]
    · rw [pair_setImg]
      apply appendStart_same <;> simp [hstart, hx, hy, hframe, hdx, hend]

/-- As long as `y0` is not set on the left, each column has been a climb. -/
theorem climb_count (h : Same a b s t) (hi : Inv s) (hpc : s.pc = .corner .left) :
    t.y0 = s.y0 ∨ s.l.x = s.upCount + 2 ∧ u8 (s.upCount + 1) = s.upCount + 1 := by
  have hat := hi.at hpc
  have hs := h.live hpc
  simp at hs hat
  rcases hs.2.2.2.2.2.2.2.2.2.2 with hset | hx
  · exact .inl hset
  · exact .inr ⟨hx, u8_of_range (by omega)⟩

/-- The cursor and the climbs counted decide what is read; `y0` is read where it is set. -/
theorem corner_same (h : Same a b s t) (hi : Inv s) (hpc : s.pc = .corner d) :
    Does mem a b (corner d s) (corner d t) := by
  have hs := h.live hpc
  have hx : (t.track d).x = (s.track d).x := hs.2.2.2.2.2.2.2.1
  simp at hs
  have hy : t.y = s.y := by simp only [hs]
  refine Act.Pair.ite (by rw [hx]) (fun _ => ?_) fun _ => ?_
  -- the last column: the loop is given up
  · simp +contextual [same_iff, hs]
  · rw [pair_px, hy, hx]
    refine Act.Pair.ite Iff.rfl (fun _ => Act.Pair.ite (by simp only [hs]) (fun hcount => ?_)
      fun _ => ?_) fun _ => ?_
    -- three climbs in a row: the corner
    · apply cornerFound_same
      · cases d <;> exact hx
      · simp [hs]
      · simp +contextual [hs]
      · simp [hs]
      · rfl
      · simp [hs]
      · -- `y0` is set, or the corner is too near the border and the loop is given up
        rintro rfl
        have hclimb := climb_count h hi hpc
        simp at hcount ⊢
        omega
    -- a climb
    · cases d with
      | left =>
        have hclimb := climb_count h hi hpc
        simp at hs
        simp +contextual [same_iff, hs]
        omega
      | right =>
        simp at hs
        simp +contextual [same_iff, hs]
    -- no climb: on the left `y0` is set here
    · cases d <;> simp at hs <;> simp +contextual [same_iff, hs]

/-- The climb and its end read what the column has assigned. -/
theorem cornerUp_same (h : Same a b s t) (hpc : s.pc = .cornerUp d) :
    Does mem a b (cornerUp d s) (cornerUp d t) := by
  have hs := h.live hpc
  cases d <;> simp at hs <;> simp +contextual [cornerUp, cornerUpDone, same_iff, hs, hpc]

/-- The way down ends alike, and the next column counts as the one before. -/
theorem cornerDown_same (h : Same a b s t) (hi : Inv s) (hpc : s.pc = .cornerDown d) :
    Does mem a b (cornerDown d s) (cornerDown d t) := by
  have hs := h.live hpc
  have hat := hi.at hpc
  cases d <;> simp at hs hat <;>
    simp +contextual [cornerDown, cornerNext, same_iff, hs, hpc]
  have hnext : u8 (s.l.x + 1) = s.l.x + 1 := u8_of_range (by omega)
  omega

/-- The line that is appended and the row are the same. -/
theorem append_same (h : Same a b s t) (hpc : s.pc = .append d) :
    Does mem a b (append d s) (append d t) := by
  have hs := h.live hpc
  simp at hs
  cases d <;> simp +contextual [append, TableEq.update, same_iff, hs, hpc]

/-! ## The cross pass -/

/-- The row is assigned. -/
theorem crossBound_same (h : Same a b s t) (hpc : s.pc = .crossBound) :
    Does mem a b (crossBound s) (crossBound t) := by
  have hs := h.live hpc
  simp at hs
  simp +contextual [crossBound, same_iff, hs]

/-- Both cursors are assigned before they are read. -/
theorem top_same (h : Same a b s t) (hpc : s.pc = .top) : Does mem a b (top s) (top t) := by
  have hs := h.live hpc
  simp at hs
  simp +contextual [top, same_iff, hs]

/-- The left cursor and the row decide what is read and where the scan ends. -/
theorem topLeft_same {c : Bool} (h : Same a b s t) (hpc : s.pc = .topLeft c) :
    Does mem a b (topLeft c s) (topLeft c t) := by
  have hs := h.live hpc
  simp at hs
  cases c <;> simp +contextual [topLeft, same_iff, hs, hpc]

/-- The right cursor and the row decide what is read and where the scan ends. -/
theorem topRight_same (h : Same a b s t) (hpc : s.pc = .topRight) :
    Does mem a b (topRight s) (topRight t) := by
  have hs := h.live hpc
  simp at hs
  simp +contextual [topRight, same_iff, hs, hpc]

/-- The two cursors and the row decide what is read and where the scan ends. -/
theorem topSeek_same (h : Same a b s t) (hpc : s.pc = .topSeek) :
    Does mem a b (topSeek s) (topSeek t) := by
  have hs := h.live hpc
  simp at hs
  simp +contextual [topSeek, same_iff, hs, hpc]

/-- The width between the cursors decides whether this row is the top. -/
theorem topTest_same (h : Same a b s t) (hpc : s.pc = .topTest) :
    Does mem a b (topTest s) (topTest t) := by
  have hs := h.live hpc
  simp at hs
  simp +contextual [topTest, same_iff, hs]

/-- The row decides whether there is another. -/
theorem topNext_same (h : Same a b s t) (hpc : s.pc = .topNext) :
    Does mem a b (topNext s) (topNext t) := by
  have hs := h.live hpc
  simp at hs
  simp +contextual [topNext, crossExit, same_iff, hs]

/-- The row decides whether the crossing goes on; `dx` is assigned. -/
theorem crossRow_same (h : Same a b s t) (hpc : s.pc = .crossRow) :
    Does mem a b (crossRow s) (crossRow t) := by
  have hs := h.live hpc
  simp at hs
  simp +contextual [crossRow, same_iff, hs]

/-- The cursor of the side and its count decide where the scan ends. -/
theorem crossOut_same (h : Same a b s t) (hpc : s.pc = .crossOut d) :
    Does mem a b (crossOut d s) (crossOut d t) := by
  have hs := h.live hpc
  simp at hs
  cases d <;> simp +contextual [crossOut, crossOutEnd, same_iff, hs, hpc]

/-- The cursor of the side decides what is read. -/
theorem crossIn_same (h : Same a b s t) (hpc : s.pc = .crossIn d) :
    Does mem a b (crossIn d s) (crossIn d t) := by
  have hs := h.live hpc
  simp at hs
  cases d <;> simp +contextual [crossIn, same_iff, hs, hpc]

/-- The same column is stored in the same row; whether the crossing goes on is the same. -/
theorem crossRecord_same (h : Same a b s t) (hpc : s.pc = .crossRecord d) :
    Does mem a b (crossRecord d s) (crossRecord d t) := by
  have hs := h.live hpc
  simp at hs
  cases d <;> simp +contextual [crossRecord, TableEq.update, same_iff, hs]

/-- The slopes taken here are not read again. -/
theorem crossEnd_same (h : Same a b s t) (hi : Inv s) (hpc : s.pc = .crossEnd) :
    Does mem a b (crossEnd s) (crossEnd t) := by
  have hat := hi.at hpc
  have hs := h.live hpc
  simp at hs hat
  simp +contextual [crossEnd, crossExit, crossSlope, same_iff, hs, hat]

/-! ## Element types -/

/-- The cross pass has counted no segments. -/
theorem analyze_cross {enableLoop : Bool} (h : s.el = .cross) :
    analyze enableLoop s = .goto { s with pc := .mid } := by
  have hcross : ¬ ElementType.cross ≤ .normal := by decide
  simp [analyze, h, hcross]

/-- The element type is decided on the counts of both sides, which only a crossing leaves
unset. -/
theorem analyze_same {enableLoop : Bool} (h : Same a b s t) (hpc : s.pc = .analyze) :
    Does mem a b (analyze enableLoop s) (analyze enableLoop t) := by
  have hs := h.live hpc
  simp at hs
  by_cases hel : s.el = .cross
  -- after a crossing the counts are not read
  · have hel' : t.el = .cross := by rw [hs.2.1.1.1, hel]
    rw [analyze_cross hel, analyze_cross hel']
    simp [same_iff, hs]
  · obtain ⟨hls, hrs, hlc, hrc, hli, hri⟩ := hs.2.2.2.2.2.2.2 hel
    have hel' : t.el = s.el := hs.2.1.1.1
    -- each branch is one of two jumps, to the midline or to another pass
    have hmid : ∀ el elementType, Does mem a b
        (.goto { s with pc := .mid, el := el, elementType := elementType })
        (.goto { t with pc := .mid, el := el, elementType := elementType }) := by
      intro el elementType
      simp [same_iff, hs]
    have hpass : ∀ pc el, pc = .loop ∨ pc = .crossBound → Does mem a b
        (.goto { s with pc := pc, el := el, elementType := el })
        (.goto { t with pc := pc, el := el, elementType := el }) := by
      rintro pc el (rfl | rfl) <;> simp +contextual [same_iff, hs]
    obtain ⟨hl0, hr0, hlp, hrp⟩ : t.l.stop0 = s.l.stop0 ∧ t.r.stop0 = s.r.stop0 ∧
        t.l.pad = s.l.pad ∧ t.r.pad = s.r.pad := by
      simp only [hs, and_self]
    have hkeep := hmid s.el s.elementType
    have hnormal := hmid s.el .normal
    -- a loop on the left, one on the right, the five branches of a type up to `Normal`,
    -- and a crossing that is over or goes on
    simp only [analyze, h.elementType, hel', hls, hrs, hlc, hrc, hli, hri, hl0, hr0, hlp, hrp,
      Act.pair_ite]
    exact ⟨fun _ => hpass _ _ (.inl rfl), fun _ => ⟨fun _ => hpass _ _ (.inl rfl), fun _ =>
      ⟨fun _ => ⟨fun _ => hmid _ _, fun _ => ⟨fun _ => hmid _ _, fun _ => ⟨fun _ => hmid _ _,
        fun _ => ⟨fun _ => hnormal, fun _ => hkeep⟩⟩⟩⟩,
        fun _ => ⟨fun _ => hpass _ _ (.inr rfl), fun _ => hkeep⟩⟩⟩⟩

/-- Each stretch of code up to the midline does the same in both runs. -/
theorem step_same {enableLoop : Bool} (h : Same a b s t) (hi : Inv s) (hmid : s.pc ≠ .mid) :
    Does mem a b (code enableLoop s) (code enableLoop t) := by
  unfold code
  rw [h.pc]
  cases hpc : s.pc with
  -- the bottom row
  | entry => exact entry_same h hpc
  | zebra => exact zebra_same h hpc
  | bottom => exact bottom_same h hpc
  | bottomLeft c => exact bottomLeft_same h hpc
  | bottomRight => exact bottomRight_same h hpc
  | bottomSeek => exact bottomSeek_same h hpc
  | bottomTest => exact bottomTest_same h hpc
  | bottomFound => exact bottomFound_same h hpc
  | edge d => exact edge_same h hpc
  | dispatch => exact dispatch_same h hpc
  -- the normal pass
  | normalBound => exact normalBound_same h hpc
  | row => exact row_same h hpc
  | side d => exact side_same h hpc
  | inward d => exact inward_same h hpc
  | outward d => exact outward_same h hpc
  | exitProbe d => exact exitProbe_same h hpc
  | exitColumn d => exact exitColumn_same h hpc
  | exitDown d => exact exitDown_same h hpc
  | exitUp d => exact exitUp_same h hpc
  | exitClimb d => exact exitClimb_same h hpc
  | record d => exact record_same h hi hpc
  | normalEnd => exact normalEnd_same h hpc
  -- the loop pass
  | loop => exact loop_same h hpc
  | loopDrop d => exact loopDrop_same h hpc
  | loopRise d => exact loopRise_same h hpc
  | corner d => exact corner_same h hi hpc
  | cornerUp d => exact cornerUp_same h hpc
  | cornerDown d => exact cornerDown_same h hi hpc
  | append d => exact append_same h hpc
  | loopCancel => exact loopCancel_same h hpc
  -- the cross pass
  | crossBound => exact crossBound_same h hpc
  | top => exact top_same h hpc
  | topLeft c => exact topLeft_same h hpc
  | topRight => exact topRight_same h hpc
  | topSeek => exact topSeek_same h hpc
  | topTest => exact topTest_same h hpc
  | topNext => exact topNext_same h hpc
  | crossRow => exact crossRow_same h hpc
  | crossOut d => exact crossOut_same h hpc
  | crossIn d => exact crossIn_same h hpc
  | crossRecord d => exact crossRecord_same h hpc
  | crossEnd => exact crossEnd_same h hi hpc
  -- the element type; the midline is a case of its own
  | analyze => exact analyze_same h hpc
  | mid => exact absurd hpc hmid
  | midRow =>
    have hs := h.here
    rw [hpc] at hs
    exact hs.elim

end SmartCar.MtImage

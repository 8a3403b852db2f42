import SmartCar.MtImage.Midline
import SmartCar.Lib.Scan
import Mathlib.Data.Prod.Lex

/-!
# mt_image: when the track search ends

Three loops of `search` have no limit of their own that is always met: the
columns of a crossing, the way down at a loop's corner, and the rows of the
midline. `Hung` says when each of them runs for ever; everything else comes to
an end.

* `rank` falls at every jump of a state that is not hung (`step_rank`);
* a hung state never leaves its loop (`hung_stays`).
-/

namespace SmartCar.MtImage

open CInt

/-! ## Hanging -/

/-- The loop that the state is in never ends: a row or a column holds no road at
all, or the rows count down to 0. -/
def Hung (mem : Cell → UInt8) (s : State) : Prop :=
  match s.pc with
  | .crossIn _ => ∀ i : Fin 256, mem (s.y, i) = EMPTY
  | .cornerDown .left => s.y1 < 3 ∧ ∀ i : Fin 256, mem (i, s.l.x) = EMPTY
  | .midRow => s.yStart = 0
  | _ => False

/-- The three loops one by one, as a condition that can be evaluated. -/
theorem hung_iff {mem : Cell → UInt8} {s : State} :
    Hung mem s ↔
      ((s.pc = .crossIn .left ∨ s.pc = .crossIn .right) ∧
        ∀ i : Fin 256, mem (s.y, i) = EMPTY) ∨
      (s.pc = .cornerDown .left ∧ s.y1 < 3 ∧ ∀ i : Fin 256, mem (i, s.l.x) = EMPTY) ∨
      (s.pc = .midRow ∧ s.yStart = 0) := by
  unfold Hung
  split
  -- the inward scan of a crossing
  · rename_i d hpc
    cases d <;> simp [hpc]
  -- the way down at a corner on the left
  · rename_i hpc
    simp [hpc]
  -- the midline
  · rename_i hpc
    simp [hpc]
  -- no other label hangs
  · rename_i hcross hcorner hmid
    refine iff_of_false not_false ?_
    rintro (⟨h | h, -⟩ | ⟨h, -⟩ | ⟨h, -⟩)
    · exact hcross _ h
    · exact hcross _ h
    · exact hcorner h
    · exact hmid h

instance (mem : Cell → UInt8) (s : State) : Decidable (Hung mem s) :=
  decidable_of_iff _ hung_iff.symm

/-! ## The rank -/

/-- Pass, row or column, stage, and steps within the stage. -/
abbrev Rank := ℕ ×ₗ ℕ ×ₗ ℕ ×ₗ ℕ

/-- A rank from its four components. -/
def lex (a b c d : ℕ) : Rank := toLex (a, toLex (b, toLex (c, d)))

/-- The first component that differs decides. -/
@[simp] theorem lex_lt {a b c d a' b' c' d' : ℕ} :
    lex a b c d < lex a' b' c' d' ↔
      a < a' ∨ a = a' ∧ (b < b' ∨ b = b' ∧ (c < c' ∨ c = c' ∧ d < d')) := by
  simp [lex, Prod.Lex.toLex_lt_toLex]

/-- Whether another pass may follow the normal pass. -/
def normalPass (el : ElementType) : ℕ := if el ≤ .normal then 2 else 5

/-- Whether another pass may follow the analysis. -/
def analyzePass (el : ElementType) : ℕ := if el ≤ .normal ∨ el = .cross then 1 else 4

/-- The row of the normal pass, the left side of a row before the right one. -/
def rowRank (d : Side) (y : ℤ) : ℕ :=
  match d with
  | .left => 4 * y.toNat + 2
  | .right => 4 * y.toNat + 1

/-- The columns left before side `d` has crossed the whole image. -/
def columnsLeft (d : Side) (x : ℤ) : ℕ :=
  match d with
  | .left => (256 - x).toNat
  | .right => x.toNat

/-- The side of a row of the cross pass. -/
def crossStage : Side → ℕ
  | .left => 4
  | .right => 1

/-- The rows before the scan down from a corner meets road, or is given up. -/
noncomputable def downLeft (mem : Cell → UInt8) (s : State) : ℕ :=
  if 3 ≤ s.y1 then ((s.y1 - 3 - s.y) % 256).toNat
  else Scan.distance 256 (fun i => mem (i, s.l.x) ≠ EMPTY) 1 s.y

/-- The rank of a state, label by label. -/
noncomputable def rank (mem : Cell → UInt8) (s : State) : Rank :=
  match s.pc with
  | .entry => lex 6 1001 0 0
  | .zebra => lex 6 1000 0 (200 - s.zx).toNat
  | .bottom => lex 6 (6 + s.y.toNat) 4 0
  | .bottomSeek => lex 6 (6 + s.y.toNat) 3 s.l.x.toNat
  | .bottomLeft _ => lex 6 (6 + s.y.toNat) 2 s.l.x.toNat
  | .bottomRight => lex 6 (6 + s.y.toNat) 1 (256 - s.r.x).toNat
  | .bottomTest => lex 6 (6 + s.y.toNat) 0 0
  | .bottomFound => lex 6 5 0 0
  | .edge .left => lex 6 4 0 s.y.toNat
  | .edge .right => lex 6 3 0 s.y.toNat
  | .dispatch => lex 6 2 0 0
  | .normalBound => lex (normalPass s.el) 1000 0 0
  | .row => lex (normalPass s.el) (4 * s.y.toNat + 3) 0 0
  | .side d => lex (normalPass s.el) (rowRank d s.y) 2007 0
  | .inward d => lex (normalPass s.el) (rowRank d s.y) 2006 (5 - d.sgn * s.dx).toNat
  | .outward d => lex (normalPass s.el) (rowRank d s.y) 2005 (columnsLeft d (256 - (s.track d).x))
  | .exitProbe d => lex (normalPass s.el) (rowRank d s.y) 2004 0
  | .exitColumn d => lex (normalPass s.el) (rowRank d s.y) (4 * columnsLeft d s.xc + 4) 0
  | .exitDown d =>
    lex (normalPass s.el) (rowRank d s.y) (4 * columnsLeft d s.xc + 3) (3 - s.dy).toNat
  | .exitUp d => lex (normalPass s.el) (rowRank d s.y) (4 * columnsLeft d s.xc + 2) 0
  | .exitClimb d =>
    lex (normalPass s.el) (rowRank d s.y) (4 * columnsLeft d s.xc + 1) (3 - s.dy).toNat
  | .record d => lex (normalPass s.el) (rowRank d s.y) 0 0
  | .normalEnd => lex (normalPass s.el) 0 0 0
  | .loop => lex 3 1000 0 0
  | .loopDrop _ => lex 3 900 0 s.y.toNat
  | .loopRise _ => lex 3 800 0 s.y.toNat
  | .corner d => lex 3 (1 + columnsLeft d (s.track d).x) 2 0
  | .cornerUp d => lex 3 (1 + columnsLeft d (s.track d).x) 1 ((s.y - 30) % 256).toNat
  | .cornerDown .left => lex 3 (1 + columnsLeft .left s.l.x) 0 (downLeft mem s)
  | .cornerDown .right => lex 3 (1 + columnsLeft .right s.r.x) 0 (119 - s.y).toNat
  | .loopCancel => lex 3 0 0 0
  | .crossBound => lex 3 1000 0 0
  | .top => lex 3 (300 - s.y).toNat 5 0
  | .topSeek => lex 3 (300 - s.y).toNat 4 s.l.x.toNat
  | .topLeft _ => lex 3 (300 - s.y).toNat 3 s.l.x.toNat
  | .topRight => lex 3 (300 - s.y).toNat 2 (256 - s.r.x).toNat
  | .topTest => lex 3 (300 - s.y).toNat 1 0
  | .topNext => lex 3 (300 - s.y).toNat 0 0
  | .crossRow => lex 3 (1 + (119 - s.y).toNat) 8 0
  | .crossOut d => lex 3 (1 + (119 - s.y).toNat) (crossStage d + 2) (5 - s.dx).toNat
  | .crossIn d =>
    lex 3 (1 + (119 - s.y).toNat) (crossStage d + 1)
      (Scan.distance 256 (fun i => mem (s.y, i) ≠ EMPTY) d.sgn (s.track d).x)
  | .crossRecord d => lex 3 (1 + (119 - s.y).toNat) (crossStage d) 0
  | .crossEnd => lex 3 0 0 0
  | .analyze => lex (analyzePass s.el) 0 0 0
  | .append _ => lex 0 3 0 s.y.toNat
  | .mid => lex 0 2 0 0
  | .midRow => lex 0 1 0 s.y.toNat

variable {mem : Cell → UInt8} {s : State} {d : Side}

/-- The rank falls from `s` to `t`. -/
def Falls (mem : Cell → UInt8) (s t : State) : Prop := rank mem t < rank mem s

/-! ## The first rows -/

/-- Nothing comes before the declarations. -/
theorem entry_rank (hpc : s.pc = .entry) : Leads mem (Falls mem s) (entry s) := by
  simp [entry, locals, Falls, rank, hpc]

/-- The columns to the right of the zebra scan become fewer. -/
theorem zebra_rank (h : Inv s) (hpc : s.pc = .zebra) : Leads mem (Falls mem s) (zebra s) := by
  have hat := h.at hpc
  by_cases hp : mem (119, s.zx) = s.curr <;>
    simp [zebra, locals, Falls, rank, hp, hpc] at hat ⊢ <;>
    grind [u8]

/-- In its row, the middle column is looked at first. -/
theorem bottom_rank (hpc : s.pc = .bottom) : Leads mem (Falls mem s) (bottom s) := by
  simp [bottom, Falls, rank, hpc]
  omega

/-- The left cursor comes nearer to the border, or the left side is done. -/
theorem bottomLeft_rank {b : Bool} (h : Inv s) (hpc : s.pc = .bottomLeft b) :
    Leads mem (Falls mem s) (bottomLeft b s) := by
  have hat := h.at hpc
  cases b <;> simp [bottomLeft, Falls, rank, hpc] at hat ⊢ <;> grind [u8]

/-- The right cursor comes nearer to the border, or the row is done. -/
theorem bottomRight_rank (h : Inv s) (hpc : s.pc = .bottomRight) :
    Leads mem (Falls mem s) (bottomRight s) := by
  have hat := h.at hpc
  simp [bottomRight, Falls, rank, hpc] at hat ⊢
  grind [u8]

/-- The left cursor goes left with every turn; where road is found, a later stage follows. -/
theorem bottomSeek_rank (h : Inv s) (hpc : s.pc = .bottomSeek) :
    Leads mem (Falls mem s) (bottomSeek s) := by
  have hat := h.at hpc
  simp [bottomSeek, Falls, rank, hpc] at hat ⊢
  grind [u8]

/-- The next row of the bottom scan is the one above. -/
theorem bottomTest_rank (h : Inv s) (hpc : s.pc = .bottomTest) :
    Leads mem (Falls mem s) (bottomTest s) := by
  have hat := h.at hpc
  simp [bottomTest, bottomStore, Falls, rank, hpc] at hat ⊢
  grind [u8]

/-- The borders come after the bottom row, the left one first. -/
theorem bottomFound_rank (hpc : s.pc = .bottomFound) :
    Leads mem (Falls mem s) (bottomFound s) := by
  simp [bottomFound, edgeLeft, edgeRight, Falls, rank, hpc]

/-- The scan of a border goes up row by row. -/
theorem edge_rank (h : Inv s) (hpc : s.pc = .edge d) : Leads mem (Falls mem s) (edge d s) := by
  have hat := h.at hpc
  cases d <;>
    simp [edge, edgeDone, edgeRight, setStop, Falls, rank, hpc] at hat ⊢ <;>
    grind [u8]

/-- Every pass ranks below the bottom stage. -/
theorem dispatch_rank (hpc : s.pc = .dispatch) : Leads mem (Falls mem s) (dispatch s) := by
  simp [dispatch, Falls, rank, hpc, normalPass]
  grind

/-! ## The normal pass -/

/-- No further pass follows a normal pass with the element type `Normal`. -/
theorem normalPass_normal : normalPass .normal = 2 := by decide

/-- A normal pass that keeps to the types up to `Normal` does not gain a pass. -/
theorem normalPass_mono {el el' : ElementType} (h : el ≤ .normal → el' ≤ .normal) :
    normalPass el' ≤ normalPass el := by
  unfold normalPass
  split_ifs with h' hel hel
  · omega
  · omega
  · exact absurd (h hel) h'
  · omega

/-- The rows come after the start of the pass. -/
theorem normalBound_rank (hpc : s.pc = .normalBound) :
    Leads mem (Falls mem s) (normalBound s) := by
  simp [normalBound, Falls, rank, hpc, u8]

/-- In its row, the left side comes first. -/
theorem row_rank (hpc : s.pc = .row) : Leads mem (Falls mem s) (row s) := by
  simp [row, Falls, rank, hpc, rowRank]

/-- The right side comes after the left one, the next row after the right one. -/
theorem side_rank (h : Inv s) (hpc : s.pc = .side d) : Leads mem (Falls mem s) (side d s) := by
  have hat := h.at hpc
  simp only [side, Act.sat_ite]
  cases d <;> simp [sideEnd, Falls, rank, hpc, rowRank] at hat ⊢
  grind [u8]

/-- The columns left until the scan is given up become fewer. -/
theorem inward_rank (h : Inv s) (hpc : s.pc = .inward d) :
    Leads mem (Falls mem s) (inward d s) := by
  have hat := h.at hpc
  simp only [inward, inwardEnd, sat_px, Act.sat_ite]
  cases d <;> simp [Falls, rank, hpc, rowRank] at hat ⊢ <;> grind [i16]

/-- The cursor comes nearer to its border. -/
theorem outward_rank (h : Inv s) (hpc : s.pc = .outward d) :
    Leads mem (Falls mem s) (outward d s) := by
  have hl := h.ranges.lx
  have hr := h.ranges.rx
  cases d <;> simp [outward, inside, Falls, rank, hpc, rowRank, columnsLeft] <;> grind [u8, Byte]

/-- The columns of a lateral exit come after its first pixel. -/
theorem exitProbe_rank (h : Inv s) (hpc : s.pc = .exitProbe d) :
    Leads mem (Falls mem s) (exitProbe d s) := by
  have hl := h.ranges.lx
  have hr := h.ranges.rx
  cases d <;> simp [exitProbe, invLost, Falls, rank, hpc, rowRank, columnsLeft] <;> grind [Byte]

/-- The append loop, and with it the end of the search, comes after the last column. -/
theorem exitColumn_rank (hpc : s.pc = .exitColumn d) :
    Leads mem (Falls mem s) (exitColumn d s) := by
  have hpass : 0 < normalPass s.el := by
    unfold normalPass
    split <;> omega
  simp [exitColumn, appendStart, Falls, rank, hpc, hpass]

/-- The rows left on the way down become fewer. -/
theorem exitDown_rank (h : Inv s) (hpc : s.pc = .exitDown d) :
    Leads mem (Falls mem s) (exitDown d s) := by
  have hat := h.at hpc
  simp [exitDown, loopExitLost, invLost, Falls, rank, hpc] at hat ⊢
  grind [u8]

/-- The column is climbed, or the next one is further from where the exit began. -/
theorem exitUp_rank (h : Inv s) (hpc : s.pc = .exitUp d) :
    Leads mem (Falls mem s) (exitUp d s) := by
  have hat := h.at hpc
  have hxc := h.ranges.xc
  cases d <;>
    simp [exitUp, exitNext, loopExitLost, invLost, Falls, rank, hpc, within, columnsLeft]
      at hat ⊢ <;>
    grind [u8, Byte]

/-- The rows left of the climb become fewer, or the next column follows. -/
theorem exitClimb_rank (h : Inv s) (hpc : s.pc = .exitClimb d) :
    Leads mem (Falls mem s) (exitClimb d s) := by
  have hat := h.at hpc
  have hxc := h.ranges.xc
  cases d <;>
    simp [exitClimb, exitNext, loopExitLost, invLost, Falls, rank, hpc, within, columnsLeft]
      at hat ⊢ <;>
    grind [u8, Byte]

/-- A row that has been recorded is followed by the other side, by the row above or by the
end of the pass, and its element type does not gain a pass. -/
theorem record_rank (h : Inv s) (hpc : s.pc = .record d) :
    Leads mem (Falls mem s) (record d s) := by
  have hat := h.at hpc
  refine (record_sat fun _ _ => ⟨trivial, trivial⟩).mono fun t ⟨u, hu, ht⟩ => ?_
  have hpass := normalPass_mono hu.el
  rcases hu.frame with ⟨track, dx, el, elementType, prevElNormal, rfl⟩
  cases d <;> rcases ht with rfl | rfl <;>
    simp [afterSide, Falls, rank, hpc, rowRank] at hat hpass ⊢ <;>
    grind [u8]

/-- The analysis ranks below the normal pass that it follows. -/
theorem normalEnd_rank (hpc : s.pc = .normalEnd) : Leads mem (Falls mem s) (normalEnd s) := by
  simp [normalEnd, Falls, rank, hpc, normalPass, analyzePass]
  grind

/-! ## The loop pass -/

/-- The scan of the border comes after the start of the pass. -/
theorem loop_rank (hpc : s.pc = .loop) : Leads mem (Falls mem s) (loop s) := by
  simp [loop, Falls, rank, hpc]

/-- The scan of the border goes up. -/
theorem loopDrop_rank (h : Inv s) (hpc : s.pc = .loopDrop d) :
    Leads mem (Falls mem s) (loopDrop d s) := by
  have hat := h.at hpc
  simp [loopDrop, Falls, rank, hpc] at hat ⊢
  grind [u8]

/-- The scan of the border goes on upwards; after it come the columns of the corner. -/
theorem loopRise_rank (h : Inv s) (hpc : s.pc = .loopRise d) :
    Leads mem (Falls mem s) (loopRise d s) := by
  have hat := h.at hpc
  cases d <;> simp [loopRise, Falls, rank, hpc, columnsLeft, u8] at hat ⊢ <;> grind

/-- A column is climbed or gone down; a corner, or the last column, ends the pass. -/
theorem corner_rank (h : Inv s) (hpc : s.pc = .corner d) :
    Leads mem (Falls mem s) (corner d s) := by
  have hat := h.at hpc
  cases d <;>
    simp [corner, cornerLimit, cornerFound, appendStart, Falls, rank, hpc, columnsLeft]

/-- The climb comes nearer to row 30, also where it has begun above it and wraps round. -/
theorem cornerUp_rank (h : Inv s) (hpc : s.pc = .cornerUp d) :
    Leads mem (Falls mem s) (cornerUp d s) := by
  have hy := h.ranges.y
  cases d <;>
    simp [cornerUp, cornerUpDone, Falls, rank, hpc, columnsLeft] <;>
    grind [u8, Byte]

/-- The next column is one further from the border. -/
theorem cornerNext_rank (h : Inv s) (hpc : s.pc = .cornerDown d) (y : ℤ) :
    Leads mem (Falls mem s) (cornerNext d { s with y := y }) := by
  have hat := h.at hpc
  cases d <;> simp [cornerNext, Falls, rank, hpc, columnsLeft] at hat ⊢ <;> grind [u8]

/-- While the scan goes down on the left, it comes nearer to the row at which it is
given up, or to road. -/
theorem downLeft_lt (h : Inv s) (hempty : mem (s.y, s.l.x) = EMPTY) (hy : s.y ≠ s.y1 - 3)
    (hlive : ¬ (s.y1 < 3 ∧ ∀ i : Fin 256, mem (i, s.l.x) = EMPTY)) :
    downLeft mem { s with y := u8 (s.y + 1) } < downLeft mem s := by
  rcases h.ranges.y with ⟨hy0, hy255⟩
  rcases h.ranges.y1 with ⟨hy10, hy1255⟩
  dsimp only [downLeft, u8]
  split_ifs with hy1
  -- the row at which the scan is given up is ahead
  · omega
  -- it is not: then there is road in the column, and the scan comes to it
  · have hroad : ∃ i : Fin 256, mem (i, s.l.x) ≠ EMPTY := by
      by_contra hnone
      push Not at hnone
      exact hlive ⟨by omega, hnone⟩
    rcases hroad with ⟨i, hi⟩
    rcases Scan.exists_reach (m := 256) (d := 1) (by decide) (by decide) s.y
      (i := i) (by omega) (by omega) with ⟨n, hn⟩
    refine Scan.distance_lt ?_ ⟨n, by rw [hn]; exact hi⟩
    rw [Int.emod_eq_of_lt hy0 hy255]
    exact fun hne => hne hempty

/-- On the left the way down ends by `downLeft_lt`, on the right at the last row. -/
theorem cornerDown_rank (h : Inv s) (hpc : s.pc = .cornerDown d) (hlive : ¬ Hung mem s) :
    Leads mem (Falls mem s) (cornerDown d s) := by
  have hnext : ∀ y, Leads mem (Falls mem s) (cornerNext d { s with y := y }) :=
    cornerNext_rank h hpc
  simp only [cornerDown, sat_px]
  cases d with
  | right =>
    -- one row further down, or the next column
    simp only [Act.sat_ite]
    refine ⟨trivial, fun hc => ?_, fun _ => hnext s.y⟩
    simp [Falls, rank, hpc, u8] at hc ⊢
    omega
  | left =>
    -- given up, one row further down, or the next column
    simp only [Act.sat_ite]
    refine ⟨trivial, fun hempty => ⟨fun _ => hnext s.y1, fun hne => ?_⟩, fun _ => hnext s.y⟩
    simp only [Hung, hpc] at hlive
    have hlt := downLeft_lt h hempty hne hlive
    simpa [Falls, rank, hpc] using hlt

/-- The rows to append become fewer. -/
theorem append_rank (h : Inv s) (hpc : s.pc = .append d) :
    Leads mem (Falls mem s) (append d s) := by
  have hyc := h.ranges.yc
  have hy := h.ranges.y
  cases d <;> simp [append, Falls, rank, hpc] <;> grind [u8, Byte]

/-- The normal pass that follows is the last pass: its element type is `Normal`. -/
theorem loopCancel_rank (hpc : s.pc = .loopCancel) : Leads mem (Falls mem s) (loopCancel s) := by
  simp [loopCancel, Falls, rank, hpc, normalPass_normal]

/-! ## The cross pass -/

/-- The rows of the top come after the start of the pass. -/
theorem crossBound_rank (hpc : s.pc = .crossBound) : Leads mem (Falls mem s) (crossBound s) := by
  simp [crossBound, Falls, rank, hpc]

/-- In its row, the middle column is looked at first. -/
theorem top_rank (hpc : s.pc = .top) : Leads mem (Falls mem s) (top s) := by
  simp [top, Falls, rank, hpc]

/-- The left cursor comes nearer to its limit, or the left side is done. -/
theorem topLeft_rank {b : Bool} (h : Inv s) (hpc : s.pc = .topLeft b) :
    Leads mem (Falls mem s) (topLeft b s) := by
  have hat := h.at hpc
  cases b <;> simp [topLeft, Falls, rank, hpc] at hat ⊢ <;> grind [u8]

/-- The right cursor comes nearer to its limit, or the row is done. -/
theorem topRight_rank (h : Inv s) (hpc : s.pc = .topRight) :
    Leads mem (Falls mem s) (topRight s) := by
  have hat := h.at hpc
  simp [topRight, Falls, rank, hpc] at hat ⊢
  grind [u8]

/-- The left cursor goes left with every turn; where road is found, a later stage follows. -/
theorem topSeek_rank (h : Inv s) (hpc : s.pc = .topSeek) :
    Leads mem (Falls mem s) (topSeek s) := by
  have hat := h.at hpc
  simp [topSeek, Falls, rank, hpc] at hat ⊢
  grind [u8]

/-- The rows of the crossing come after its top. -/
theorem topTest_rank (h : Inv s) (hpc : s.pc = .topTest) :
    Leads mem (Falls mem s) (topTest s) := by
  have hat := h.at hpc
  simp [topTest, Falls, rank, hpc] at hat ⊢
  grind [u8]

/-- The next row of the top is three further down; past row 80 the normal pass is the last. -/
theorem topNext_rank (h : Inv s) (hpc : s.pc = .topNext) :
    Leads mem (Falls mem s) (topNext s) := by
  have hat := h.at hpc
  simp [topNext, crossExit, Falls, rank, hpc, normalPass_normal] at hat ⊢
  grind [u8]

/-- In its row, the left side comes first. -/
theorem crossRow_rank (hpc : s.pc = .crossRow) : Leads mem (Falls mem s) (crossRow s) := by
  simp [crossRow, Falls, rank, hpc, crossStage]

/-- The columns left until the scan is given up become fewer. -/
theorem crossOut_rank (h : Inv s) (hpc : s.pc = .crossOut d) :
    Leads mem (Falls mem s) (crossOut d s) := by
  have hat := h.at hpc
  simp only [crossOut, crossOutEnd, sat_px, Act.sat_ite]
  cases d <;> simp [Falls, rank, hpc, crossStage] at hat ⊢ <;> grind [i16]

/-- In a row with road the scan comes nearer to it. -/
theorem crossIn_rank (h : Inv s) (hpc : s.pc = .crossIn d) (hlive : ¬ Hung mem s) :
    Leads mem (Falls mem s) (crossIn d s) := by
  have hx : (s.track d).x % 256 = (s.track d).x := by
    have hl := h.ranges.lx
    have hr := h.ranges.rx
    cases d
    · exact Int.emod_eq_of_lt hl.1 hl.2
    · exact Int.emod_eq_of_lt hr.1 hr.2
  simp only [Hung, hpc, not_forall] at hlive
  rcases hlive with ⟨i, hi⟩
  rcases Scan.exists_reach (m := 256) (d := d.sgn) (by decide) (by cases d <;> decide)
    (s.track d).x (i := i) (by omega) (by omega) with ⟨n, hn⟩
  simp only [crossIn, sat_px, Act.sat_ite]
  refine ⟨trivial, fun hempty => ?_, fun _ => ?_⟩
  -- a gap: the scan goes on, one column nearer to the road
  · have hlt : Scan.distance 256 (fun i => mem (s.y, i) ≠ EMPTY) d.sgn
          (((s.track d).x + d.sgn) % 256)
        < Scan.distance 256 (fun i => mem (s.y, i) ≠ EMPTY) d.sgn (s.track d).x :=
      Scan.distance_lt (by rw [hx]; exact fun hne => hne hempty) ⟨n, by rw [hn]; exact hi⟩
    cases d <;> simpa [Falls, rank, hpc, u8] using hlt
  · simp [Falls, rank, hpc]

/-- The right side comes after the left one, the row below after the right one. -/
theorem crossRecord_rank (h : Inv s) (hpc : s.pc = .crossRecord d) :
    Leads mem (Falls mem s) (crossRecord d s) := by
  have hat := h.at hpc
  cases d <;> simp [crossRecord, Falls, rank, hpc, crossStage] at hat ⊢
  grind [u8]

/-- What follows a crossing is the analysis, or a normal pass that is the last pass. -/
theorem crossEnd_rank (h : Inv s) (hpc : s.pc = .crossEnd) :
    Leads mem (Falls mem s) (crossEnd s) := by
  have hat := h.at hpc
  simp [crossEnd, crossExit, crossSlope, Falls, rank, hpc, normalPass_normal, analyzePass]
    at hat ⊢
  simp [hat]

/-! ## Element types and the midline -/

/-- A loop or a crossing ranks below, and its pass leads back here only with a type that
goes on to the midline. -/
theorem analyze_rank {enableLoop : Bool} (hpc : s.pc = .analyze) :
    Leads mem (Falls mem s) (analyze enableLoop s) := by
  have hpos : 0 < analyzePass s.el := by
    unfold analyzePass
    split <;> omega
  simp [analyze, Falls, rank, hpc, hpos]
  refine ⟨fun hel _ => ?_, fun _ => ⟨fun hel _ => ?_, fun _ _ hel _ _ => ?_⟩⟩ <;>
    rw [hel] <;> decide

/-- The rows of the midline come after its start. -/
theorem mid_rank (hpc : s.pc = .mid) : Leads mem (Falls mem s) (mid s) := by
  simp [mid, Falls, rank, hpc]

/-- The rows of the midline count down, as long as `y_start` is not 0. -/
theorem midRow_rank (h : Inv s) (hpc : s.pc = .midRow) (hlive : ¬ Hung mem s) :
    Leads mem (Falls mem s) (midRow s) := by
  have hy := h.ranges.y
  have hstart := h.ranges.yStart
  simp only [Hung, hpc] at hlive
  simp only [midRow, Act.sat_ite, sat_setImg, Act.sat_halt, implies_true, and_true]
  refine fun hge => midline_sat ⟨trivial, trivial, trivial⟩ fun v hv => ?_
  rcases hv.frame with ⟨xl, xr, dx, xm, dxm, bothCount, rfl⟩
  simp [Falls, rank, hpc]
  grind [u8, Byte]

/-- Unless the state is hung, the rank falls. -/
theorem step_rank {enableLoop : Bool} (h : Inv s) (hlive : ¬ Hung mem s) :
    Leads mem (Falls mem s) (code enableLoop s) := by
  unfold code
  cases hpc : s.pc with
  -- the bottom row
  | entry => exact entry_rank hpc
  | zebra => exact zebra_rank h hpc
  | bottom => exact bottom_rank hpc
  | bottomLeft b => exact bottomLeft_rank h hpc
  | bottomRight => exact bottomRight_rank h hpc
  | bottomSeek => exact bottomSeek_rank h hpc
  | bottomTest => exact bottomTest_rank h hpc
  | bottomFound => exact bottomFound_rank hpc
  | edge d => exact edge_rank h hpc
  | dispatch => exact dispatch_rank hpc
  -- the normal pass
  | normalBound => exact normalBound_rank hpc
  | row => exact row_rank hpc
  | side d => exact side_rank h hpc
  | inward d => exact inward_rank h hpc
  | outward d => exact outward_rank h hpc
  | exitProbe d => exact exitProbe_rank h hpc
  | exitColumn d => exact exitColumn_rank hpc
  | exitDown d => exact exitDown_rank h hpc
  | exitUp d => exact exitUp_rank h hpc
  | exitClimb d => exact exitClimb_rank h hpc
  | record d => exact record_rank h hpc
  | normalEnd => exact normalEnd_rank hpc
  -- the loop pass: only the way down at a corner may hang
  | loop => exact loop_rank hpc
  | loopDrop d => exact loopDrop_rank h hpc
  | loopRise d => exact loopRise_rank h hpc
  | corner d => exact corner_rank h hpc
  | cornerUp d => exact cornerUp_rank h hpc
  | cornerDown d => exact cornerDown_rank h hpc hlive
  | append d => exact append_rank h hpc
  | loopCancel => exact loopCancel_rank hpc
  -- the cross pass: only the inward scan may hang
  | crossBound => exact crossBound_rank hpc
  | top => exact top_rank hpc
  | topLeft b => exact topLeft_rank h hpc
  | topRight => exact topRight_rank h hpc
  | topSeek => exact topSeek_rank h hpc
  | topTest => exact topTest_rank h hpc
  | topNext => exact topNext_rank h hpc
  | crossRow => exact crossRow_rank hpc
  | crossOut d => exact crossOut_rank h hpc
  | crossIn d => exact crossIn_rank h hpc hlive
  | crossRecord d => exact crossRecord_rank h hpc
  | crossEnd => exact crossEnd_rank h hpc
  -- the element type and the midline, whose rows may hang
  | analyze => exact analyze_rank hpc
  | mid => exact mid_rank hpc
  | midRow => exact midRow_rank h hpc hlive

/-! ## Hung states -/

/-- Where 256 pixels on end are empty, the one that a byte points to is. -/
theorem empty_of_all {f : ℤ → UInt8} (hall : ∀ i : Fin 256, f i = EMPTY) {z : ℤ} (hz : Byte z) :
    f z = EMPTY := by
  have hi := hall ⟨z.toNat, by have := hz.1; have := hz.2; omega⟩
  rwa [show ((⟨z.toNat, _⟩ : Fin 256) : ℤ) = z from Int.toNat_of_nonneg hz.1] at hi

/-- In an empty row the inward scan of a crossing goes round. -/
theorem crossIn_stays (enableLoop : Bool) (h : Inv s) (hpc : s.pc = .crossIn d)
    (hs : Hung mem s) : ∃ s', (code enableLoop s).next mem = some s' ∧ Hung mem s' := by
  simp only [Hung, hpc] at hs
  have hempty : mem (s.y, (s.track d).x) = EMPTY := by
    cases d
    · exact empty_of_all (f := fun i => mem (s.y, i)) hs h.ranges.lx
    · exact empty_of_all (f := fun i => mem (s.y, i)) hs h.ranges.rx
  refine ⟨s.setX d (u8 ((s.track d).x + d.sgn)), ?_, ?_⟩
  · simp only [code, hpc, crossIn, px, Act.next, hempty, if_true]
  · cases d <;> simpa [Hung, hpc] using hs

/-- In an empty column the way down goes round, as no byte is the row at which it is given up. -/
theorem cornerDown_stays (enableLoop : Bool) (h : Inv s) (hpc : s.pc = .cornerDown .left)
    (hs : Hung mem s) : ∃ s', (code enableLoop s).next mem = some s' ∧ Hung mem s' := by
  simp only [Hung, hpc] at hs
  have hempty : mem (s.y, s.l.x) = EMPTY :=
    empty_of_all (f := fun i => mem (i, s.l.x)) hs.2 h.ranges.y
  have hy : s.y ≠ s.y1 - lpUpCountMax := by
    have := h.ranges.y.1
    simp only [lpUpCountMax]
    omega
  refine ⟨{ s with y := u8 (s.y + 1) }, ?_, ?_⟩
  · simp only [code, hpc, cornerDown, px, Act.next, State.track, hempty, if_true, hy, if_false]
  · simpa [Hung, hpc] using hs

/-- With `y_start` 0 every row is a row of the midline. -/
theorem midRow_stays (enableLoop : Bool) (h : Inv s) (hpc : s.pc = .midRow) (hs : Hung mem s) :
    ∃ s', (code enableLoop s).next mem = some s' ∧ Hung mem s' := by
  simp only [Hung, hpc] at hs
  have hge : s.y ≥ s.yStart := by
    rw [hs]
    exact h.ranges.y.1
  rcases midRow_next enableLoop mem hpc hge with ⟨s', hnext, hrow⟩
  refine ⟨s', hnext, ?_⟩
  simp only [Hung, hrow.pc]
  exact hrow.yStart.trans hs

/-- A hung state goes on in its loop. -/
theorem hung_stays (enableLoop : Bool) (h : Inv s) (hs : Hung mem s) :
    ∃ s', (code enableLoop s).next mem = some s' ∧ Hung mem s' := by
  cases hpc : s.pc with
  | crossIn d => exact crossIn_stays enableLoop h hpc hs
  | cornerDown d =>
    cases d with
    | left => exact cornerDown_stays enableLoop h hpc hs
    -- on the right the last row is the limit
    | right => simp [Hung, hpc] at hs
  | midRow => exact midRow_stays enableLoop h hpc hs
  | _ => simp [Hung, hpc] at hs

/-- A run that visits a hung state does not end. -/
theorem hung_traps {enableLoop : Bool} (h : Start s) {t : State}
    (ht : Goto.Visits (code enableLoop) mem s t) (hs : Hung mem t) :
    ¬ Goto.Ends (code enableLoop) mem s := by
  refine Goto.not_ends_of_trap (fun t => Inv t ∧ Hung mem t) ?_ ht ⟨inv_visits h.inv ht, hs⟩
  rintro u ⟨hu, hungu⟩
  rcases hung_stays enableLoop hu hungu with ⟨u', hnext, hungu'⟩
  exact ⟨u', hnext, (step_inv hu).next hnext, hungu'⟩

/-- `search` ends if and only if it does not visit a state that is hung. -/
theorem ends_iff (image : Image) (beyond : ℤ → UInt8) (enableLoop : Bool) (s : State)
    (h : Start s) :
    Goto.Ends (code enableLoop) (memory image beyond) s ↔
      ∀ t, Goto.Visits (code enableLoop) (memory image beyond) s t →
        ¬ Hung (memory image beyond) t := by
  constructor
  · intro hends t ht hung
    exact hung_traps h ht hung hends
  -- without a hung state the rank falls at every jump
  · intro hlive
    refine Goto.ends_of_rank (rank (memory image beyond)) fun t t' ht hnext => ?_
    exact (step_rank (inv_visits h.inv ht) (hlive t ht)).next hnext

/-- A crossing whose top, row 50, is followed by empty rows. -/
def barAlone : Image := fun y x =>
  decide (y = 119 ∧ (x = 0 ∨ x = 93) ∨ y = 50 ∧ 90 ≤ x ∧ x ≤ 96)

/-- The condition at a call that does not end. -/
theorem ends_iff_barAlone :
    Start (called .cross) ∧
      (Goto.Ends (code false) (memory barAlone fun _ => EMPTY) (called .cross) ↔
        ∀ t, Goto.Visits (code false) (memory barAlone fun _ => EMPTY) (called .cross) t →
          ¬ Hung (memory barAlone fun _ => EMPTY) t) :=
  have hstart : Start (called .cross) := start_called (by decide)
  ⟨hstart, ends_iff barAlone (fun _ => EMPTY) false (called .cross) hstart⟩

/-- In row 51 the left scan goes round and round. -/
theorem barAlone_not_ends :
    Start (called .cross) ∧
      ¬ Goto.Ends (code false) (memory barAlone fun _ => EMPTY) (called .cross) := by
  have hstart : Start (called .cross) := start_called (by decide)
  rcases Goto.exists_visits (code false)
    (memory barAlone fun _ => EMPTY) (called .cross) 20
    (fun t => decide (Hung (memory barAlone fun _ => EMPTY) t)) (by decide +kernel) with
    ⟨t, ht, hung⟩
  refine ⟨hstart, hung_traps hstart ht (of_decide_eq_true hung)⟩

end SmartCar.MtImage

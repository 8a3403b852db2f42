import SmartCar.Lib.Line
import SmartCar.MtImage.Flow

/-!
# mt_image: appended boundaries

Where a lateral exit has been followed across the image, and where the corner of a loop has been
found, a straight boundary is appended from the column of the bottom row to the corner. The loop
that does so stands four times in the source; `begins_line` says that each copy is entered with
the slope of the line, and `append_visits` what the loop leaves.

* `appends_line`: the rows between get the line, truncated, and nothing else is written.
-/

namespace SmartCar.MtImage

open CInt

variable {mem : Cell → UInt8} {enableLoop : Bool} {s t u : State} {d : Side}

/-! ## Where the loop begins -/

/-- The state at the head of the loop, entered from `s`. -/
structure BeginsLine (d : Side) (s t : State) : Prop where
  left : t.l = s.l
  right : t.r = s.r
  xf : t.xf = (s.track d).xs yMax
  m : t.m = ((t.xc - (s.track d).xs yMax : ℤ) : ℚ) / ((yMax - t.yc : ℤ) : ℚ)
  y : t.y = yMax - 1

/-- The labels before an append loop: the corner of a loop is on the other side. -/
theorem Pc.before_appends {p : Pc} : ∀ q ∈ p.succs, q = .append d →
    (∃ e, e ≠ d ∧ p = .corner e) ∨ p = .exitColumn d ∨ p = .append d := by
  cases p with
  | bottomLeft b | topLeft b => cases b <;> simp [succs]
  | edge e | side e | record e | crossRecord e => cases e <;> simp [succs]
  | corner e => cases e <;> cases d <;> simp [succs]
  | _ => simp [succs, eq_comm]

theorem exitColumn_begins (s : State) :
    Leads mem (fun t => t.pc = .append d → BeginsLine d s t) (exitColumn d s) := by
  simp only [exitColumn, appendStart, Act.sat_ite, Act.sat_goto, Act.sat_touch, setImg,
    Act.sat_mark]
  refine ⟨fun _ hne => ?_, fun _ => ⟨trivial, fun _ => ⟨rfl, rfl, ?_, ?_, rfl⟩⟩⟩
  · cases hne
  · cases d <;> rfl
  · cases d <;> rfl

theorem corner_begins (s : State) (e : Side) :
    Leads mem (fun t => t.pc = .append d → BeginsLine d s t) (corner e s) := by
  cases e with
  | left =>
    simp only [corner, cornerFound, appendStart, px, setImg, Act.sat_read, Act.sat_ite,
      Act.sat_goto, Act.sat_touch, Act.sat_mark, reduceCtorEq, false_imp_iff, implies_true,
      true_and, and_true, Pc.append.injEq]
    rintro _ _ _ _ rfl
    exact ⟨rfl, rfl, rfl, rfl, rfl⟩
  | right =>
    simp only [corner, cornerFound, appendStart, px, setImg, Act.sat_read, Act.sat_ite,
      Act.sat_goto, Act.sat_touch, Act.sat_mark, reduceCtorEq, false_imp_iff, implies_true,
      true_and, and_true, Pc.append.injEq]
    rintro _ _ _ _ rfl
    exact ⟨rfl, rfl, rfl, rfl, rfl⟩

theorem begins_line (hpc : s.pc ≠ .append d) (ht : (code enableLoop s).next mem = some t)
    (hpc' : t.pc = .append d) : BeginsLine d s t := by
  rcases Pc.before_appends t.pc (next_succs ht) hpc' with ⟨e, -, hcorner⟩ | hexit | happend
  · rw [code, hcorner] at ht
    exact (corner_begins s e).next ht hpc'
  · rw [code, hexit] at ht
    exact (exitColumn_begins s).next ht hpc'
  · exact absurd happend hpc

/-! ## What the loop leaves -/

/-- The columns of side `d`: the rows from `s.y` up to the corner are filled. -/
def filled (d : Side) (s : State) (i : ℤ) : ℤ :=
  if s.yc < i ∧ i ≤ s.y then u8 (trunc (s.xf + (s.y + 1 - i : ℤ) * s.m)) else (s.track d).xs i

/-- The state after the loop. -/
def appended (d : Side) (s : State) : State :=
  { s.setTrack d { s.track d with xs := filled d s } with
    pc := .mid, y := s.yc, xf := s.xf + (s.y - s.yc : ℤ) * s.m }

/-- A turn of the loop. -/
def appendRow (d : Side) (s : State) : State :=
  { s.setXs d s.y (u8 (trunc (s.xf + s.m))) with y := s.y - 1, xf := s.xf + s.m }

@[simp] theorem appendRow_y (d : Side) (s : State) : (appendRow d s).y = s.y - 1 := rfl

@[simp] theorem appendRow_xf (d : Side) (s : State) : (appendRow d s).xf = s.xf + s.m := rfl

@[simp] theorem appendRow_m (d : Side) (s : State) : (appendRow d s).m = s.m := by
  cases d <;> rfl

@[simp] theorem appendRow_yc (d : Side) (s : State) : (appendRow d s).yc = s.yc := by
  cases d <;> rfl

@[simp] theorem appendRow_pc (d : Side) (s : State) : (appendRow d s).pc = s.pc := by
  cases d <;> rfl

theorem appendRow_xs (d : Side) (s : State) : ((appendRow d s).track d).xs =
    Function.update (s.track d).xs s.y (u8 (trunc (s.xf + s.m))) := by
  cases d <;> rfl

theorem append_turn (hpc : s.pc = .append d) (hgt : s.yc < s.y) (hlow : 0 ≤ s.yc)
    (hhigh : s.y < 256) : (code enableLoop s).next mem = some (appendRow d s) := by
  have hy : u8 (s.y - 1) = s.y - 1 := u8_of_range (by omega)
  rw [code, hpc]
  cases d <;> simp [append, hgt, Act.next, setImg, appendRow, hy]

theorem append_exit (hpc : s.pc = .append d) (hle : s.y = s.yc) :
    (code enableLoop s).next mem = some (appended d s) := by
  have hfilled : filled d s = (s.track d).xs := by
    funext i
    rw [filled, if_neg (by omega)]
  rw [code, hpc]
  cases d <;> simp [append, hle, Act.next, appended, hfilled]

/-- What the loop leaves does not change from one turn to the next. -/
theorem filled_appendRow (hgt : s.yc < s.y) : filled d (appendRow d s) = filled d s := by
  funext i
  rw [filled, filled, appendRow_xs, appendRow_yc, appendRow_y, appendRow_xf, appendRow_m]
  rcases lt_trichotomy i s.y with hlt | rfl | hgt'
  · -- a row that is still to come
    rw [Function.update_of_ne hlt.ne]
    by_cases hi : s.yc < i
    · rw [if_pos (by omega), if_pos (by omega)]
      congr 2
      push_cast
      ring
    · rw [if_neg (by omega), if_neg (by omega)]
  · -- the row of this turn
    rw [Function.update_self, if_neg (by omega), if_pos (by omega)]
    congr 2
    push_cast
    ring
  · rw [Function.update_of_ne hgt'.ne', if_neg (by omega), if_neg (by omega)]

theorem appended_appendRow (hgt : s.yc < s.y) : appended d (appendRow d s) = appended d s := by
  have hxf : s.xf + s.m + (s.y - 1 - s.yc : ℤ) * s.m = s.xf + (s.y - s.yc : ℤ) * s.m := by
    push_cast
    ring
  rw [appended, appended, filled_appendRow hgt, appendRow_xf, appendRow_m, appendRow_y,
    appendRow_yc, hxf]
  cases d <;> rfl

/-- The loop fills the rows from `s.y` up to the corner. -/
theorem append_visits (n : ℕ) (hpc : s.pc = .append d) (hn : s.y = s.yc + n) (hlow : 0 ≤ s.yc)
    (hhigh : s.y < 256) : Goto.Visits (code enableLoop) mem s (appended d s) := by
  induction n generalizing s with
  | zero => exact (Goto.Visits.refl s).step (append_exit hpc (by omega))
  | succ n ih =>
    have hgt : s.yc < s.y := by omega
    have hrest := ih (s := appendRow d s) (by simpa using hpc) (by simp; omega)
      (by simpa using hlow) (by simp; omega)
    rw [appended_appendRow hgt] at hrest
    exact hrest.head (append_turn hpc hgt hlow hhigh)

theorem appended_xs (d : Side) (s : State) : ((appended d s).track d).xs = filled d s := by
  cases d <;> rfl

theorem appended_other {e : Side} (hne : e ≠ d) (s : State) :
    (appended d s).track e = s.track e := by
  cases d <;> cases e <;> first | rfl | exact absurd rfl hne

/-! ## The line -/

/-- The line from the column `a` of the bottom row to the corner, at row `y`. -/
def cornerLine (a xc yc y : ℤ) : ℚ := Line.through a yMax xc yc y

/-- It goes through the bottom column and through the corner. -/
theorem cornerLine_ends {a xc yc : ℤ} (hyc : yc < yMax) :
    cornerLine a xc yc yMax = a ∧ cornerLine a xc yc yc = xc := by
  have hne : ((yMax : ℤ) : ℚ) - yc ≠ 0 := by
    rw [sub_ne_zero]
    exact_mod_cast hyc.ne'
  exact ⟨Line.through_start _ _ _ _, Line.through_end hne⟩

/-- What an append loop of side `d` leaves in `u`, entered from `s` with the corner of `t`. -/
structure Appends (d : Side) (s t u : State) : Prop where
  pc : u.pc = .mid
  /-- The rows between get the line, truncated. -/
  rows : ∀ y, t.yc < y → y < yMax →
    (u.track d).xs y = trunc (cornerLine ((s.track d).xs yMax) t.xc t.yc y)
  /-- The other rows, and the other side, are left alone. -/
  frame : ∀ y, ¬ (t.yc < y ∧ y < yMax) → (u.track d).xs y = (s.track d).xs y
  other : ∀ e, e ≠ d → u.track e = s.track e
  between : ∀ y, t.yc < y → y < yMax →
    min ((s.track d).xs yMax) t.xc ≤ (u.track d).xs y ∧
      (u.track d).xs y ≤ max ((s.track d).xs yMax) t.xc
  rising : (s.track d).xs yMax ≤ t.xc → ∀ y y', t.yc < y → y ≤ y' → y' < yMax →
    (u.track d).xs y' ≤ (u.track d).xs y
  falling : t.xc ≤ (s.track d).xs yMax → ∀ y y', t.yc < y → y ≤ y' → y' < yMax →
    (u.track d).xs y ≤ (u.track d).xs y'

/-- The line stays between its ends, and so does its truncation. -/
theorem cornerLine_range {a xc yc y : ℤ} (ha : 0 ≤ a) (hxc : 0 ≤ xc) (hyc : yc < yMax)
    (hlow : yc ≤ y) (hhigh : y ≤ yMax) :
    0 ≤ cornerLine a xc yc y ∧ min a xc ≤ trunc (cornerLine a xc yc y) ∧
      trunc (cornerLine a xc yc y) ≤ max a xc := by
  have hyc' : (yc : ℚ) < (yMax : ℤ) := by exact_mod_cast hyc
  have hlow' : (yc : ℚ) ≤ y := by exact_mod_cast hlow
  have hhigh' : (y : ℚ) ≤ (yMax : ℤ) := by exact_mod_cast hhigh
  have hmin : ((min a xc : ℤ) : ℚ) ≤ cornerLine a xc yc y := by
    push_cast
    exact Line.min_le_through hyc' hlow' hhigh'
  have hmax : cornerLine a xc yc y ≤ ((max a xc : ℤ) : ℚ) := by
    push_cast
    exact Line.through_le_max hyc' hlow' hhigh'
  have hnonneg : (0 : ℚ) ≤ ((min a xc : ℤ) : ℚ) := by exact_mod_cast le_min ha hxc
  exact ⟨hnonneg.trans hmin, trunc_mem (le_min ha hxc) hmin hmax⟩

/-- The accumulated column is that of the line. -/
theorem filled_eq (h : BeginsLine d s t) (ha : 0 ≤ (s.track d).xs yMax)
    (ha' : (s.track d).xs yMax ≤ 186) (hxc : 0 ≤ t.xc) (hxc' : t.xc ≤ 187) (hyc : t.yc < yMax)
    {y : ℤ} (hlow : t.yc < y) (hhigh : y < yMax) :
    filled d t y = trunc (cornerLine ((s.track d).xs yMax) t.xc t.yc y) := by
  obtain ⟨-, hmin, hmax⟩ := cornerLine_range ha hxc hyc hlow.le hhigh.le
  have hvalue : t.xf + (t.y + 1 - y : ℤ) * t.m =
      cornerLine ((s.track d).xs yMax) t.xc t.yc y := by
    rw [h.xf, h.m, h.y, cornerLine, Line.through]
    push_cast
    ring
  rw [filled, if_pos ⟨hlow, by rw [h.y]; omega⟩, hvalue]
  exact u8_of_range ⟨by omega, by omega⟩

theorem filled_of_not (h : BeginsLine d s t) {y : ℤ} (hnot : ¬ (t.yc < y ∧ y < yMax)) :
    filled d t y = (t.track d).xs y := by
  rw [filled, if_neg]
  rw [h.y]
  omega

theorem BeginsLine.track (h : BeginsLine d s t) (e : Side) : t.track e = s.track e := by
  cases e with
  | left => exact h.left
  | right => exact h.right

/-- An append loop comes to its end, and leaves the line from the column of the bottom row to
the corner in the rows between. -/
theorem appends_line (mem : Cell → UInt8) (enableLoop : Bool) (d : Side) (s t : State)
    (hpc : s.pc ≠ .append d) (ht : (code enableLoop s).next mem = some t)
    (hpc' : t.pc = .append d)
    (ha : 0 ≤ (s.track d).xs yMax ∧ (s.track d).xs yMax ≤ 186)
    (hxc : 0 ≤ t.xc ∧ t.xc ≤ 187) (hyc : 0 ≤ t.yc ∧ t.yc < yMax) :
    ∃ u, Goto.Visits (code enableLoop) mem t u ∧ Appends d s t u := by
  have hbegins := begins_line hpc ht hpc'
  have hy := hbegins.y
  have hrow : ∀ y, t.yc < y → y < yMax → ((appended d t).track d).xs y =
      trunc (cornerLine ((s.track d).xs yMax) t.xc t.yc y) := by
    intro y hlow hhigh
    rw [appended_xs]
    exact filled_eq hbegins ha.1 ha.2 hxc.1 hxc.2 hyc.2 hlow hhigh
  have hyc' : (t.yc : ℚ) < (yMax : ℤ) := by exact_mod_cast hyc.2
  refine ⟨appended d t, append_visits (t.y - t.yc).toNat hpc' ?_ hyc.1 ?_,
    ⟨rfl, hrow, ?_, ?_, ?_, ?_, ?_⟩⟩
  · simp only [yMax] at hy hyc
    omega
  · simp only [yMax] at hy
    omega
  · intro y hnot
    rw [appended_xs, filled_of_not hbegins hnot, hbegins.track]
  · intro e hne
    rw [appended_other hne, hbegins.track]
  · intro y hlow hhigh
    rw [hrow y hlow hhigh]
    exact (cornerLine_range ha.1 hxc.1 hyc.2 hlow.le hhigh.le).2
  · -- towards the corner, the line rises with the rows that are left
    intro hle y y' hlow hyy hhigh
    rw [hrow y hlow (by omega), hrow y' (by omega) hhigh]
    have hle' : (((s.track d).xs yMax : ℤ) : ℚ) ≤ t.xc := by exact_mod_cast hle
    exact trunc_le_trunc (cornerLine_range ha.1 hxc.1 hyc.2 (by omega) hhigh.le).1
      (Line.through_le_of_le hyc' hle' (by exact_mod_cast hyy))
  · intro hle y y' hlow hyy hhigh
    rw [hrow y hlow (by omega), hrow y' (by omega) hhigh]
    have hle' : (t.xc : ℚ) ≤ (((s.track d).xs yMax : ℤ) : ℚ) := by exact_mod_cast hle
    exact trunc_le_trunc (cornerLine_range ha.1 hxc.1 hyc.2 hlow.le (by omega)).1
      (Line.le_through_of_le hyc' hle' (by exact_mod_cast hyy))

/-- A lateral exit on the left that has been followed across the image, to row 60. -/
def acrossLeft : State :=
  { called .normal with
    pc := .exitColumn .left, xc := 187, yc := 60
    l := { (called .normal).l with xs := fun i => if i = yMax then 10 else 0 } }

theorem appends_line_acrossLeft : ∃ t u, (code false acrossLeft).next (fun _ => EMPTY) = some t ∧
    Appends .left acrossLeft t u ∧ u.l.xs 100 = 67 := by
  obtain ⟨u, -, hu⟩ := appends_line (fun _ => EMPTY) false .left acrossLeft _ (by decide) rfl rfl
    (by decide) (by decide) (by decide)
  exact ⟨_, u, rfl, hu, (hu.rows 100 (by decide) (by decide)).trans (by decide +kernel)⟩

end SmartCar.MtImage

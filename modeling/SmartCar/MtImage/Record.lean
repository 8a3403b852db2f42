import SmartCar.MtImage.Search

/-!
# mt_image: what recording a row can change

From `record` on, a row of the normal pass ends at the next side, at the next row or
at the end of the pass. On the way the code changes the variables of its side, `dx`
and the element type, and nothing else: `Recorded`. `record_sat` is the law of the
whole stretch; the lemmas before it follow the code backwards from its ends.
-/

namespace SmartCar.MtImage

open CInt

variable {mem : Cell → UInt8} {R : Cell → Prop} {U : Entry → Prop} {Q : State → Prop}

/-! ## Stretches of code -/

@[simp] theorem sat_px (y x : ℤ) (k : UInt8 → Go) :
    (px y x k).Sat mem R U Q ↔ R (y, x) ∧ (k (mem (y, x))).Sat mem R U Q := Iff.rfl

@[simp] theorem sat_setImg (x y : ℤ) (t : UInt8) (k : Go) :
    (setImg x y t k).Sat mem R U Q ↔ k.Sat mem R U Q := Iff.rfl

/-- Whatever the code reads, the state it jumps to meets `Q`. -/
abbrev Leads (mem : Cell → UInt8) (Q : State → Prop) (a : Go) : Prop :=
  a.Sat mem (fun _ => True) (fun _ => True) Q

/-- The state after `left$:` or `right$:`. -/
def afterSide (d : Side) (s : State) : State :=
  match d with
  | .left => { s with pc := .side .right }
  | .right => { s with pc := .row, y := u8 (s.y - 1) }

/-- The end of a side jumps, and does nothing else. -/
theorem sideEnd_eq (d : Side) (s : State) : sideEnd d s = .goto (afterSide d s) := by
  cases d <;> rfl

/-! ## The frame -/

/-- `u` is reached from `s` while a row of side `d` is being recorded. -/
structure Recorded (d : Side) (s u : State) : Prop where
  frame : ∃ t dx el elementType prevElNormal, u = { s.setTrack d t with
    dx := dx, el := el, elementType := elementType, prevElNormal := prevElNormal }
  x : Byte (s.track d).x → Byte (u.track d).x
  xs : (∀ i, Byte ((s.track d).xs i)) → Byte (s.track d).x → ∀ i, Byte ((u.track d).xs i)
  y0 : (u.track d).y0 = (s.track d).y0 ∨ (u.track d).y0 = s.y
  el : s.el ≤ .normal → u.el ≤ .normal

/-- The row is over: `t` is at the next side, at the next row or at the end of the pass. -/
def RowEnd (d : Side) (s t : State) : Prop :=
  ∃ u, Recorded d s u ∧ (t = { u with pc := .normalEnd } ∨ t = afterSide d u)

variable {s u : State} {d : Side}

/-- Nothing has been recorded yet. -/
theorem Recorded.refl : Recorded d s s where
  frame := ⟨s.track d, s.dx, s.el, s.elementType, s.prevElNormal, by cases d <;> rfl⟩
  x := id
  xs := fun h _ => h
  y0 := .inl rfl
  el := id

/-- The row stays the row. -/
theorem Recorded.y_eq (h : Recorded d s u) : u.y = s.y := by
  rcases h.frame with ⟨t, dx, el, et, p, rfl⟩
  cases d <;> rfl

/-- Changing the variables of the side. -/
theorem Recorded.setTrack (h : Recorded d s u) {t : Track} (hx : Byte (u.track d).x → Byte t.x)
    (hxs : (∀ i, Byte ((u.track d).xs i)) → Byte (u.track d).x → ∀ i, Byte (t.xs i))
    (hy0 : t.y0 = (u.track d).y0 ∨ t.y0 = s.y) : Recorded d s (u.setTrack d t) := by
  rcases h.frame with ⟨t', dx, el, et, p, hu⟩
  have htrack : (u.setTrack d t).track d = t := by cases d <;> rfl
  refine ⟨⟨t, dx, el, et, p, by rw [hu]; cases d <;> rfl⟩, ?_, ?_, ?_, ?_⟩
  · rw [htrack]
    exact fun hb => hx (h.x hb)
  · rw [htrack]
    exact fun hbs hb => hxs (h.xs hbs hb) (h.x hb)
  · rw [htrack]
    rcases hy0 with hy0 | hy0
    · rw [hy0]
      exact h.y0
    · exact .inr hy0
  · have hel : (u.setTrack d t).el = u.el := by cases d <;> rfl
    rw [hel]
    exact h.el

/-- Changing the variables of the side, but for its columns and its origin. -/
theorem Recorded.setTrack_same (h : Recorded d s u) {t : Track} (hx : t.x = (u.track d).x)
    (hxs : t.xs = (u.track d).xs) (hy0 : t.y0 = (u.track d).y0) :
    Recorded d s (u.setTrack d t) :=
  h.setTrack (by rw [hx]; exact id) (fun hbs _ => by rw [hxs]; exact hbs) (.inl hy0)

/-- Changing `dx`. -/
theorem Recorded.setDx (h : Recorded d s u) (dx : ℤ) : Recorded d s { u with dx := dx } := by
  rcases h.frame with ⟨t, dx', el, et, p, hu⟩
  have htrack : ({ u with dx := dx } : State).track d = u.track d := by cases d <;> rfl
  exact ⟨⟨t, dx, el, et, p, by rw [hu]⟩, by rw [htrack]; exact h.x, by rw [htrack]; exact h.xs,
    by rw [htrack]; exact h.y0, h.el⟩

/-- Changing the element type: one that is at most `normal` stays so. -/
theorem Recorded.setEl (h : Recorded d s u) {el : ElementType} (hel : u.el ≤ .normal → el ≤ .normal)
    (p : Bool) : Recorded d s { u with el := el, elementType := el, prevElNormal := p } := by
  rcases h.frame with ⟨t, dx, el', et, p', hu⟩
  have htrack : ({ u with el := el, elementType := el, prevElNormal := p } : State).track d =
      u.track d := by cases d <;> rfl
  exact ⟨⟨t, dx, el, el, p, by rw [hu]⟩, by rw [htrack]; exact h.x, by rw [htrack]; exact h.xs,
    by rw [htrack]; exact h.y0, fun hs => hel (h.el hs)⟩

/-- Storing a column of the side. -/
theorem Recorded.setXs (h : Recorded d s u) {y x : ℤ} (hx : Byte (u.track d).x → Byte x) :
    Recorded d s (u.setXs d y x) :=
  h.setTrack id (fun hbs hb => byte_update hbs (hx hb)) (.inl rfl)

/-! ## The table entries used -/

/-- The entries that a row may use, of row `y`, of the row below and of the side's
origin, meet `U`. -/
def RowEntries (U : Entry → Prop) (d : Side) (s : State) : Prop :=
  ∀ i, i = s.y ∨ i = s.y + 1 ∨ i = (s.track d).y0 → U (.xls i) ∧ U (.xrs i)

/-- The entries of the side's own table that a row uses. -/
theorem RowEntries.xs (hU : RowEntries U d s) {i : ℤ}
    (hi : i = s.y ∨ i = s.y + 1 ∨ i = (s.track d).y0) : U (.xs d i) := by
  cases d
  · exact (hU i hi).1
  · exact (hU i hi).2

/-- The entries of the origin, wherever the row has put it. -/
theorem RowEntries.origin (hU : RowEntries U d s) (h : Recorded d s u) :
    U (.xrs (u.track d).y0) ∧ U (.xs d (u.track d).y0) := by
  have hi : (u.track d).y0 = s.y ∨ (u.track d).y0 = s.y + 1 ∨ (u.track d).y0 = (s.track d).y0 := by
    rcases h.y0 with h0 | h0
    · exact .inr (.inr h0)
    · exact .inl h0
  exact ⟨(hU _ hi).2, hU.xs hi⟩

/-! ## The ends of a row -/

/-- The end of a side ends the row. -/
theorem sideEnd_sat (h : Recorded d s u) : (sideEnd d u).Sat mem R U (RowEnd d s) := by
  rw [sideEnd_eq]
  exact ⟨u, h, .inr rfl⟩

/-- A good row changes its side's counts. -/
theorem good_sat (h : Recorded d s u) : (good d u).Sat mem R U (RowEnd d s) := by
  unfold good
  apply sideEnd_sat
  split
  · exact h.setTrack_same rfl rfl rfl
  · exact h

/-- So does a bad one. -/
theorem noGood_sat (h : Recorded d s u) : (noGood d u).Sat mem R U (RowEnd d s) := by
  unfold noGood
  apply sideEnd_sat
  apply h.setTrack_same <;> split <;> rfl

/-- Whichever way the debounce goes, the counts of the side change. -/
theorem debounce_sat (h : Recorded d s u) : (debounce d u).Sat mem R U (RowEnd d s) := by
  simp only [debounce, Act.sat_ite]
  refine ⟨fun _ => ⟨fun _ => ?_, fun _ => ?_⟩, fun _ => ⟨fun _ => ⟨fun _ => ?_, fun _ => ?_⟩,
    fun _ => sideEnd_sat h⟩⟩
  · exact sideEnd_sat (h.setTrack_same rfl rfl rfl)
  · exact good_sat (h.setTrack_same rfl rfl rfl)
  · exact good_sat (h.setTrack_same rfl rfl rfl)
  · exact sideEnd_sat (h.setTrack_same rfl rfl rfl)

/-- A curve is a type up to `Normal`, -/
theorem curveOf_le (d : Side) : curveOf d ≤ .normal := by cases d <;> decide

/-- the announcement of a loop is not. -/
theorem loopBefore_not_le (d : Side) : ¬ loopBefore d ≤ .normal := by cases d <;> decide

/-- Counting a row moves neither the cursor nor the origin. -/
theorem countRow_same (dx : ℤ) (t : Track) :
    (countRow dx t).x = t.x ∧ (countRow dx t).xs = t.xs ∧ (countRow dx t).y0 = t.y0 := by
  unfold countRow
  split <;> exact ⟨rfl, rfl, rfl⟩

/-- The second sign of a loop changes the element type, from one above `Normal`. -/
theorem secondLoop_recorded (h : Recorded d s u) : Recorded d s (secondLoop d u) := by
  unfold secondLoop
  split
  · rename_i hc
    exact h.setEl (fun hel => absurd (hc.2 ▸ hel) (loopBefore_not_le d)) _
  · exact h

/-- From the count of a row on: a curve, or the debounce. -/
theorem convexity_sat (h : Recorded d s u) (hU : RowEntries U d s) :
    (convexity d u).Sat mem R U (RowEnd d s) := by
  obtain ⟨dx, hdx⟩ : ∃ dx, dx = i16 (d.sgn * ((u.track d).x - (u.track d).xs (u.y + 1))) :=
    ⟨_, rfl⟩
  rcases countRow_same dx (u.track d) with ⟨hx, hxs, hy0⟩
  have hcount := (h.setTrack_same hx hxs hy0).setDx dx
  simp only [convexity, Act.sat_touch, Act.sat_ite, ← hdx]
  refine ⟨hU.xs (.inr (.inl (by rw [h.y_eq]))), fun _ => ?_, fun _ => ?_⟩
  · -- a curve ends the pass
    exact ⟨_, hcount.setEl (fun _ => curveOf_le d) _, .inl rfl⟩
  · exact debounce_sat ((secondLoop_recorded hcount).setTrack_same rfl rfl rfl)

/-- The slope is taken from the origin's entries, and belongs to the side. -/
theorem slope_sat {k : State → Go} (h : Recorded d s u) (hU : RowEntries U d s)
    (hk : ∀ v, Recorded d s v → (k v).Sat mem R U Q) : (slope d u k).Sat mem R U Q := by
  rcases hU.origin h with ⟨hxrs, hxs⟩
  simp only [slope, Act.sat_ite, Act.sat_touch]
  refine ⟨fun _ => ⟨hxrs, fun _ => ⟨hxs, hk _ ?_⟩, fun _ => hk _ h⟩, fun _ => hk _ h⟩
  exact h.setTrack_same rfl rfl rfl

/-- A row with a border stores it. -/
theorem recordFound_sat (h : Recorded d s u) (hU : RowEntries U d s) :
    (recordFound d u).Sat mem R U (RowEnd d s) := by
  refine slope_sat h hU fun v hv => ⟨hU.xs (.inl hv.y_eq), ?_⟩
  exact convexity_sat (hv.setXs id) hU

/-- A lost row stores what is extrapolated, if anything. -/
theorem recordLost_sat (h : Recorded d s u) (hU : RowEntries U d s) :
    (recordLost d u).Sat mem R U (RowEnd d s) := by
  simp only [recordLost, Act.sat_ite, Act.sat_touch, sat_setImg]
  refine ⟨fun _ => ?_, fun _ => ⟨fun _ => ⟨(hU.origin h).2, hU.xs (.inl h.y_eq), ?_⟩, fun _ => ?_⟩⟩
  · exact sideEnd_sat (h.setTrack_same rfl rfl rfl)
  · refine noGood_sat (Recorded.setXs ?_ fun _ => byte_u8 _)
    exact h.setTrack (fun _ => byte_u8 _) (fun hbs _ => hbs) (.inl rfl)
  · exact sideEnd_sat h

/-- What the recording of a row does, whatever has been found in it. -/
theorem record_sat (hU : RowEntries U d s) : (record d s).Sat mem R U (RowEnd d s) := by
  simp only [record, Act.sat_ite]
  have hset : Recorded d s (if (s.track d).unset then
      s.setTrack d { s.track d with y0 := s.y, unset := false } else s) := by
    split
    · exact Recorded.refl.setTrack id (fun hbs _ => hbs) (.inr rfl)
    · exact Recorded.refl
  refine ⟨fun _ => noGood_sat (Recorded.refl.setTrack_same rfl rfl rfl), fun _ => ⟨fun _ => ?_,
    fun _ => ?_⟩⟩
  · exact recordLost_sat hset hU
  · exact recordFound_sat hset hU

end SmartCar.MtImage

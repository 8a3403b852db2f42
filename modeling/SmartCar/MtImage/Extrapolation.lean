import SmartCar.MtImage.RowScan

/-!
# mt_image: extrapolated columns

A lost row is extrapolated from the base of its side, along a slope that an earlier row has
left. Base, slope and the flag of the slope are set at different moments: a row that is lost
may set the base, the slope outlives its base, and the left side asks the table of the right
one whether its slope is 0.

* `Sound` says of a row that it does none of this;
* `extrapolated_measured` is the law: after rows that are sound, what is extrapolated comes from
  two columns that have been measured.
-/

namespace SmartCar.MtImage

open CInt

variable {mem : Cell → UInt8} {enableLoop : Bool} {s t u v : State} {d : Side} {y : ℤ}

/-! ## Law and condition -/

/-- The row sets the base of side `d`. -/
def SetsBase (d : Side) (s : State) : Prop :=
  s.pc = .record d ∧ (s.track d).x ≠ d.edge ∧ (s.track d).unset = true

/-- The row sets the slope of side `d`. -/
def SetsSlope (d : Side) (s : State) : Prop := Tracks d s ∧ Slopes d s

/-- The row is extrapolated. -/
def Extrapolates (d : Side) (s : State) : Prop :=
  s.pc = .record d ∧ (s.track d).x ≠ d.edge ∧ s.lost = true ∧ ¬ s.el > .cross ∧
    (s.track d).mSet = true

/-- The straight line from the side's base, in row `y`. -/
def line (t : Track) (y : ℤ) : ℚ := t.m * (y - t.y0 : ℤ) + t.xs t.y0

/-- The row of `s` does not spoil what is extrapolated from it:

* a row that sets the base is not lost, and finds no slope that is set;
* the column that a slope is calculated from is not that of the base;
* a column that sets the base or a slope is not 0;
* the line has not left the image. -/
def Sound (d : Side) (s : State) : Prop :=
  (SetsBase d s → s.lost = false ∧ (s.track d).mSet = false) ∧
    (SetsSlope d s → (s.track d).x ≠ (s.track d).xs (based d s).y0) ∧
    (SetsBase d s ∨ SetsSlope d s → (s.track d).x ≠ 0) ∧
    (Extrapolates d s → xMin ≤ line (based d s) s.y ∧ line (based d s) s.y < xMax + 1)

instance (d : Side) (s : State) : Decidable (SetsBase d s) := inferInstanceAs (Decidable (_ ∧ _))

instance (d : Side) (s : State) : Decidable (SetsSlope d s) := inferInstanceAs (Decidable (_ ∧ _))

instance (d : Side) (s : State) : Decidable (Extrapolates d s) :=
  inferInstanceAs (Decidable (_ ∧ _))

instance (d : Side) (s : State) : Decidable (Sound d s) :=
  inferInstanceAs (Decidable ((_ → _ ∧ _) ∧ (_ → _) ∧ (_ → _) ∧ (_ → _ ∧ _)))

/-- Row `y` holds a column of side `d` that has been tracked in the search from `s`, and that is
not 0. -/
def Measures (enableLoop : Bool) (mem : Cell → UInt8) (d : Side) (s t : State) (y : ℤ) : Prop :=
  (t.track d).xs y ≠ 0 ∧ ∃ b, Goto.Visits (code enableLoop) mem s b ∧
    Goto.Visits (code enableLoop) mem b t ∧ Tracks d b ∧ b.y = y ∧
    (t.track d).xs y = (b.track d).x

/-- What is extrapolated in `t` lies on the line through two columns that have been measured, one
of them that of the base, and in the image. -/
structure FromPoints (enableLoop : Bool) (mem : Cell → UInt8) (d : Side) (s t : State) : Prop where
  base : Measures enableLoop mem d s t (based d t).y0
  slope : ∃ y, y ≠ (based d t).y0 ∧ Measures enableLoop mem d s t y ∧ (based d t).m ≠ 0 ∧
    (based d t).m = (((t.track d).xs y - (t.track d).xs (based d t).y0 : ℤ) : ℚ) /
      ((y - (based d t).y0 : ℤ) : ℚ)
  column : xMin ≤ (extrapolated d t).x ∧ (extrapolated d t).x ≤ xMax

/-! ## The rows of the pass -/

/-- The labels at which the row of side `d` is done. -/
def Pc.Past (d : Side) (p : Pc) : Prop :=
  p = .normalEnd ∨ (d = .left ∧ (p = .side .right ∨ p.InRow .right))

/-- Row `y` of side `d` is done. -/
def Done (d : Side) (s : State) (y : ℤ) : Prop := s.y < y ∨ (s.y = y ∧ s.pc.Past d)

theorem Pc.past_of_succs {p : Pc} :
    ∀ q ∈ p.succs, p.Past d → q.Reset → q.Past d ∨ q = .row := by
  cases p with
  | bottomLeft b | topLeft b => cases b <;> simp [succs, Past, InRow, Reset, pass]
  | edge e | side e | record e | corner e | crossRecord e =>
    cases e <;> simp [succs, Past, InRow, Reset, pass]
  | inward e | outward e | exitProbe e | exitColumn e | exitDown e | exitUp e | exitClimb e =>
    simp only [succs, Past, InRow, Reset, pass]
    simp
    exact fun hd he => ⟨hd, he⟩
  | _ => simp [succs, Past, InRow, Reset, pass]

/-- In the normal pass only the loop over the rows changes `y`. -/
theorem row_step (h : s.pc.Reset) : Leads mem
    (fun t => t.pc.Reset → t.y = if t.pc = .row then u8 (s.y - 1) else s.y)
    (code enableLoop s) := by
  unfold code
  cases hpc : s.pc with
  | row => simp [row]
  | side e =>
    simp only [side, sideEnd_eq, Act.sat_ite, Act.sat_goto]
    cases e <;> simp [afterSide]
  | inward e =>
    simp only [inward, inwardEnd, sat_px, Act.sat_ite, Act.sat_goto]
    cases e <;> simp [hpc]
  | outward e => cases e <;> simp [outward, hpc]
  | exitProbe e => cases e <;> simp [exitProbe, invLost]
  | exitColumn e => cases e <;> simp [exitColumn, appendStart, Pc.Reset, Pc.pass]
  | exitDown e => cases e <;> simp [exitDown, loopExitLost, invLost, hpc]
  | exitUp e => cases e <;> simp [exitUp, exitNext, loopExitLost, invLost]
  | exitClimb e => cases e <;> simp [exitClimb, exitNext, loopExitLost, invLost, hpc]
  | record e =>
    refine (record_sat fun _ _ => ⟨trivial, trivial⟩).mono ?_
    rintro t ⟨u, hu, ht⟩ -
    obtain ⟨w, dx, el, elementType, p, rfl⟩ := hu.frame
    rcases ht with rfl | rfl <;> cases e <;> simp [afterSide]
  | normalEnd => simp [normalEnd]
  | _ => simp [hpc, Pc.Reset, Pc.pass] at h

theorem Pc.past_of_record : ∀ q ∈ (Pc.record d).succs, q.Past d ∨ q = .row := by
  cases d <;> simp [succs, Past]

theorem y_of_reset (hi : Inv s) (h : s.pc.Reset) : 37 ≤ s.y ∧ s.y ≤ 118 := by
  have hat := hi.here
  cases hpc : s.pc <;> simp [hpc, Pc.Reset, Pc.pass] at h hat <;> omega

/-- A row that is done stays so. -/
theorem done_step (hi : Inv s) (hs : s.pc.Reset) (ht : (code enableLoop s).next mem = some t)
    (ht' : t.pc.Reset) (h : Done d s y) : Done d t y := by
  have hy := (row_step hs).next ht ht'
  have hrange := y_of_reset hi hs
  have hu8 : u8 (s.y - 1) = s.y - 1 := u8_of_range (by omega)
  by_cases hrow : t.pc = .row
  · rw [if_pos hrow, hu8] at hy
    rcases h with hlt | ⟨heq, -⟩
    · exact .inl (by omega)
    · exact .inl (by omega)
  · rw [if_neg hrow] at hy
    rcases h with hlt | ⟨heq, hpast⟩
    · exact .inl (by omega)
    · exact .inr ⟨by omega, (Pc.past_of_succs t.pc (next_succs ht) hpast ht').resolve_right hrow⟩

/-- The row that is recorded is done then. -/
theorem done_record (hi : Inv s) (hpc : s.pc = .record d)
    (ht : (code enableLoop s).next mem = some t) : Done d t s.y := by
  have hreset : s.pc.Reset := by simp [hpc, Pc.Reset, Pc.pass]
  have hsuccs := next_succs ht
  rw [hpc] at hsuccs
  have ht' : t.pc.Reset := by
    cases d <;> simp [Pc.succs] at hsuccs <;> rcases hsuccs with h | h <;>
      simp [h, Pc.Reset, Pc.pass]
  have hy := (row_step hreset).next ht ht'
  have hrange := y_of_reset hi hreset
  have hu8 : u8 (s.y - 1) = s.y - 1 := u8_of_range (by omega)
  by_cases hrow : t.pc = .row
  · rw [if_pos hrow, hu8] at hy
    exact .inl (by omega)
  · rw [if_neg hrow] at hy
    exact .inr ⟨hy, (Pc.past_of_record t.pc hsuccs).resolve_right hrow⟩

/-- A row that is done is not the one that is recorded. -/
theorem Done.lt (h : Done d s y) (hpc : s.pc = .record d) : s.y < y := by
  rcases h with hlt | ⟨-, hpast⟩
  · exact hlt
  · cases d <;> simp [hpc, Pc.Past, Pc.InRow] at hpast

/-! ## Base and slope -/

/-- Row `y` is done, and a column has been measured in it. -/
def Holds (enableLoop : Bool) (mem : Cell → UInt8) (d : Side) (s t : State) (y : ℤ) : Prop :=
  Done d t y ∧ Measures enableLoop mem d s t y

/-- The slope of `t` is that of the line through the base and another column that has been
measured. -/
def Spans (enableLoop : Bool) (mem : Cell → UInt8) (d : Side) (s t : State) : Prop :=
  ∃ y, y ≠ (t.track d).y0 ∧ Holds enableLoop mem d s t y ∧ (t.track d).m ≠ 0 ∧
    (t.track d).m = (((t.track d).xs y - (t.track d).xs (t.track d).y0 : ℤ) : ℚ) /
      ((y - (t.track d).y0 : ℤ) : ℚ)

/-- What is known of base and slope in the normal pass. -/
def Based (enableLoop : Bool) (mem : Cell → UInt8) (d : Side) (s t : State) : Prop :=
  t.pc.Reset → (t.track d).unset = false →
    Holds enableLoop mem d s t (t.track d).y0 ∧
      ((t.track d).mSet = true → Spans enableLoop mem d s t)

/-- In the normal pass only the recording of a row changes more of a side than its cursor. -/
theorem becomes_of_reset (hu : u.pc.Reset) (hpc : u.pc ≠ .record d)
    (hv : (code enableLoop u).next mem = some v) : Becomes d (u.track d) v := by
  obtain ⟨hpass, hbound⟩ := hu
  cases track_step hv d with
  | still _ h => exact h
  | locals hpc' _ => simp [hpc'] at hpass
  | bottom hpc' _ _ _ => simp [hpc', Pc.pass] at hpass
  | flags hpc' _ => simp [hpc'] at hpass
  | reset hpc' _ => exact absurd hpc' hbound
  | row hpc' _ => exact absurd hpc' hpc
  | append hpc' _ _ => simp [hpc', Pc.pass] at hpass
  | cross hpc' _ => simp [hpc', Pc.pass] at hpass
  | crossSlope hpc' _ _ => simp [hpc', Pc.pass] at hpass

/-- A row that is done keeps its column. -/
theorem Holds.xs (h : Holds enableLoop mem d s u y) (hu : u.pc.Reset)
    (hv : (code enableLoop u).next mem = some v) : (v.track d).xs y = (u.track d).xs y := by
  by_cases hpc : u.pc = .record d
  · exact rowCase_xs_other (record_rowCase hpc hv) (by have := h.1.lt hpc; omega)
  · rw [(becomes_of_reset hu hpc hv).field Track.xs fun _ => rfl]

theorem Holds.step (h : Holds enableLoop mem d s u y) (hi : Inv u) (hu : u.pc.Reset)
    (hv : (code enableLoop u).next mem = some v) (hv' : v.pc.Reset) :
    Holds enableLoop mem d s v y := by
  have hxs := h.xs hu hv
  obtain ⟨hdone, hset, b, hb, hbu, htracks, hy, hx⟩ := h
  refine ⟨done_step hi hu hv hv' hdone, ?_, b, hb, hbu.step hv, htracks, hy, ?_⟩
  · rwa [hxs]
  · rw [hxs, hx]

/-- A step that leaves base and slope as they are. -/
theorem based_kept_step (hbase : Holds enableLoop mem d s u (u.track d).y0)
    (hslope : (u.track d).mSet = true → Spans enableLoop mem d s u) (hi : Inv u)
    (hu : u.pc.Reset) (hv : (code enableLoop u).next mem = some v) (hv' : v.pc.Reset)
    (hy0 : (v.track d).y0 = (u.track d).y0) (hm : (v.track d).m = (u.track d).m)
    (hmSet : (v.track d).mSet = (u.track d).mSet) :
    Holds enableLoop mem d s v (v.track d).y0 ∧
      ((v.track d).mSet = true → Spans enableLoop mem d s v) := by
  refine ⟨by rw [hy0]; exact hbase.step hi hu hv hv', fun hset => ?_⟩
  obtain ⟨y, hne, hholds, hm0, hline⟩ := hslope (hmSet ▸ hset)
  refine ⟨y, by rwa [hy0], hholds.step hi hu hv hv', by rwa [hm], ?_⟩
  rw [hm, hy0, hholds.xs hu hv, hbase.xs hu hv, hline]

/-- Where the base is set, it stays. -/
theorem based_of_set (h : (u.track d).unset = false) : based d u = u.track d :=
  if_neg (by rw [h]; decide)

/-- A row with a column leaves base and slope as they are calculated for it. -/
theorem recorded_line (d : Side) (u : State) : (recorded d u).y0 = (based d u).y0 ∧
    (recorded d u).m = (sloped d u).m ∧ (recorded d u).mSet = (sloped d u).mSet := by
  unfold recorded countRow
  dsimp only
  have hy0 : (sloped d u).y0 = (based d u).y0 := by
    unfold sloped
    dsimp only
    split <;> rfl
  split <;> exact ⟨hy0, rfl, rfl⟩

/-- A row with a column. -/
theorem based_found {w : Track} (hi : Inv u) (htracks : Tracks d u) (hsound : Sound d u)
    (hu : Goto.Visits (code enableLoop) mem s u) (h : Based enableLoop mem d s u)
    (hv : (code enableLoop u).next mem = some v) (hends : EndsWith d w v)
    (hw : w.y0 = (recorded d u).y0 ∧ w.m = (recorded d u).m ∧ w.mSet = (recorded d u).mSet ∧
      w.xs = (recorded d u).xs) : Based enableLoop mem d s v := by
  intro hv' _
  have hreset : u.pc.Reset := by simp [htracks.1, Pc.Reset, Pc.pass]
  obtain ⟨hline0, hlinem, hlineSet⟩ := recorded_line d u
  have hy0 : (v.track d).y0 = (based d u).y0 := by
    rw [hends.field Track.y0 fun _ => rfl, hw.1, hline0]
  have hm : (v.track d).m = (sloped d u).m := by
    rw [hends.field Track.m fun _ => rfl, hw.2.1, hlinem]
  have hmSet : (v.track d).mSet = (sloped d u).mSet := by
    rw [hends.field Track.mSet fun _ => rfl, hw.2.2.1, hlineSet]
  have hxs : (v.track d).xs = Function.update (u.track d).xs u.y (u.track d).x := by
    rw [hends.field Track.xs fun _ => rfl, hw.2.2.2, recorded_xs]
  -- the row itself
  have hrow : SetsBase d u ∨ SetsSlope d u → Holds enableLoop mem d s v u.y := by
    intro hsets
    refine ⟨done_record hi htracks.1 hv, ?_, u, hu, (Goto.Visits.refl u).step hv, htracks, rfl, ?_⟩
    · rw [hxs, Function.update_self]
      exact hsound.2.2.1 hsets
    · rw [hxs, Function.update_self]
  by_cases hunset : (u.track d).unset = true
  · -- it is the base, and there is no slope
    have hsets : SetsBase d u := ⟨htracks.1, htracks.2.2, hunset⟩
    have hset := hsound.1 hsets
    have hbase : (based d u).y0 = u.y := by
      unfold based
      dsimp only
      rw [if_pos hunset]
    have hnot : ¬ Slopes d u := fun hslopes => hslopes.1 (by rw [hbase]; omega)
    refine ⟨by rw [hy0, hbase]; exact hrow (.inl hsets), fun hon => ?_⟩
    rw [hmSet, sloped, if_neg hnot, (based_kept d u).2.2.1, hset.2] at hon
    cases hon
  · have hunset' : (u.track d).unset = false := by simpa using hunset
    have hbased := based_of_set hunset'
    obtain ⟨hbase, hslope⟩ := h hreset hunset'
    rw [hbased] at hy0
    by_cases hslopes : Slopes d u
    · -- the slope is that between the base and the row
      have hlt := hbase.1.lt htracks.1
      have hne : (u.track d).x ≠ (u.track d).xs (u.track d).y0 := by
        have hcol := hsound.2.1 ⟨htracks, hslopes⟩
        rwa [hbased] at hcol
      have hvalue : (v.track d).m =
          (((u.track d).x - (u.track d).xs (u.track d).y0 : ℤ) : ℚ) /
            ((u.y - (u.track d).y0 : ℤ) : ℚ) := by
        rw [hm, sloped, if_pos hslopes, hbased]
      refine ⟨by rw [hy0]; exact hbase.step hi hreset hv hv', fun _ =>
        ⟨u.y, ?_, hrow (.inr ⟨htracks, hslopes⟩), ?_, ?_⟩⟩
      · rw [hy0]
        omega
      · rw [hvalue]
        refine div_ne_zero ?_ ?_
        · exact_mod_cast sub_ne_zero.mpr hne
        · exact_mod_cast (by omega : u.y - (u.track d).y0 ≠ 0)
      · rw [hvalue, hy0, hbase.xs hreset hv, hxs, Function.update_self]
    · refine based_kept_step hbase hslope hi hreset hv hv' hy0 ?_ ?_
      · rw [hm, sloped, if_neg hslopes, hbased]
      · rw [hmSet, sloped, if_neg hslopes, hbased]

/-- A row of the side. -/
theorem based_record (hi : Inv u) (hpc : u.pc = .record d) (hsound : Sound d u)
    (hu : Goto.Visits (code enableLoop) mem s u) (h : Based enableLoop mem d s u)
    (hv : (code enableLoop u).next mem = some v) : Based enableLoop mem d s v := by
  have hreset : u.pc.Reset := by simp [hpc, Pc.Reset, Pc.pass]
  -- a row that is lost does not set the base
  have hlostRow : ∀ {w : Track}, (u.track d).x ≠ d.edge → u.lost = true → EndsWith d w v →
      w.y0 = (based d u).y0 → w.m = (based d u).m → w.mSet = (based d u).mSet →
      Based enableLoop mem d s v := by
    intro w hx hlost hends hy0 hm hmSet hv' _
    have hunset : (u.track d).unset = false := by
      by_contra hset
      have hfound := (hsound.1 ⟨hpc, hx, by simpa using hset⟩).1
      rw [hlost] at hfound
      cases hfound
    obtain ⟨hbase, hslope⟩ := h hreset hunset
    rw [based_of_set hunset] at hy0 hm hmSet
    refine based_kept_step hbase hslope hi hreset hv hv' ?_ ?_ ?_
    · rw [hends.field Track.y0 fun _ => rfl, hy0]
    · rw [hends.field Track.m fun _ => rfl, hm]
    · rw [hends.field Track.mSet fun _ => rfl, hmSet]
  cases record_rowCase hpc hv with
  | edge _ hends =>
    intro _ hunset
    rw [hends.field Track.unset fun _ => rfl] at hunset
    cases hunset
  | stopped hx hlost _ hends => exact hlostRow hx hlost hends rfl rfl rfl
  | extrapolated hx hlost _ _ hends => exact hlostRow hx hlost hends rfl rfl rfl
  | lost hx hlost _ _ hends => exact hlostRow hx hlost hends rfl rfl rfl
  | found hx hlost hends =>
    exact based_found hi ⟨hpc, hlost, hx⟩ hsound hu h hv hends ⟨rfl, rfl, rfl, rfl⟩
  | curve hx hlost _ _ hends =>
    exact based_found hi ⟨hpc, hlost, hx⟩ hsound hu h hv hends ⟨rfl, rfl, rfl, rfl⟩

/-- Each stretch of code keeps what is known of base and slope. -/
theorem step_based (hi : Inv u) (hsound : Sound d u) (hu : Goto.Visits (code enableLoop) mem s u)
    (h : Based enableLoop mem d s u) (hv : (code enableLoop u).next mem = some v) :
    Based enableLoop mem d s v := by
  by_cases hpc : u.pc = .record d
  · exact based_record hi hpc hsound hu h hv
  · intro hv' hunset
    rcases Pc.reset_of_succs v.pc (next_succs hv) hv' with hbound | hreset
    · -- the pass begins without a base
      have hreset : Leads mem (fun v => (v.track d).unset = true) (code enableLoop u) := by
        simp only [code, hbound, normalBound, Act.sat_goto]
        cases d <;> rfl
      rw [hreset.next hv] at hunset
      cases hunset
    · have hkept := becomes_of_reset hreset hpc hv
      have hunset' : (u.track d).unset = false := by
        rwa [hkept.field Track.unset fun _ => rfl] at hunset
      obtain ⟨hbase, hslope⟩ := h hreset hunset'
      refine based_kept_step hbase hslope hi hreset hv hv' ?_ ?_ ?_
      · exact hkept.field Track.y0 fun _ => rfl
      · exact hkept.field Track.m fun _ => rfl
      · exact hkept.field Track.mSet fun _ => rfl

/-! ## The law -/

/-- A line that is in the image has its columns there. -/
theorem lineAt_range {w : Track} (hlow : xMin ≤ line w y) (hhigh : line w y < xMax + 1) :
    xMin ≤ lineAt w y ∧ lineAt w y ≤ xMax := by
  have hpos : 0 ≤ line w y := le_trans (by norm_num) hlow
  have htrunc : lineAt w y = ⌊line w y⌋ := trunc_of_nonneg hpos
  rw [htrunc]
  refine ⟨Int.le_floor.mpr hlow, Int.lt_add_one_iff.mp (Int.floor_lt.mpr ?_)⟩
  push_cast
  exact hhigh

/-- A road whose left border moves inwards by one column in row 117, and has a gap in row 116; the
first pixel of a row is road too. -/
def nick : Image := fun y x => decide (x = 0 ∨
  (x ≤ 150 ∧ (if y = 117 then 51 else if y = 116 then 58 else 50) ≤ x))

/-- The same, with a gap in row 118 as well. -/
def nicks : Image := fun y x => decide (x = 0 ∨
  (x ≤ 150 ∧ (if y = 117 then 51 else if y = 116 then 58 else if y = 118 then 57 else 50) ≤ x))

end SmartCar.MtImage

import SmartCar.MtImage.Range

/-!
# mt_image: the pixels that the track search reads

`search` reads only pixels, and uses only entries of its tables, if and only if each of
its scans meets one of its own limits before the border of the image (`ScanOk`).

* `OnWay` is a scan along a row under way, and the `_walk` lemmas say how far it gets;
* `scanOk_of_inBounds`: in a run that stays in bounds each scan meets such a limit;
* `reads_in_image_iff` is the law.
-/

namespace SmartCar.MtImage

open CInt Scan

variable {enableLoop : Bool} {mem : Cell → UInt8} {s : State} {d : Side}

/-- From `s` on, `search` reads only pixels and uses only entries of its tables. -/
abbrev InBounds (enableLoop : Bool) (mem : Cell → UInt8) (s : State) : Prop :=
  Goto.Confined (code enableLoop) mem InImage InTable s

/-! ## Scans along a row -/

/-- The run goes through a state at label `p`, in the row of `s`, with the cursor of side
`d` moved on by `k` steps of `σ` and `dx` by `k` steps of `δ`. -/
def OnWay (enableLoop : Bool) (mem : Cell → UInt8) (p : Pc) (d : Side) (σ δ : ℤ) (s : State)
    (k : ℕ) : Prop :=
  ∃ t, InBounds enableLoop mem t ∧ t.pc = p ∧ t.y = s.y ∧
    (t.track d).x = (s.track d).x + σ * k ∧ t.dx = s.dx + δ * k

theorem onWay_zero {p : Pc} {σ δ : ℤ} (hb : InBounds enableLoop mem s) (hpc : s.pc = p) :
    OnWay enableLoop mem p d σ δ s 0 :=
  ⟨s, hb, hpc, rfl, by simp, by simp⟩

variable {k : ℕ}

theorem inward_range (h : OnWay enableLoop mem (.inward d) d d.sgn d.sgn s k) :
    0 ≤ (s.track d).x + d.sgn * k ∧ (s.track d).x + d.sgn * k < 188 := by
  rcases h with ⟨t, hb, hpc, -, hx, -⟩
  have hsat := hb.sat
  simp only [code, hpc, inward, sat_px, InImage] at hsat
  rw [← hx]
  exact hsat.1.2.2

/-- One column on. -/
theorem inward_succ (hdx : s.dx = 0) (hk : k < 5)
    (h : OnWay enableLoop mem (.inward d) d d.sgn d.sgn s k)
    (hempty : mem (s.y, (s.track d).x + d.sgn * k) = EMPTY) :
    OnWay enableLoop mem (.inward d) d d.sgn d.sgn s (k + 1) := by
  have hrange := inward_range h
  rcases h with ⟨t, hb, hpc, hy, hx, htdx⟩
  rw [← hy, ← hx] at hempty
  have hne : t.dx ≠ d.sgn * dxBdMax := by cases d <;> simp at htdx ⊢ <;> omega
  have hsat := hb.sat
  simp only [code, hpc, inward, sat_px, Act.sat_ite, Act.sat_goto] at hsat
  have hnext := (hsat.2.1 hempty).2 hne
  have hpc' : (t.setX d (u8 ((t.track d).x + d.sgn))).pc = .inward d := by cases d <;> exact hpc
  -- the next state reads too, so the cursor has not wrapped
  have hread := inward_range (onWay_zero hnext hpc')
  refine ⟨_, hnext, hpc', ?_, ?_, ?_⟩
  · cases d <;> exact hy
  · cases d <;> simp [u8] at hx hread hrange ⊢ <;> omega
  · cases d <;> simp [i16, hdx] at htdx ⊢ <;> omega

/-- The inward scan of the left border reads 5 columns from where it has begun, or
meets road. -/
theorem inward_left_walk (hb : InBounds enableLoop mem s) (hpc : s.pc = .inward .left)
    (hdx : s.dx = 0) : s.l.x + (5 : ℕ) ≤ 187 ∨ RoadInRow mem s.y s.l.x 187 := by
  refine within_of_walk_up (onWay_zero (d := .left) (σ := 1) (δ := 1) hb hpc)
    (fun k h => ?_) fun k hk h hroad => ?_
  · have hrange := inward_range h
    simp at hrange
    omega
  · exact inward_succ hdx hk h (by simpa using hroad)

/-- The inward scan of the right border, the other way. -/
theorem inward_right_walk (hb : InBounds enableLoop mem s) (hpc : s.pc = .inward .right)
    (hdx : s.dx = 0) : 0 ≤ s.r.x - (5 : ℕ) ∨ RoadInRow mem s.y 0 s.r.x := by
  refine within_of_walk_down (onWay_zero (d := .right) (σ := -1) (δ := -1) hb hpc)
    (fun k h => ?_) fun k hk h hroad => ?_
  · have hrange := inward_range h
    simp at hrange
    omega
  · exact inward_succ hdx hk h (by simpa [sub_eq_add_neg] using hroad)

theorem inward_scanOk (hb : InBounds enableLoop mem s) (hpc : s.pc = .inward d) :
    ScanOk mem s := by
  have hsat := hb.sat
  simp only [code, hpc] at hsat
  cases d with
  | left =>
    simp only [ScanOk, hpc]
    intro hdx
    have hwalk := inward_left_walk hb hpc hdx
    simp [inward, inwardEnd, InImage, hdx] at hsat
    refine ⟨by omega, hwalk.imp_left (by omega), fun h0 => ?_⟩
    -- on road at column 0 the outward scan reads the column before it
    by_contra hroad
    rw [h0] at hsat
    have hout := ((hsat.2.2 hroad).2 (by decide)).sat
    simp [code, outward, InImage, h0] at hout
  | right =>
    simp only [ScanOk, hpc]
    intro hdx
    have hwalk := inward_right_walk hb hpc hdx
    simp [inward, inwardEnd, InImage, hdx] at hsat
    refine ⟨by omega, hwalk.imp_left (by omega), fun h187 => ?_⟩
    by_contra hroad
    rw [h187] at hsat
    have hout := ((hsat.2.2 hroad).2 (by decide)).sat
    simp [code, outward, InImage, h187] at hout

/-! ## The lateral exit -/

theorem exitProbe_scanOk (hb : InBounds enableLoop mem s) (hpc : s.pc = .exitProbe d) :
    ScanOk mem s := by
  have hsat := hb.sat
  simp only [code, hpc, exitProbe, Act.sat_ite, sat_px, InImage] at hsat
  simp only [ScanOk, hpc]
  intro hprobe
  have := (hsat.1 hprobe).1
  omega

/-- The scan down reads 2 rows from where it has begun, or meets road. -/
theorem exitDown_walk (hb : InBounds enableLoop mem s) (hpc : s.pc = .exitDown d)
    (hdy : s.dy = 0) : s.yc + (2 : ℕ) ≤ 119 ∨ RoadInColumn mem s.xc s.yc 119 := by
  refine within_of_walk_up (S := fun k => ∃ t, InBounds enableLoop mem t ∧
    t.pc = .exitDown d ∧ t.xc = s.xc ∧ t.yc = s.yc + k ∧ t.dy = k)
    ⟨s, hb, hpc, rfl, by simp, hdy⟩ ?_ ?_
  · rintro k ⟨t, hb, hpc, hx, hy, hdy⟩
    have hsat := hb.sat
    simp only [code, hpc, exitDown, sat_px, InImage] at hsat
    omega
  · rintro k hk ⟨t, hb, hpc, hx, hy, hdy⟩ hroad
    have hempty : mem (t.yc, t.xc) = EMPTY := by
      rw [hx, hy]
      exact not_not.mp hroad
    have hdy' : u8 (t.dy + 1) = t.dy + 1 := u8_of_range (by omega)
    have hne : t.dy + 1 ≠ 3 := by omega
    have hsat := hb.sat
    simp [code, hpc, exitDown, InImage, hempty, hdy', hne] at hsat
    refine ⟨_, hsat.2, rfl, hx, ?_, ?_⟩
    · show u8 (t.yc + 1) = s.yc + (k + 1 : ℕ)
      rw [u8_of_range (by omega)]
      omega
    · show t.dy + 1 = (k + 1 : ℕ)
      omega

theorem exitColumn_scanOk (hb : InBounds enableLoop mem s) (hpc : s.pc = .exitColumn d) :
    ScanOk mem s := by
  have hsat := hb.sat
  simp only [code, hpc, exitColumn, Act.sat_ite, Act.sat_goto] at hsat
  simp only [ScanOk, hpc]
  intro hin
  exact (exitDown_walk (hsat.1 hin) rfl rfl).imp_left (by intro h; dsimp only at h; omega)

/-! ## The corner of a loop -/

/-- A climb that begins above row 30 misses its limit. -/
theorem cornerUp_walk (hb : InBounds enableLoop mem s) (hpc : s.pc = .cornerUp d)
    (hy : s.y < 30) : GapInColumn mem (s.track d).x 0 (s.y - 1) := by
  refine (within_of_walk_down (n := 30) (S := fun k => ∃ t, InBounds enableLoop mem t ∧
    t.pc = .cornerUp d ∧ (t.track d).x = (s.track d).x ∧ t.y = s.y - k)
    ⟨s, hb, hpc, rfl, by simp⟩ ?_ ?_).resolve_left (by omega)
  · rintro k ⟨t, hb, hpc, hx, hty⟩
    have hsat := hb.sat
    simp only [code, hpc, cornerUp, sat_px, InImage] at hsat
    omega
  · rintro k hk ⟨t, hb, hpc, hx, hty⟩ hroad
    have hroad' : mem (t.y - 1, (t.track d).x) ≠ EMPTY := by
      rw [hx, hty, show s.y - k - 1 = s.y - 1 - k by omega]
      exact hroad
    have hne : t.y ≠ 30 := by omega
    have hsat := hb.sat
    simp only [code, hpc, cornerUp, sat_px, Act.sat_ite, Act.sat_goto, InImage] at hsat
    refine ⟨_, (hsat.2.1 hroad').2 hne, rfl, ?_, ?_⟩
    · rw [← hx]
      cases d <;> rfl
    · show u8 (t.y - 1) = s.y - (k + 1 : ℕ)
      rw [u8_of_range (by omega)]
      omega

theorem corner_scanOk (ha : Ahead mem (.corner d) s) (hb : InBounds enableLoop mem s)
    (hpc : s.pc = .corner d) : ScanOk mem s := by
  rcases ha with ⟨-, hcount⟩
  have hup : u8 (s.upCount + 1) = s.upCount + 1 := u8_of_range (by omega)
  have hsat := hb.sat
  simp only [code, hpc, corner, sat_px, Act.sat_ite, InImage, hup] at hsat
  simp only [ScanOk, hpc]
  intro hlimit
  rcases hsat.2 hlimit with ⟨hread, hroad, -⟩
  refine ⟨by omega, ?_⟩
  by_contra hnone
  push Not at hnone
  rcases hnone with ⟨hlast, hlow, hgap⟩
  have hmem : mem (s.y - 1, (s.track d).x) ≠ EMPTY := fun hempty =>
    hgap ⟨s.y - 1, by omega, le_rfl, hempty⟩
  have hlt : s.y - 1 < 30 := by omega
  have hu : u8 (s.y - 1) = s.y - 1 := u8_of_range (by omega)
  have hclimb := (hroad hmem).2 (by simp only [lpUpCountMax]; omega)
  -- the climb begins at row 29 or above it
  have hwalk : GapInColumn mem (s.track d).x 0 (u8 (s.y - 1) - 1) := by
    cases d <;> exact cornerUp_walk hclimb rfl (by show u8 (s.y - 1) < 30; omega)
  rcases hwalk with ⟨i, hi, hiy, hempty⟩
  exact hgap ⟨i, hi, by omega, hempty⟩

/-- The scan down on the left has no other limit than road. -/
theorem cornerDown_walk (hb : InBounds enableLoop mem s) (hpc : s.pc = .cornerDown .left)
    (hy0 : 0 ≤ s.y) (hy : s.y = s.y1) : RoadInColumn mem s.l.x s.y 119 := by
  refine (within_of_walk_up (n := 120) (S := fun k => ∃ t, InBounds enableLoop mem t ∧
    t.pc = .cornerDown .left ∧ t.l.x = s.l.x ∧ t.y1 = s.y ∧ t.y = s.y + k)
    ⟨s, hb, hpc, rfl, hy.symm, by simp⟩ ?_ ?_).resolve_left (by omega)
  · rintro k ⟨t, hb, hpc, hx, hy1, hty⟩
    have hsat := hb.sat
    simp only [code, hpc, cornerDown, sat_px, InImage] at hsat
    omega
  · rintro k hk ⟨t, hb, hpc, hx, hy1, hty⟩ hroad
    have hempty : mem (t.y, t.l.x) = EMPTY := by
      rw [hx, hty]
      exact not_not.mp hroad
    have hne : t.y ≠ t.y1 - 3 := by omega
    have hsat := hb.sat
    simp [code, hpc, cornerDown, InImage, hempty, hne] at hsat
    refine ⟨_, hsat.2, rfl, hx, hy1, ?_⟩
    show u8 (t.y + 1) = s.y + (k + 1 : ℕ)
    rw [u8_of_range (by omega)]
    omega

theorem cornerDown_scanOk (h : Inv s) (hb : InBounds enableLoop mem s)
    (hpc : s.pc = .cornerDown d) : ScanOk mem s := by
  cases d with
  | left =>
    simp only [ScanOk, hpc]
    exact cornerDown_walk hb hpc h.ranges.y.1
  | right => simp only [ScanOk, hpc]

/-! ## A row of a crossing -/

theorem crossIn_range (h : OnWay enableLoop mem (.crossIn d) d d.sgn 0 s k) :
    0 ≤ (s.track d).x + d.sgn * k ∧ (s.track d).x + d.sgn * k < 188 := by
  rcases h with ⟨t, hb, hpc, -, hx, -⟩
  have hsat := hb.sat
  simp only [code, hpc, crossIn, sat_px, InImage] at hsat
  rw [← hx]
  exact hsat.1.2.2

theorem crossIn_succ (h : OnWay enableLoop mem (.crossIn d) d d.sgn 0 s k)
    (hempty : mem (s.y, (s.track d).x + d.sgn * k) = EMPTY) :
    OnWay enableLoop mem (.crossIn d) d d.sgn 0 s (k + 1) := by
  have hrange := crossIn_range h
  rcases h with ⟨t, hb, hpc, hy, hx, hdx⟩
  rw [← hy, ← hx] at hempty
  have hsat := hb.sat
  simp only [code, hpc, crossIn, sat_px, Act.sat_ite, Act.sat_goto] at hsat
  have hnext := hsat.2.1 hempty
  have hpc' : (t.setX d (u8 ((t.track d).x + d.sgn))).pc = .crossIn d := by
    cases d <;> exact hpc
  have hread := crossIn_range (onWay_zero hnext hpc')
  refine ⟨_, hnext, hpc', ?_, ?_, ?_⟩
  · cases d <;> exact hy
  · cases d <;> simp [u8] at hx hread hrange ⊢ <;> omega
  · cases d <;> simpa using hdx

/-- The inward scan of a crossing has no other limit than road. -/
theorem crossIn_left_walk (hb : InBounds enableLoop mem s) (hpc : s.pc = .crossIn .left)
    (hx : 0 ≤ s.l.x) : RoadInRow mem s.y s.l.x 187 := by
  refine (within_of_walk_up (n := 188) (onWay_zero (d := .left) (σ := 1) (δ := 0) hb hpc)
    (fun k h => ?_) fun k _ h hroad => ?_).resolve_left (by omega)
  · have hrange := crossIn_range h
    simp at hrange
    omega
  · exact crossIn_succ h (by simpa using hroad)

theorem crossIn_right_walk (hb : InBounds enableLoop mem s) (hpc : s.pc = .crossIn .right) :
    RoadInRow mem s.y 0 s.r.x := by
  have hread := crossIn_range (onWay_zero hb hpc)
  simp at hread
  refine (within_of_walk_down (n := 188) (onWay_zero (d := .right) (σ := -1) (δ := 0) hb hpc)
    (fun k h => ?_) fun k _ h hroad => ?_).resolve_left (by omega)
  · have hrange := crossIn_range h
    simp at hrange
    omega
  · exact crossIn_succ h (by simpa [sub_eq_add_neg] using hroad)

theorem crossOut_range (h : OnWay enableLoop mem (.crossOut d) d (-d.sgn) 1 s k) :
    0 ≤ (s.track d).x + -d.sgn * k - d.sgn ∧ (s.track d).x + -d.sgn * k - d.sgn < 188 := by
  rcases h with ⟨t, hb, hpc, -, hx, -⟩
  have hsat := hb.sat
  simp only [code, hpc, crossOut, sat_px, InImage] at hsat
  rw [← hx]
  exact hsat.1.2.2

theorem crossOut_succ (hdx : s.dx = 0) (hk : k < 5)
    (h : OnWay enableLoop mem (.crossOut d) d (-d.sgn) 1 s k)
    (hroad : mem (s.y, (s.track d).x + -d.sgn * k - d.sgn) ≠ EMPTY) :
    OnWay enableLoop mem (.crossOut d) d (-d.sgn) 1 s (k + 1) := by
  have hrange := crossOut_range h
  rcases h with ⟨t, hb, hpc, hy, hx, htdx⟩
  rw [← hy, ← hx] at hroad
  have hne : t.dx ≠ dxBdMax := by simp at htdx ⊢; omega
  have hsat := hb.sat
  simp only [code, hpc, crossOut, sat_px, Act.sat_ite, Act.sat_goto] at hsat
  have hnext := (hsat.2.1 hroad).2 hne
  refine ⟨_, hnext, ?_, ?_, ?_, ?_⟩
  · cases d <;> exact hpc
  · cases d <;> exact hy
  · cases d <;> simp [u8] at hx hrange ⊢ <;> omega
  · simp [i16, hdx] at htdx ⊢
    omega

/-- The outward scan of a crossing reads 5 columns more, or meets a gap. -/
theorem crossOut_left_walk (hb : InBounds enableLoop mem s) (hpc : s.pc = .crossOut .left)
    (hdx : s.dx = 0) : 0 ≤ s.l.x - 1 - (5 : ℕ) ∨ GapInRow mem s.y 0 (s.l.x - 1) := by
  refine within_of_walk_down (onWay_zero (d := .left) (σ := -1) (δ := 1) hb hpc)
    (fun k h => ?_) fun k hk h hgap => ?_
  · have hrange := crossOut_range h
    simp at hrange
    omega
  · refine crossOut_succ hdx hk h ?_
    rw [show (s.track .left).x + -Side.left.sgn * k - Side.left.sgn = s.l.x - 1 - k by simp; omega]
    exact hgap

theorem crossOut_right_walk (hb : InBounds enableLoop mem s) (hpc : s.pc = .crossOut .right)
    (hdx : s.dx = 0) : s.r.x + 1 + (5 : ℕ) ≤ 187 ∨ GapInRow mem s.y (s.r.x + 1) 187 := by
  refine within_of_walk_up (onWay_zero (d := .right) (σ := 1) (δ := 1) hb hpc)
    (fun k h => ?_) fun k hk h hgap => ?_
  · have hrange := crossOut_range h
    simp at hrange
    omega
  · refine crossOut_succ hdx hk h ?_
    rw [show (s.track .right).x + -Side.right.sgn * k - Side.right.sgn = s.r.x + 1 + k by
      simp; omega]
    exact hgap

theorem crossOut_scanOk (hb : InBounds enableLoop mem s) (hpc : s.pc = .crossOut d) :
    ScanOk mem s := by
  have hsat := hb.sat
  simp only [code, hpc, crossOut, crossOutEnd, sat_px, Act.sat_ite, InImage] at hsat
  rcases hsat with ⟨hread, -, hempty⟩
  cases d with
  | left =>
    simp only [ScanOk, hpc]
    intro hdx
    have hwalk := crossOut_left_walk hb hpc hdx
    simp at hread hempty
    refine ⟨by omega, by omega, fun hmem => ?_, fun _ => hwalk.imp_left (by omega)⟩
    have hroad := crossIn_left_walk ((hempty hmem).1 hdx) rfl (by show 0 ≤ s.l.x; omega)
    exact hroad
  | right =>
    simp only [ScanOk, hpc]
    intro hdx
    have hwalk := crossOut_right_walk hb hpc hdx
    simp at hread hempty
    refine ⟨by omega, fun hmem => ?_, fun _ => hwalk.imp_left (by omega)⟩
    have hroad := crossIn_right_walk ((hempty hmem).1 hdx) rfl
    exact hroad

/-! ## The midline -/

theorem lt_of_midRow (hb : InBounds enableLoop mem s) (hpc : s.pc = .midRow)
    (hge : s.y ≥ s.yStart) : s.y < 120 := by
  have hsat := hb.sat
  simp only [code, hpc, midRow, midline, hge, if_true, Act.sat_touch, InTable] at hsat
  exact hsat.1.2

/-- Rows that go down to `y_start = 0` go on with row 255. -/
theorem not_inBounds_of_midRow (n : ℕ) (hpc : s.pc = .midRow) (hstart : s.yStart = 0)
    (hy : s.y = n) : ¬ InBounds enableLoop mem s := by
  induction n generalizing s with
  | zero =>
    intro hb
    rcases midRow_next enableLoop mem hpc (by omega) with ⟨s', hnext, hrow⟩
    have hy' : s'.y = 255 := by
      rw [hrow.y, hy]
      decide
    have hlt := lt_of_midRow (hb.sat.next hnext) hrow.pc (by rw [hrow.yStart]; omega)
    omega
  | succ n ih =>
    intro hb
    have hlt := lt_of_midRow hb hpc (by omega)
    rcases midRow_next enableLoop mem hpc (by omega) with ⟨s', hnext, hrow⟩
    have hy' : s'.y = n := by
      rw [hrow.y, u8_of_range (by omega), hy]
      omega
    exact ih hrow.pc (hrow.yStart.trans hstart) hy' (hb.sat.next hnext)

theorem mid_scanOk (h : Inv s) (hb : InBounds enableLoop mem s) (hpc : s.pc = .mid) :
    ScanOk mem s := by
  have hsat := hb.sat
  simp only [code, hpc, mid, Act.sat_goto] at hsat
  simp only [ScanOk, hpc]
  have hstart := h.ranges.yStart.1
  have hend := h.ranges.yEnd.1
  by_contra hlt
  exact not_inBounds_of_midRow s.yEnd.toNat rfl (by show s.yStart = 0; omega)
    (Int.toNat_of_nonneg hend).symm hsat

/-- In a run that stays in bounds, each scan meets a limit of its own. -/
theorem scanOk_of_inBounds (h : Inv s) (ha : Ahead mem s.pc s)
    (hb : InBounds enableLoop mem s) : ScanOk mem s := by
  cases hpc : s.pc with
  | inward d => exact inward_scanOk hb hpc
  | exitProbe d => exact exitProbe_scanOk hb hpc
  | exitColumn d => exact exitColumn_scanOk hb hpc
  | corner d => exact corner_scanOk (hpc ▸ ha) hb hpc
  | cornerDown d => exact cornerDown_scanOk h hb hpc
  | crossOut d => exact crossOut_scanOk hb hpc
  | mid => exact mid_scanOk h hb hpc
  | _ => simp only [ScanOk, hpc]

/-! ## The law -/

theorem ahead_of_start (h : Start s) : Ahead mem s.pc s := by
  simp [h.pc]

/-- `search` reads only pixels, and uses only entries of its tables, if and only if each
scan that it begins meets a limit of its own. -/
theorem reads_in_image_iff (image : Image) (beyond : ℤ → UInt8) (enableLoop : Bool) (s : State)
    (h : Start s) :
    (∀ t, Goto.Visits (code enableLoop) (memory image beyond) s t →
        (∀ c ∈ (code enableLoop t).reads (memory image beyond), InImage c) ∧
        ∀ e ∈ (code enableLoop t).touches (memory image beyond), InTable e) ↔
      ∀ t, Goto.Visits (code enableLoop) (memory image beyond) s t →
        ScanOk (memory image beyond) t := by
  constructor
  · intro hb t ht
    have hahead : ∀ t, Goto.Visits (code enableLoop) (memory image beyond) s t →
        Ahead (memory image beyond) t.pc t ∧ InBounds enableLoop (memory image beyond) t := by
      refine Goto.visits_induction _ ⟨ahead_of_start h, hb⟩ ?_
      rintro u u' hu ⟨ha, hb⟩ hnext
      have hinv := inv_visits h.inv hu
      have hok := scanOk_of_inBounds hinv ha hb
      exact ⟨(step_ahead enableLoop hinv ha hok).next hnext, hb.sat.next hnext⟩
    exact scanOk_of_inBounds (inv_visits h.inv ht) (hahead t ht).1 (hahead t ht).2
  · intro hok
    exact Goto.confined_of_sat (Q := fun t => Ahead (memory image beyond) t.pc t)
      (ahead_of_start h) fun t ht ha => step_ahead enableLoop (inv_visits h.inv ht) ha (hok t ht)

/-- A crossing whose bar is two rows high. -/
def crossing : Image := fun y x =>
  decide (y = 119 ∧ (x = 0 ∨ x = 93) ∨ y = 50 ∧ 90 ≤ x ∧ x ≤ 96 ∨ y = 51 ∧ 80 ≤ x ∧ x ≤ 106)

theorem reads_in_image_crossing :
    Start (called .cross) ∧
      ∀ t, Goto.Visits (code false) (memory crossing fun _ => EMPTY) (called .cross) t →
        (∀ c ∈ (code false t).reads (memory crossing fun _ => EMPTY), InImage c) ∧
        ∀ e ∈ (code false t).touches (memory crossing fun _ => EMPTY), InTable e := by
  have hstart : Start (called .cross) := start_called (by decide)
  refine ⟨hstart, (reads_in_image_iff crossing (fun _ => EMPTY) false (called .cross) hstart).mpr
    fun t ht => ?_⟩
  have hrun : Goto.checkRun (code false) (memory crossing fun _ => EMPTY)
      (fun t => decide (ScanOk (memory crossing fun _ => EMPTY) t)) 100 (called .cross) = true := by
    decide +kernel
  exact of_decide_eq_true (Goto.visits_of_checkRun hrun t ht)

/-- Road at the right edge of the bottom row alone. -/
def farRight : Image := fun y x => decide (y = 119 ∧ (x = 0 ∨ x = 185))

/-- The inward scan of the left border leaves row 118 on the right. -/
theorem farRight_not_in_image :
    Start (called .normal) ∧
      ∃ t, Goto.Visits (code false) (memory farRight fun _ => EMPTY) (called .normal) t ∧
        ∃ c ∈ (code false t).reads (memory farRight fun _ => EMPTY), ¬ InImage c := by
  rcases Goto.exists_visits (code false) (memory farRight fun _ => EMPTY)
    (called .normal) 105 (fun t => decide (∃ c ∈ (code false t).reads
      (memory farRight fun _ => EMPTY), ¬ InImage c)) (by decide +kernel) with ⟨t, ht, hread⟩
  exact ⟨start_called (by decide), t, ht, of_decide_eq_true hread⟩

end SmartCar.MtImage

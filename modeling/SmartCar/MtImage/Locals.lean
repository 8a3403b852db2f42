import SmartCar.MtImage.Same
import SmartCar.MtImage.Mean
import SmartCar.MtImage.Termination

/-!
# mt_image: what the uninitialised variables decide

Two calls of `search` that differ in the contents of its uninitialised variables. Up
to the midline nothing differs that is read (`step_same`); the midline multiplies `xm`
and `dx` before it has assigned them, if the row it begins with has no column.

* `Settled` says that it does not, or that `dx` is 0;
* `RowsSame` relates two runs in the midline, `midRow_same` is its step;
* `determined_of_settled` and `settled_of_determined` are the two directions.
-/

namespace SmartCar.MtImage

open CInt

/-! ## Law and condition -/

/-- A call of `search` with the stored element type and the offset of the frame before;
whatever else its variables hold. -/
structure Call (elementType : ElementType) (offset : F64) (s : State) : Prop where
  start : Start s
  elementType : s.elementType = elementType
  offset : s.offset = offset
  dx : -32768 ≤ s.dx ∧ s.dx < 32768
  xm : -32768 ≤ s.xm ∧ s.xm < 32768

/-- What a call leaves does not depend on what its variables hold at the beginning. -/
def Determined (enableLoop : Bool) (mem : Cell → UInt8) (elementType : ElementType)
    (offset : F64) : Prop :=
  ∀ a b, Call elementType offset a → Call elementType offset b →
    ∀ u, Goto.Halts (code enableLoop) mem a u →
      ∃ v, Goto.Halts (code enableLoop) mem b v ∧ SameResult u v

/-- Row `y` has a column. -/
def HasColumn (s : State) (y : ℤ) : Prop := s.l.xs y ≠ 0 ∨ s.r.xs y ≠ 0

/-- The midline, begun in `m`, does not count what `xm` holds: there are no rows, or the
first of them has a column, or its width is 0. -/
def Settled (m : State) : Prop := m.yEnd < m.yStart ∨ HasColumn m m.yEnd ∨ m.dx = 0

/-- In every call that ends the midline is settled. -/
def AlwaysSettled (enableLoop : Bool) (mem : Cell → UInt8) (elementType : ElementType)
    (offset : F64) : Prop :=
  ∀ a, Call elementType offset a → Goto.Ends (code enableLoop) mem a →
    ∀ m, Goto.Visits (code enableLoop) mem a m → m.pc = .mid → Settled m

/-- The widths of the rows of the midline add up to 0. -/
def Cancels (m : State) : Prop :=
  u16 ((List.range (rowCount m)).map fun k => dxBefore m (k + 1)).sum = 0

/-! ## Two runs in the midline -/

variable {mem : Cell → UInt8} {a b s t : State} {low : ℕ} {δ : ℤ} {F : State → State → Prop}

/-- Two runs are at the same row of the midline. Before the first row with a column each
row adds `δ` to the difference of the sums. -/
@[mk_iff] structure RowsSame (low : ℕ) (δ : ℤ) (s t : State) : Prop where
  pc : s.pc = .midRow
  pc' : t.pc = .midRow
  elementType : t.elementType = s.elementType
  el : t.el = s.el
  kw : t.kw = s.kw
  tables : TablesEq s t
  start : 1 ≤ s.yStart
  yStart : t.yStart = s.yStart
  y : t.y = s.y
  sw : t.sw = s.sw
  dxm : t.dxm = s.dxm
  bothCount : t.bothCount = s.bothCount
  so : ∃ k : ℕ, low ≤ k ∧ t.so = s.so + (k * δ : ℤ)
  middle : s.y < s.yStart ∨ (t.xm = s.xm ∧ t.dx = s.dx) ∨
    s.bothCount = 0 ∧ (HasColumn s s.y ∨ t.dx = s.dx ∧ (t.xm - s.xm) * s.dx = δ)

/-- `t`, with what does not differ written as it is in `s`. -/
def aligned (s t : State) : State :=
  { t with el := s.el, kw := s.kw, y := s.y, sw := s.sw, dxm := s.dxm, bothCount := s.bothCount }

theorem RowsSame.aligned (h : RowsSame low δ s t) : aligned s t = t := by
  simp only [MtImage.aligned, ← h.el, ← h.kw, ← h.y, ← h.sw, ← h.dxm, ← h.bothCount]

theorem RowsSame.keep (h : RowsSame low δ s t) (z : ℤ) :
    ∃ k : ℕ, low ≤ k ∧ t.so + (z : ℚ) = s.so + (z : ℚ) + (k * δ : ℤ) := by
  obtain ⟨k, hk, hso⟩ := h.so
  refine ⟨k, hk, ?_⟩
  rw [hso]
  ring

theorem RowsSame.grow (h : RowsSame low δ s t) {z z' : ℤ} (hz : z' = z + δ) :
    ∃ k : ℕ, low + 1 ≤ k ∧ t.so + (z' : ℚ) = s.so + (z : ℚ) + (k * δ : ℤ) := by
  obtain ⟨k, hk, hso⟩ := h.so
  refine ⟨k + 1, by omega, ?_⟩
  rw [hso, hz]
  push_cast
  ring

/-- The end of a row: its middle and its width are added up. -/
def addRow (s : State) : Go :=
  setImg s.xm s.y MID_LINE <|
    .goto { s with
      so := s.so + ((s.xm - xMid) * s.dx : ℤ), sw := u16 (s.sw + s.dx), y := u8 (s.y - 1) }

/-- Two runs add up a row, with the same middle or with the difference as it was. -/
theorem addRow_same (h : RowsSame low δ s t) {low' : ℕ} {xl xr dx xm xm' dxm bothCount : ℤ}
    (hso : ∃ k : ℕ, low' ≤ k ∧ t.so + (((xm' - xMid) * dx : ℤ) : ℚ) =
      s.so + (((xm - xMid) * dx : ℤ) : ℚ) + (k * δ : ℤ))
    (hxm : xm' = xm ∨ bothCount = 0 ∧ (xm' - xm) * dx = δ) :
    Act.Pair mem (RowsSame low' δ) F
      (addRow { s with
        l := { s.l with x := xl }, r := { s.r with x := xr }, dx := dx, xm := xm, dxm := dxm
        bothCount := bothCount })
      (addRow { aligned s t with
        l := { t.l with x := xl }, r := { t.r with x := xr }, dx := dx, xm := xm', dxm := dxm
        bothCount := bothCount }) := by
  simp only [addRow, pair_setImg, Act.pair_goto]
  refine { h with
    el := rfl, kw := rfl, y := rfl, sw := rfl, dxm := rfl, bothCount := rfl
    so := hso, middle := ?_ }
  rcases hxm with rfl | ⟨hcount, hdiff⟩
  · exact .inr (.inl ⟨rfl, rfl⟩)
  · exact .inr (.inr ⟨hcount, .inr ⟨rfl, hdiff⟩⟩)

/-- A row with one column. -/
theorem midOneSided_same (h : RowsSame low δ s t) {xl xr : ℤ} (x sign : ℤ)
    (hxm : s.bothCount = 0 ∨ t.xm = s.xm) :
    Act.Pair mem (RowsSame low δ) F
      (midOneSided x sign { s with l := { s.l with x := xl }, r := { s.r with x := xr } } addRow)
      (midOneSided x sign
        { aligned s t with l := { t.l with x := xl }, r := { t.r with x := xr } } addRow) := by
  simp only [midOneSided, Act.pair_touch]
  refine Act.Pair.ite Iff.rfl (fun hcount => ?_) fun _ => addRow_same h (h.keep _) (.inl rfl)
  have hkeep : (aligned s t).xm = s.xm := by
    refine hxm.resolve_left ?_
    simp at hcount
    omega
  rw [hkeep]
  exact addRow_same h (h.keep _) (.inl rfl)

/-- A row without a column. -/
theorem midRow_bare (hge : s.y ≥ s.yStart) (hcol : ¬ HasColumn s s.y) :
    midRow s = .touch (.xls s.y) (.touch (.xrs s.y) (addRow { s with
      l := { s.l with x := 0 }, r := { s.r with x := 0 }, bothCount := 0 })) := by
  have hzero : s.l.xs s.y = 0 ∧ s.r.xs s.y = 0 := by
    simp only [HasColumn] at hcol
    tauto
  simp [midRow, midline, addRow, hge, hzero]

/-- The columns of the row. -/
theorem RowsSame.columns (h : RowsSame low δ s t) (hi : Inv s) (hge : s.y ≥ s.yStart) :
    t.l.xs s.y = s.l.xs s.y ∧ t.r.xs s.y = s.r.xs s.y := by
  have hat := hi.at h.pc
  have hstart := h.start
  simp at hat
  exact ⟨h.tables.1 s.y (by omega) (by omega), h.tables.2 s.y (by omega) (by omega)⟩

/-- Two runs in a row without a column: with the same middle, or before the first row
with a column. -/
theorem midRow_bare_same (h : RowsSame low δ s t) (hi : Inv s) (hge : s.y ≥ s.yStart)
    (hcol : ¬ HasColumn s s.y) (hdx : t.dx = s.dx) {low' : ℕ}
    (hmiddle : t.xm = s.xm ∧ low' = low ∨ (t.xm - s.xm) * s.dx = δ ∧ low' = low + 1) :
    Act.Pair mem (RowsSame low' δ) F (midRow s) (midRow t) := by
  obtain ⟨hl, hr⟩ := h.columns hi hge
  have hge' : (aligned s t).y ≥ (aligned s t).yStart := by
    rw [h.aligned, h.y, h.yStart]
    exact hge
  have hcol' : ¬ HasColumn (aligned s t) (aligned s t).y := by
    rw [h.aligned]
    simpa only [HasColumn, h.y, hl, hr] using hcol
  have hdx' : (aligned s t).dx = s.dx := hdx
  rw [midRow_bare hge hcol, ← h.aligned, midRow_bare hge' hcol', hdx']
  simp only [Act.pair_touch]
  rcases hmiddle with ⟨hxm, rfl⟩ | ⟨hdiff, rfl⟩
  · have hxm' : (aligned s t).xm = s.xm := hxm
    rw [hxm']
    exact addRow_same h (h.keep _) (.inl rfl)
  · refine addRow_same h (h.grow ?_) (.inr ⟨rfl, hdiff⟩)
    rw [← hdiff, MtImage.aligned]
    ring

theorem RowsSame.weaken (h : RowsSame (low + 1) δ s t) : RowsSame low δ s t := by
  obtain ⟨k, hk, hso⟩ := h.so
  exact { h with so := ⟨k, by omega, hso⟩ }

theorem midRow_same (h : RowsSame low δ s t) (hi : Inv s) :
    Act.Pair mem (RowsSame low δ) (fun u v => δ = 0 → SameResult u v) (midRow s) (midRow t) := by
  by_cases hge : s.y ≥ s.yStart
  · obtain ⟨hl, hr⟩ := h.columns hi hge
    have hmiddle := h.middle.resolve_left (by omega)
    by_cases hcol : HasColumn s s.y
    · -- `xm` and `dx` are assigned
      have hxm : s.bothCount = 0 ∨ t.xm = s.xm := by tauto
      rw [← h.aligned]
      refine Act.Pair.ite (by rw [h.aligned, h.y, h.yStart]) (fun _ => ?_) fun hlt => absurd hge hlt
      change Act.Pair mem (RowsSame low δ) _ (midline s addRow) (midline (aligned s t) addRow)
      simp only [midline, Act.pair_touch, State.setX, State.setTrack, State.track, aligned, hl, hr]
      simp only [HasColumn] at hcol
      exact Act.Pair.ite Iff.rfl (fun _ => addRow_same h (h.keep _) (.inl rfl)) fun _ =>
        Act.Pair.ite Iff.rfl (fun _ => by tauto) fun _ =>
          Act.Pair.ite Iff.rfl (fun _ => midOneSided_same h _ _ hxm) fun _ =>
            Act.Pair.ite Iff.rfl (fun _ => midOneSided_same h _ _ hxm) fun _ => by tauto
    · rcases hmiddle with ⟨hxm, hdx⟩ | ⟨-, hlead⟩
      · exact midRow_bare_same h hi hge hcol hdx (.inl ⟨hxm, rfl⟩)
      · obtain ⟨hdx, hdiff⟩ := hlead.resolve_left hcol
        exact (midRow_bare_same (F := fun u v => δ = 0 → SameResult u v) h hi hge hcol hdx
          (.inr ⟨hdiff, rfl⟩)).mono (fun _ _ => RowsSame.weaken) fun _ _ => id
  · refine Act.Pair.ite (by rw [h.y, h.yStart]) (fun hge' => absurd hge' hge) fun _ => ?_
    obtain ⟨k, -, hso⟩ := h.so
    simp only [pair_setImg, Act.pair_halt]
    rintro rfl
    exact ⟨h.elementType, by simp [hso, h.sw]⟩

/-! ## Two calls -/

section

variable {enableLoop : Bool} {elementType : ElementType} {offset : F64}

/-- Two runs are at the same row of the midline, whatever they have added up. -/
def RowsAlike (s t : State) : Prop :=
  s.pc = .midRow ∧ t.pc = .midRow ∧ t.y = s.y ∧ t.yStart = s.yStart

theorem same_call (ha : Call elementType offset a) (hb : Call elementType offset b) :
    Same a b a b where
  pc := hb.start.pc.trans ha.start.pc.symm
  elementType := hb.elementType.trans ha.elementType.symm
  xm := ⟨rfl, rfl⟩
  here := by simp [ha.start.pc, ha.offset, hb.offset]

theorem midRow_alike (h : RowsAlike s t) :
    Act.Pair mem RowsAlike (fun _ _ => True) (code enableLoop s) (code enableLoop t) := by
  obtain ⟨hs, ht, hy, hstart⟩ := h
  by_cases hge : s.y ≥ s.yStart
  · rcases midRow_next enableLoop mem hs hge with ⟨s', hnext, hrow⟩
    rcases midRow_next enableLoop mem ht (by rw [hy, hstart]; exact hge) with ⟨t', hnext', hrow'⟩
    exact Act.Pair.of_next hnext hnext'
      ⟨hrow.pc, hrow'.pc, by rw [hrow'.y, hrow.y, hy], by rw [hrow'.yStart, hrow.yStart, hstart]⟩
  · simp [code, hs, ht, midRow, hy, hstart, hge]

/-- The midline begins. -/
theorem mid_alike (h : Same a b s t) (hpc : s.pc = .mid) :
    Act.Pair mem RowsAlike (fun _ _ => True) (code enableLoop s) (code enableLoop t) := by
  have hs := h.live hpc
  simp at hs
  simp [code, hpc, hs, mid, RowsAlike]

/-- Whatever the variables hold, the two runs go the same way. -/
theorem step_alike (h : Same a b s t ∨ RowsAlike s t) (hi : Inv s) :
    Act.Pair mem (fun s t => Same a b s t ∨ RowsAlike s t) (fun _ _ => True)
      (code enableLoop s) (code enableLoop t) := by
  rcases h with hsame | halike
  · by_cases hmid : s.pc = .mid
    · exact (mid_alike hsame hmid).mono (fun _ _ => .inr) fun _ _ => id
    · exact (step_same hsame hi hmid).mono (fun _ _ => .inl) fun _ _ _ => trivial
  · exact (midRow_alike halike).mono (fun _ _ => .inr) fun _ _ => id

theorem visits_twin (h : Same a b a b) (hi : Inv a) (hs : Goto.Visits (code enableLoop) mem a s) :
    ∃ t, Goto.Visits (code enableLoop) mem b t ∧ (Same a b s t ∨ RowsAlike s t) :=
  hs.pair (fun s t => Same a b s t ∨ RowsAlike s t) (.inl h)
    fun _ _ hv _ h => step_alike h (inv_visits hi hv)

theorem ends_twin (h : Same a b a b) (hi : Inv a) (hends : Goto.Ends (code enableLoop) mem a) :
    Goto.Ends (code enableLoop) mem b := by
  rcases Goto.ends_iff_halts.mp hends with ⟨u, hu⟩
  rcases hu.pair (fun s t => Same a b s t ∨ RowsAlike s t) (fun _ _ => True) (.inl h)
    (fun _ _ hv _ h => step_alike h (inv_visits hi hv)) with ⟨v, hv, -⟩
  exact Goto.ends_iff_halts.mpr ⟨v, hv⟩

/-- The head of the midline's loop. -/
def firstRow (m : State) : State :=
  { m with pc := .midRow, so := 0, sw := 0, dxm := 0, bothCount := 0, y := m.yEnd }

theorem mid_next (hpc : s.pc = .mid) : (code enableLoop s).next mem = some (firstRow s) := by
  simp [code, hpc, mid, Act.next, firstRow]

/-- A search that ends does not begin the midline with `y_start = 0`. -/
theorem yStart_pos (ha : Start a) (hends : Goto.Ends (code enableLoop) mem a)
    (hs : Goto.Visits (code enableLoop) mem a s) (hpc : s.pc = .mid) : 1 ≤ s.yStart := by
  have hnonneg := (inv_visits ha.inv hs).ranges.yStart.1
  by_contra hlt
  have hzero : s.yStart = 0 := by omega
  exact hung_traps ha (hs.step (mid_next hpc)) (by simp [Hung, firstRow, hzero]) hends

/-- The midline begins, with `xm` and `dx` as they are. -/
theorem firstRow_same (h : Same a b s t) (hpc : s.pc = .mid) (hstart : 1 ≤ s.yStart)
    (hmiddle : s.yEnd < s.yStart ∨ HasColumn s s.yEnd ∨
      t.dx = s.dx ∧ (t.xm - s.xm) * s.dx = δ) : RowsSame 0 δ (firstRow s) (firstRow t) := by
  obtain ⟨⟨-, het, -⟩, hel, hkw, htables, -, hys, hye⟩ := h.live hpc
  exact
    { pc := rfl, pc' := rfl, elementType := het, el := hel, kw := hkw, tables := htables
      start := hstart, yStart := hys, y := hye, sw := rfl, dxm := rfl, bothCount := rfl
      so := ⟨0, le_rfl, by simp [firstRow]⟩
      middle := hmiddle.imp id fun hmiddle => .inr ⟨rfl, hmiddle⟩ }

/-- What holds of the first row in one run holds in the other. -/
theorem Same.hasColumn (h : Same a b s t) (hi : Inv s) (hpc : s.pc = .mid) :
    (HasColumn t t.yEnd ↔ HasColumn s s.yEnd) ∧ t.yEnd = s.yEnd ∧ t.yStart = s.yStart := by
  obtain ⟨-, -, -, htables, -, hys, hye⟩ := h.live hpc
  have hat := hi.at hpc
  have hend := hi.ranges.yEnd.1
  simp only [At] at hat
  refine ⟨?_, hye, hys⟩
  rw [HasColumn, HasColumn, hye, htables.1 s.yEnd (by omega) (by omega),
    htables.2 s.yEnd (by omega) (by omega)]

/-- Two runs that begin with the same variables leave the same, if the midline does not
count where they differ. -/
theorem Same.halts (h : Same a b s t) (hi : Inv s) {u : State}
    (hu : Goto.Halts (code enableLoop) mem s u)
    (hstart : ∀ m, Goto.Visits (code enableLoop) mem s m → m.pc = .mid → 1 ≤ m.yStart)
    (hmiddle : ∀ m n, Goto.Visits (code enableLoop) mem s m →
      Goto.Visits (code enableLoop) mem t n → Same a b m n → m.pc = .mid →
      m.yEnd < m.yStart ∨ HasColumn m m.yEnd ∨ n.dx = m.dx ∧ (n.xm - m.xm) * m.dx = 0) :
    ∃ v, Goto.Halts (code enableLoop) mem t v ∧ SameResult u v := by
  refine hu.pair (fun m n => Same a b m n ∨ RowsSame 0 0 m n) SameResult (.inl h)
    fun m n hm hn hmn => ?_
  have hinv := inv_visits hi hm
  rcases hmn with hsame | hrows
  · by_cases hmid : m.pc = .mid
    · exact Act.Pair.of_next (mid_next hmid) (mid_next (hsame.pc.trans hmid))
        (.inr (firstRow_same hsame hmid (hstart m hm hmid) (hmiddle m n hm hn hsame hmid)))
    · exact (step_same hsame hinv hmid).mono (fun _ _ => .inl) fun _ _ => id
  · simp only [code, hrows.pc, hrows.pc']
    exact (midRow_same hrows hinv).mono (fun _ _ => .inr) fun _ _ h => h rfl

/-- What the variables hold does not matter if the midline never counts it. -/
theorem determined_of_settled (hsettled : AlwaysSettled enableLoop mem elementType offset) :
    Determined enableLoop mem elementType offset := by
  intro a b ha hb u hu
  have hends : Goto.Ends (code enableLoop) mem a := Goto.ends_iff_halts.mpr ⟨u, hu⟩
  have hsame := same_call ha hb
  refine hsame.halts ha.start.inv hu (fun m hm => yStart_pos ha.start hends hm)
    fun m n hm hn hmn hmid => ?_
  obtain ⟨hiff, hend, hstart⟩ := hmn.hasColumn (inv_visits ha.start.inv hm) hmid
  have hn := hsettled b hb (ends_twin hsame ha.start.inv hends) n hn (hmn.pc.trans hmid)
  rw [Settled, hiff, hend, hstart] at hn
  rcases hsettled a ha hends m hm hmid with hlt | hcol | hdx
  · exact .inl hlt
  · exact .inr (.inl hcol)
  · rcases hn with hlt | hcol | hdx'
    · exact .inl hlt
    · exact .inr (.inl hcol)
    · exact .inr (.inr ⟨by rw [hdx, hdx'], by simp [hdx]⟩)

/-- A run of the midline whose first row has no column and a width: a run in which `xm`
held something else adds up something else. -/
theorem midline_differs {m n f : State} (h : Same a b m n) (hi : Inv m) (hpc : m.pc = .mid)
    (hstart : 1 ≤ m.yStart) (hrows : m.yStart ≤ m.yEnd) (hcol : ¬ HasColumn m m.yEnd)
    (hdx : n.dx = m.dx) (hf : AfterRows enableLoop mem m (rowCount m) f) :
    ∃ g, Goto.Visits (code enableLoop) mem n g ∧
      RowsSame 1 ((n.xm - m.xm) * m.dx) f g := by
  have hlead := firstRow_same (δ := (n.xm - m.xm) * m.dx) h hpc hstart (.inr (.inr ⟨hdx, rfl⟩))
  have hnext : (code enableLoop m).next mem = some (firstRow m) := mid_next hpc
  have hi₀ : Inv (firstRow m) := (step_inv hi).next hnext
  -- the first row
  obtain ⟨m₁, hm₁, -⟩ := midRow_next enableLoop mem (s := firstRow m) rfl hrows
  have hfirst : Act.Pair mem (RowsSame 1 ((n.xm - m.xm) * m.dx)) (fun _ _ => True)
      (code enableLoop (firstRow m)) (code enableLoop (firstRow n)) :=
    midRow_bare_same hlead hi₀ hrows hcol hdx (.inr ⟨rfl, rfl⟩)
  obtain ⟨n₁, hn₁, hrows₁⟩ := hfirst.next hm₁
  -- the others
  have hvisits : Goto.Visits (code enableLoop) mem m₁ f := by
    obtain ⟨r, hr⟩ : ∃ r, rowCount m = r + 1 := ⟨rowCount m - 1, by simp only [rowCount]; omega⟩
    have hreached := hf.reached
    rw [hr] at hreached
    simp only [Goto.after, mid_next hpc, hm₁] at hreached
    exact ⟨r, hreached⟩
  have hi₁ : Inv m₁ := (step_inv hi₀).next hm₁
  obtain ⟨g, hg, hfg⟩ : ∃ g, Goto.Visits (code enableLoop) mem n₁ g ∧
      RowsSame 1 ((n.xm - m.xm) * m.dx) f g :=
    hvisits.pair (RowsSame 1 ((n.xm - m.xm) * m.dx)) hrows₁ fun s t hs _ hst => by
      simp only [code, hst.pc, hst.pc']
      exact midRow_same hst (inv_visits hi₁ hs)
  exact ⟨g, (hg.head hn₁).head (mid_next (h.pc.trans hpc)), hfg⟩

theorem F64.quot_inj {p q : ℚ} {n : ℤ} (hn : n ≠ 0) (h : F64.quot p n = F64.quot q n) : p = q := by
  have hn' : (n : ℚ) ≠ 0 := by exact_mod_cast hn
  simp only [F64.quot, hn, ne_eq, not_false_eq_true, if_true, F64.fin.injEq] at h
  exact (div_left_inj' hn').mp h

/-- If the variables do not matter, the midline does not count what they hold, or the
widths of its rows cancel. -/
theorem settled_of_determined (hdet : Determined enableLoop mem elementType offset)
    (ha : Call elementType offset a) (hends : Goto.Ends (code enableLoop) mem a) {m : State}
    (hm : Goto.Visits (code enableLoop) mem a m) (hpc : m.pc = .mid) :
    Settled m ∨ Cancels m := by
  by_contra hnot
  simp only [Settled, not_or, not_lt] at hnot
  obtain ⟨⟨hrows, hcol, hdx⟩, hwidths⟩ := hnot
  have hi := inv_visits ha.start.inv hm
  have hstart := yStart_pos ha.start hends hm hpc
  -- another call, in which only `xm` differs
  obtain ⟨xm', hxm', hne⟩ : ∃ xm', (-32768 ≤ xm' ∧ xm' < 32768) ∧ xm' - a.xm ≠ 0 := by
    by_cases h0 : a.xm = 0
    · exact ⟨1, by omega, by omega⟩
    · exact ⟨0, by omega, by omega⟩
  have hb : Call elementType offset { a with xm := xm' } :=
    { start := ⟨ha.start.pc, ha.start.elementType, { ha.start.ranges with }⟩
      elementType := ha.elementType, offset := ha.offset, dx := ha.dx, xm := hxm' }
  rcases visits_twin (same_call ha hb) ha.start.inv hm with ⟨n, hn, hsame | halike⟩
  swap
  · exact absurd (hpc.symm.trans halike.1) (by decide)
  have hlive := hsame.live hpc
  simp at hlive
  have hndx : n.dx = m.dx := by omega
  obtain ⟨f, hf⟩ : ∃ f, AfterRows enableLoop mem m (rowCount m) f :=
    after_rows hi hpc hstart _ le_rfl
  obtain ⟨-, hfpc, hflt⟩ := (assigns_iff hi hpc hstart).mpr ⟨rfl, hf⟩
  obtain ⟨g, hg, hfg⟩ := midline_differs hsame hi hpc hstart hrows hcol hndx hf
  obtain ⟨u, hu, hou⟩ : ∃ u, (code enableLoop f).final mem = some u ∧
      u.offset = .quot f.so f.sw := (midRow_final hfpc hflt).2
  obtain ⟨v, hv, hov⟩ : ∃ v, (code enableLoop g).final mem = some v ∧
      v.offset = .quot g.so g.sw :=
    (midRow_final hfg.pc' (by rw [hfg.y, hfg.yStart]; exact hflt)).2
  -- both calls halt, with the same divisor but not the same sum
  have hhalts : Goto.Halts (code enableLoop) mem a u :=
    ⟨f, hm.trans ⟨_, hf.reached⟩, hu⟩
  obtain ⟨v', hv', -, hoffset⟩ := hdet a _ ha hb u hhalts
  obtain rfl : v' = v := hv'.unique ⟨g, hn.trans hg, hv⟩
  have hsw : f.sw ≠ 0 := by
    rw [hf.sw, hf.widths]
    exact hwidths
  obtain ⟨k, hk, hso⟩ := hfg.so
  rw [hov, hou, hfg.sw, hso] at hoffset
  have hzero : (k * ((n.xm - m.xm) * m.dx) : ℤ) = 0 := by
    have hsame := F64.quot_inj hsw hoffset
    rw [add_eq_left] at hsame
    exact_mod_cast hsame
  have hxm : n.xm - m.xm ≠ 0 := by
    rw [hlive.1.2.2.1, hlive.1.2.2.2]
    exact hne
  rcases mul_eq_zero.mp hzero with hk0 | hδ
  · omega
  · exact (mul_ne_zero hxm hdx) hδ

end

/-- The result is determined by the inputs if the midline is always settled, and only
then, but for rows whose widths cancel. -/
theorem determined_by_inputs (image : Image) (beyond : ℤ → UInt8) (enableLoop : Bool)
    (elementType : ElementType) (offset : F64) :
    (AlwaysSettled enableLoop (memory image beyond) elementType offset →
      Determined enableLoop (memory image beyond) elementType offset) ∧
    (Determined enableLoop (memory image beyond) elementType offset →
      ∀ a, Call elementType offset a → Goto.Ends (code enableLoop) (memory image beyond) a →
        ∀ m, Goto.Visits (code enableLoop) (memory image beyond) a m → m.pc = .mid →
          Settled m ∨ Cancels m) :=
  ⟨determined_of_settled, fun hdet _ ha hends _ hm hpc =>
    settled_of_determined hdet ha hends hm hpc⟩

/-- A straight track that has no border in the lowest row, and whose right border moves by
one column in row 61. -/
def openBottom : Image := fun y x =>
  decide (y = 119 ∨ 40 ≤ x ∧ x ≤ 140 ∧ (y ≤ 61 → x ≤ 139))

/-- In row 119 `xm` is counted with the width 1. -/
theorem openBottom_not_determined :
    ¬ Determined false (memory openBottom fun _ => EMPTY) .normal (.fin 0) := by
  intro hdet
  have hcall : ∀ xm, -32768 ≤ xm ∧ xm < 32768 →
      Call .normal (.fin 0) { called .normal with xm := xm } := by
    intro xm hxm
    have hstart : Start (called .normal) := start_called (by decide)
    exact ⟨⟨hstart.pc, hstart.elementType, { hstart.ranges with }⟩, rfl, rfl,
      (by decide : (-32768 : ℤ) ≤ 0 ∧ (0 : ℤ) < 32768), hxm⟩
  rcases Goto.exists_visits (code false) (memory openBottom fun _ => EMPTY)
    { called .normal with xm := 0 } 881
    (fun t => decide (t.pc = .midRow ∧ t.y < t.yStart ∧ t.so = -17985 ∧ t.sw = 5899))
    (by decide +kernel) with ⟨s, hs, hcheck⟩
  rcases Goto.exists_visits (code false) (memory openBottom fun _ => EMPTY)
    { called .normal with xm := 100 } 881
    (fun t => decide (t.pc = .midRow ∧ t.y < t.yStart ∧ t.so = -17885 ∧ t.sw = 5899))
    (by decide +kernel) with ⟨t, ht, hcheck'⟩
  rcases of_decide_eq_true hcheck with ⟨hpc, hlt, hso, hsw⟩
  rcases of_decide_eq_true hcheck' with ⟨hpc', hlt', hso', hsw'⟩
  obtain ⟨u, hu, hou⟩ : ∃ u, (code false s).final (memory openBottom fun _ => EMPTY) = some u ∧
      u.offset = .quot s.so s.sw := (midRow_final hpc hlt).2
  obtain ⟨v, hv, hov⟩ : ∃ v, (code false t).final (memory openBottom fun _ => EMPTY) = some v ∧
      v.offset = .quot t.so t.sw := (midRow_final hpc' hlt').2
  obtain ⟨v', hv', -, hoffset⟩ := hdet _ _ (hcall 0 (by decide)) (hcall 100 (by decide)) u
    ⟨s, hs, hu⟩
  obtain rfl : v' = v := hv'.unique ⟨t, ht, hv⟩
  rw [hou, hov, hso, hso', hsw, hsw'] at hoffset
  exact absurd (F64.quot_inj (by decide) hoffset) (by norm_num)

end SmartCar.MtImage

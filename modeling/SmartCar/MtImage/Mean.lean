import SmartCar.Lib.WeightedMean
import SmartCar.MtImage.Midline
import Mathlib.Algebra.BigOperators.Ring.Finset

/-!
# mt_image: the offset as a mean

The midline stage adds up `(xm - X_MID) * dx` and `dx` over the rows from `y_end` up
to `y_start`, and divides. `TrueMean` says that the quotient is a weighted mean;
`MeanOk` is the condition on the tables at the start of the stage.

* `after_rows` is the run of the stage, row by row;
* `trueMean_iff` is the law.
-/

namespace SmartCar.MtImage

open CInt WeightedMean

/-! ## Law and condition -/

section

variable (enableLoop : Bool) (mem : Cell → UInt8)

/-- The states after the first `k` rows of the stage that begins in `e`. -/
def rows (e : State) (k : ℕ) : List State :=
  (List.range k).filterMap fun i => Goto.after (code enableLoop) mem (i + 2) e

/-- Whenever the stage that begins in `e` assigns the offset, `sw` is the sum of the
widths, none of them is negative and not all are 0, and the offset lies between the
middles of two rows. -/
def TrueMean (e : State) : Prop :=
  ∀ k t, Goto.after (code enableLoop) mem (k + 1) e = some t → t.pc = .midRow →
    t.y < t.yStart →
      let us := rows enableLoop mem e k
      t.sw = (us.map (·.dx)).sum ∧ (∀ u ∈ us, 0 ≤ u.dx) ∧ 0 < (us.map (·.dx)).sum ∧
        ∃ t' q, (code enableLoop t).final mem = some t' ∧ t'.offset = .fin q ∧
          (∃ u ∈ us, ((u.xm - xMid : ℤ) : ℚ) ≤ q) ∧ ∃ u ∈ us, q ≤ ((u.xm - xMid : ℤ) : ℚ)

end

/-- The width of row `y`, when `dx` is the width of the row before. -/
def widthAt (e : State) (y dx : ℤ) : ℤ :=
  if e.l.xs y ≠ 0 ∧ e.r.xs y ≠ 0 then e.r.xs y - e.l.xs y
  else if e.l.xs y = 0 ∧ e.r.xs y = 0 then dx
  else stdWidth y

/-- `dx` before the row that is `k` rows above `y_end`: the width of the row below it,
and before the first row what an earlier stage has left. -/
def dxBefore (e : State) : ℕ → ℤ
  | 0 => e.dx
  | k + 1 => widthAt e (e.yEnd - k) (dxBefore e k)

/-- The number of rows from `y_end` to `y_start`. -/
def rowCount (e : State) : ℕ := (e.yEnd - e.yStart + 1).toNat

/-- The tables make a mean:

* no row has its columns the wrong way round, and if row `y_end` has no column, the
  `dx` left from before is not negative;
* some row has a width: it has two columns, or one and is not above row 40, or it is
  row `y_end` and takes over the `dx` left from before;
* the widths do not overflow `sw`. -/
structure MeanOk (e : State) : Prop where
  ordered : ∀ y, e.yStart ≤ y → y ≤ e.yEnd → e.l.xs y ≠ 0 → e.r.xs y ≠ 0 → e.l.xs y ≤ e.r.xs y
  bottom : e.l.xs e.yEnd = 0 → e.r.xs e.yEnd = 0 → 0 ≤ e.dx
  wide : ∃ y, e.yStart ≤ y ∧ y ≤ e.yEnd ∧
    ((e.l.xs y ≠ 0 ∧ e.r.xs y ≠ 0 ∧ e.l.xs y < e.r.xs y) ∨
      (¬ (e.l.xs y = 0 ↔ e.r.xs y = 0) ∧ 40 ≤ y) ∨
      (y = e.yEnd ∧ e.l.xs y = 0 ∧ e.r.xs y = 0 ∧ 0 < e.dx))
  sum : ((List.range (rowCount e)).map fun k => dxBefore e (k + 1)).sum < 65536

/-! ## The rows of a stage -/

variable {enableLoop : Bool} {mem : Cell → UInt8} {s s' e : State}

theorem midRow_final (hpc : s.pc = .midRow) (hlt : s.y < s.yStart) :
    (code enableLoop s).next mem = none ∧
      ∃ t, (code enableLoop s).final mem = some t ∧ t.offset = .quot s.so s.sw := by
  have hge : ¬ s.y ≥ s.yStart := by omega
  simp only [code, hpc, midRow, hge, if_false]
  exact ⟨rfl, _, rfl, rfl⟩

/-- `s` is the state of the stage that has begun in `e` after `k` rows. -/
structure AfterRows (enableLoop : Bool) (mem : Cell → UInt8) (e : State) (k : ℕ) (s : State) :
    Prop where
  reached : Goto.after (code enableLoop) mem (k + 1) e = some s
  pc : s.pc = .midRow
  lxs : s.l.xs = e.l.xs
  rxs : s.r.xs = e.r.xs
  yStart : s.yStart = e.yStart
  kw : s.kw = 1
  y : s.y = e.yEnd - k
  dx : s.dx = dxBefore e k
  widths : (rows enableLoop mem e k).map (·.dx) =
    (List.range k).map fun i => dxBefore e (i + 1)
  sw : s.sw = u16 ((rows enableLoop mem e k).map (·.dx)).sum
  so : s.so = total (rows enableLoop mem e k) (fun u => (u.dx : ℚ))
    fun u => ((u.xm - xMid : ℤ) : ℚ)

theorem rows_succ {k : ℕ} {u : State}
    (h : Goto.after (code enableLoop) mem (k + 2) e = some u) :
    rows enableLoop mem e (k + 1) = rows enableLoop mem e k ++ [u] := by
  simp [rows, List.range_succ, h]

theorem afterRows_zero (h : Inv e) (hpc : e.pc = .mid) :
    ∃ s, AfterRows enableLoop mem e 0 s := by
  have hkw := h.kw (by simp [hpc]) (by simp [hpc])
  refine ⟨{ e with pc := .midRow, so := 0, sw := 0, dxm := 0, bothCount := 0, y := e.yEnd },
    ⟨?_, rfl, rfl, rfl, rfl, hkw, by simp, rfl, rfl, rfl, rfl⟩⟩
  simp [Goto.after, code, hpc, mid, Act.next]

theorem rowWidth_eq (h : Ranges e) (hend : e.yEnd ≤ 119) {s : State} {k : ℕ}
    (hs : AfterRows enableLoop mem e k s) : rowWidth s = dxBefore e (k + 1) := by
  have hl := h.lxs (e.yEnd - k)
  have hr := h.rxs (e.yEnd - k)
  have hstd := stdWidth_range (y := e.yEnd - k) (by omega)
  simp only [rowWidth, dxBefore, widthAt, hs.lxs, hs.rxs, hs.y, hs.dx, hs.kw, one_mul,
    trunc_intCast]
  simp only [Byte] at hl hr
  split_ifs
  · exact i16_of_range (by omega)
  · rfl
  · exact i16_of_range (by omega)

/-- One more row. -/
theorem afterRows_succ (h : Ranges e) (hend : e.yEnd ≤ 119) (hstart : 1 ≤ e.yStart) {k : ℕ}
    {s : State} (hs : AfterRows enableLoop mem e k s) (hge : s.y ≥ s.yStart) :
    ∃ s', AfterRows enableLoop mem e (k + 1) s' := by
  rcases midRow_next enableLoop mem hs.pc hge with ⟨s', hnext, hrow⟩
  have hreached := Goto.after_succ hs.reached hnext
  have hrows := rows_succ hreached
  have hdx : s'.dx = dxBefore e (k + 1) := hrow.dx.trans (rowWidth_eq h hend hs)
  have hy : s.y = e.yEnd - k := hs.y
  have hstart' : s.yStart = e.yStart := hs.yStart
  refine ⟨s', ⟨hreached, hrow.pc, hrow.lxs.trans hs.lxs, hrow.rxs.trans hs.rxs,
    hrow.yStart.trans hs.yStart, hrow.kw.trans hs.kw, ?_, hdx, ?_, ?_, ?_⟩⟩
  · rw [hrow.y, u8_of_range (by omega), hy]
    push_cast
    omega
  · rw [hrows, List.map_append, hs.widths, List.range_succ, List.map_append]
    simp [hdx]
  · rw [hrows, hrow.sw, hs.sw]
    simp only [List.map_append, List.sum_append, List.map_cons, List.map_nil, List.sum_singleton,
      u16]
    omega
  · rw [hrows, hrow.so, hs.so]
    simp [total]

/-- The run of the stage: it goes on for as long as there are rows. -/
theorem after_rows (h : Inv e) (hpc : e.pc = .mid) (hstart : 1 ≤ e.yStart) :
    ∀ k ≤ rowCount e, ∃ s, AfterRows enableLoop mem e k s := by
  have hend : e.yEnd ≤ 119 := h.at hpc
  intro k
  induction k with
  | zero => exact fun _ => afterRows_zero h hpc
  | succ k ih =>
    intro hk
    rcases ih (by omega) with ⟨s, hs⟩
    refine afterRows_succ h.ranges hend hstart hs ?_
    rw [hs.y, hs.yStart]
    simp only [rowCount] at hk
    omega

/-- The stage assigns the offset after the last row, and only then. -/
theorem assigns_iff (h : Inv e) (hpc : e.pc = .mid) (hstart : 1 ≤ e.yStart) {k : ℕ} {t : State} :
    Goto.after (code enableLoop) mem (k + 1) e = some t ∧ t.pc = .midRow ∧ t.y < t.yStart ↔
      k = rowCount e ∧ AfterRows enableLoop mem e k t := by
  constructor
  · rintro ⟨ht, htpc, hlt⟩
    -- the stage has halted after the last row
    have hk : k ≤ rowCount e := by
      by_contra hgt
      obtain ⟨s, hs⟩ : ∃ s, AfterRows enableLoop mem e (rowCount e) s :=
        after_rows h hpc hstart _ le_rfl
      have hlast : s.y < s.yStart := by
        rw [hs.y, hs.yStart]
        simp only [rowCount]
        omega
      rw [Goto.after_end hs.reached (midRow_final hs.pc hlast).1 (by omega)] at ht
      cases ht
    rcases after_rows h hpc hstart k hk with ⟨s, hs⟩
    obtain rfl : s = t := Option.some.inj (hs.reached.symm.trans ht)
    refine ⟨?_, hs⟩
    rw [hs.y, hs.yStart] at hlt
    simp only [rowCount] at hk ⊢
    omega
  · rintro ⟨rfl, ht⟩
    refine ⟨ht.reached, ht.pc, ?_⟩
    rw [ht.y, ht.yStart]
    simp only [rowCount]
    omega

/-- The widths of the rows make a mean. -/
structure WidthsOk (e : State) : Prop where
  nonneg : ∀ k < rowCount e, 0 ≤ dxBefore e (k + 1)
  pos : 0 < ((List.range (rowCount e)).map fun k => dxBefore e (k + 1)).sum
  lt : ((List.range (rowCount e)).map fun k => dxBefore e (k + 1)).sum < 65536

theorem trueMean_iff_widthsOk (h : Inv e) (hpc : e.pc = .mid) (hstart : 1 ≤ e.yStart) :
    TrueMean enableLoop mem e ↔ WidthsOk e := by
  obtain ⟨t, ht⟩ : ∃ t, AfterRows enableLoop mem e (rowCount e) t :=
    after_rows h hpc hstart _ le_rfl
  constructor
  · intro hmean
    rcases (assigns_iff h hpc hstart).mpr ⟨rfl, ht⟩ with ⟨hreached, htpc, hlt⟩
    rcases hmean _ t hreached htpc hlt with ⟨hsw, hnonneg, hpos, -⟩
    rw [ht.widths] at hsw hpos
    refine ⟨fun k hk => ?_, hpos, ?_⟩
    · have hmem : dxBefore e (k + 1) ∈ (rows enableLoop mem e (rowCount e)).map (·.dx) := by
        rw [ht.widths]
        exact List.mem_map.mpr ⟨k, List.mem_range.mpr hk, rfl⟩
      rcases List.mem_map.mp hmem with ⟨u, hu, hdx⟩
      rw [← hdx]
      exact hnonneg u hu
    · have := ht.sw
      simp only [u16] at this
      omega
  · intro hok k u hu hupc hult
    rcases (assigns_iff h hpc hstart).mp ⟨hu, hupc, hult⟩ with ⟨rfl, hu⟩
    rcases (midRow_final hu.pc hult).2 with ⟨t', hfinal, hoffset⟩
    have hnonneg : ∀ v ∈ rows enableLoop mem e (rowCount e), 0 ≤ v.dx := by
      intro v hv
      have hmem : v.dx ∈ (rows enableLoop mem e (rowCount e)).map (·.dx) :=
        List.mem_map_of_mem hv
      rw [hu.widths] at hmem
      rcases List.mem_map.mp hmem with ⟨i, hi, hdx⟩
      rw [← hdx]
      exact hok.nonneg i (List.mem_range.mp hi)
    have hpos : 0 < ((rows enableLoop mem e (rowCount e)).map (·.dx)).sum := by
      rw [hu.widths]
      exact hok.pos
    have hlt : ((rows enableLoop mem e (rowCount e)).map (·.dx)).sum < 65536 := by
      rw [hu.widths]
      exact hok.lt
    have hsw : u.sw = ((rows enableLoop mem e (rowCount e)).map (·.dx)).sum := by
      rw [hu.sw, u16]
      omega
    -- the sums as rationals, as the division sees them
    have hcast : ((rows enableLoop mem e (rowCount e)).map fun v => (v.dx : ℚ)).sum =
        (u.sw : ℚ) := by
      rw [hsw, Int.cast_list_sum, List.map_map]
      rfl
    have hweights : ∀ v ∈ rows enableLoop mem e (rowCount e), (0 : ℚ) ≤ v.dx :=
      fun v hv => by exact_mod_cast hnonneg v hv
    have hsum : 0 < ((rows enableLoop mem e (rowCount e)).map fun v => (v.dx : ℚ)).sum := by
      rw [hcast, hsw]
      exact_mod_cast hpos
    refine ⟨hsw, hnonneg, hpos, t', u.so / u.sw, hfinal, ?_, ?_, ?_⟩
    · rw [hoffset, F64.quot, if_pos (by omega)]
    · rw [hu.so, ← hcast]
      exact exists_le_mean hweights hsum
    · rw [hu.so, ← hcast]
      exact exists_mean_le hweights hsum

/-! ## The condition on the tables -/

theorem dxBefore_nonneg (hend : e.yEnd ≤ 119) (hok : MeanOk e) :
    ∀ k < rowCount e, 0 ≤ dxBefore e (k + 1) := by
  intro k
  induction k with
  | zero =>
    intro hk
    simp only [rowCount] at hk
    simp only [dxBefore, widthAt, Nat.cast_zero, sub_zero]
    split_ifs with hboth hnone
    · have := hok.ordered e.yEnd (by omega) le_rfl hboth.1 hboth.2
      omega
    · exact hok.bottom hnone.1 hnone.2
    · exact (stdWidth_range (by omega)).1
  | succ k ih =>
    intro hk
    have hprev := ih (by omega)
    simp only [rowCount] at hk
    rw [dxBefore, widthAt]
    split_ifs with hboth hnone
    · have := hok.ordered _ (by push_cast; omega) (by push_cast; omega) hboth.1 hboth.2
      omega
    · exact hprev
    · exact (stdWidth_range (by push_cast; omega)).1

/-- A width comes from the row itself, or from a row below it, or from before. -/
theorem wide_of_pos (k : ℕ) (hpos : 0 < dxBefore e (k + 1)) :
    ∃ y, e.yEnd - k ≤ y ∧ y ≤ e.yEnd ∧
      ((e.l.xs y ≠ 0 ∧ e.r.xs y ≠ 0 ∧ e.l.xs y < e.r.xs y) ∨
        (¬ (e.l.xs y = 0 ↔ e.r.xs y = 0) ∧ 40 ≤ y) ∨
        (y = e.yEnd ∧ e.l.xs y = 0 ∧ e.r.xs y = 0 ∧ 0 < e.dx)) := by
  induction k with
  | zero =>
    refine ⟨e.yEnd, by simp, le_rfl, ?_⟩
    simp only [dxBefore, widthAt, Nat.cast_zero, sub_zero] at hpos
    split_ifs at hpos with hboth hnone
    · exact .inl ⟨hboth.1, hboth.2, by omega⟩
    · exact .inr (.inr ⟨rfl, hnone.1, hnone.2, hpos⟩)
    · -- one border: the width is that of the table, which is 0 above row 40
      refine .inr (.inl ⟨by tauto, ?_⟩)
      by_contra hlt
      rw [stdWidth_of_lt (by omega)] at hpos
      exact absurd hpos (lt_irrefl 0)
  | succ k ih =>
    rw [dxBefore, widthAt] at hpos
    split_ifs at hpos with hboth hnone
    · exact ⟨_, le_rfl, by omega, .inl ⟨hboth.1, hboth.2, by omega⟩⟩
    · -- no border: the width is still that of the row below
      rcases ih hpos with ⟨y, hy, hye, hwide⟩
      exact ⟨y, by push_cast; omega, hye, hwide⟩
    · refine ⟨_, le_rfl, by omega, .inr (.inl ⟨by tauto, ?_⟩)⟩
      by_contra hlt
      rw [stdWidth_of_lt (by omega)] at hpos
      exact absurd hpos (lt_irrefl 0)

theorem pos_of_wide (hend : e.yEnd ≤ 119) {y : ℤ} (hy : e.yStart ≤ y) (hye : y ≤ e.yEnd)
    (hwide : (e.l.xs y ≠ 0 ∧ e.r.xs y ≠ 0 ∧ e.l.xs y < e.r.xs y) ∨
      (¬ (e.l.xs y = 0 ↔ e.r.xs y = 0) ∧ 40 ≤ y) ∨
      (y = e.yEnd ∧ e.l.xs y = 0 ∧ e.r.xs y = 0 ∧ 0 < e.dx)) :
    ∃ k < rowCount e, 0 < dxBefore e (k + 1) := by
  refine ⟨(e.yEnd - y).toNat, by simp only [rowCount]; omega, ?_⟩
  have hrow : e.yEnd - ((e.yEnd - y).toNat : ℕ) = y := by omega
  rw [dxBefore, hrow, widthAt]
  rcases hwide with ⟨hl, hr, hlt⟩ | ⟨hone, h40⟩ | ⟨rfl, hl, hr, hdx⟩
  · rw [if_pos ⟨hl, hr⟩]
    omega
  · rw [if_neg (by tauto), if_neg (by tauto)]
    exact stdWidth_pos h40 (by omega)
  · rw [if_neg (by tauto), if_pos ⟨hl, hr⟩]
    simpa [dxBefore] using hdx

theorem widthsOk_iff (hend : e.yEnd ≤ 119) : WidthsOk e ↔ MeanOk e := by
  constructor
  · intro hok
    -- widths that are not negative have a positive sum only if one of them is positive
    have hexists : ∃ k < rowCount e, 0 < dxBefore e (k + 1) := by
      by_contra hnone
      push Not at hnone
      have hzero := List.sum_eq_zero
        (l := (List.range (rowCount e)).map fun k => dxBefore e (k + 1))
        (by simpa using fun k hk => le_antisymm (hnone k hk) (hok.nonneg k hk))
      exact absurd hok.pos (by omega)
    rcases hexists with ⟨k, hk, hpos⟩
    refine ⟨fun y hy hye hl hr => ?_, fun hl hr => ?_, ?_, hok.lt⟩
    · have hnonneg := hok.nonneg (e.yEnd - y).toNat (by simp only [rowCount]; omega)
      rw [dxBefore, show e.yEnd - ((e.yEnd - y).toNat : ℕ) = y by omega, widthAt,
        if_pos ⟨hl, hr⟩] at hnonneg
      omega
    · have hnonneg := hok.nonneg 0 (by omega)
      simpa [dxBefore, widthAt, hl, hr] using hnonneg
    · rcases wide_of_pos k hpos with ⟨y, hy, hye, hwide⟩
      simp only [rowCount] at hk
      exact ⟨y, by omega, hye, hwide⟩
  · intro hok
    have hnonneg := dxBefore_nonneg hend hok
    rcases hok.wide with ⟨y, hy, hye, hwide⟩
    rcases pos_of_wide hend hy hye hwide with ⟨k, hk, hpos⟩
    refine ⟨hnonneg, ?_, hok.sum⟩
    have hle := List.single_le_sum
      (l := (List.range (rowCount e)).map fun k => dxBefore e (k + 1))
      (by simpa using hnonneg) _ (List.mem_map.mpr ⟨k, List.mem_range.mpr hk, rfl⟩)
    omega

/-! ## The law -/

/-- With `y_start = 0` the stage never assigns the offset. -/
theorem trueMean_of_zero (h : Inv e) (hpc : e.pc = .mid) (hstart : e.yStart = 0) :
    TrueMean enableLoop mem e := by
  intro k t ht htpc hlt
  have hstay : ∀ t, Goto.Visits (code enableLoop) mem e t →
      (t.pc = .mid ∨ t.pc = .midRow) ∧ t.yStart = 0 := by
    refine Goto.visits_induction _ ⟨.inl hpc, hstart⟩ ?_
    rintro s s' hs ⟨hspc | hspc, hs0⟩ hnext
    · simp [code, hspc, mid, Act.next] at hnext
      rw [← hnext]
      exact ⟨.inr rfl, hs0⟩
    · have hy := (inv_visits h hs).ranges.y
      obtain ⟨s'', hnext', hrow⟩ :=
        midRow_next enableLoop mem hspc (by rw [hs0]; exact hy.1)
      rw [hnext] at hnext'
      cases hnext'
      exact ⟨.inr hrow.pc, hrow.yStart.trans hs0⟩
  have hvisits : Goto.Visits (code enableLoop) mem e t := ⟨_, ht⟩
  have hy := (inv_visits h hvisits).ranges.y
  rw [(hstay t hvisits).2] at hlt
  exact absurd hlt (by simp only [Byte] at hy; omega)

theorem trueMean_iff (h : Inv e) (hpc : e.pc = .mid) :
    TrueMean enableLoop mem e ↔ e.yStart = 0 ∨ MeanOk e := by
  have hstart := h.ranges.yStart
  rcases hstart.1.eq_or_lt with h0 | h0
  · exact iff_of_true (trueMean_of_zero h hpc h0.symm) (.inl h0.symm)
  · rw [trueMean_iff_widthsOk h hpc h0, widthsOk_iff (h.at hpc)]
    exact (or_iff_right h0.ne').symm

/-- The offset is a true weighted mean if and only if the tables make one. -/
theorem offset_mean_iff (image : Image) (beyond : ℤ → UInt8) (enableLoop : Bool) (s : State)
    (h : Start s) :
    (∀ e, Goto.Visits (code enableLoop) (memory image beyond) s e → e.pc = .mid →
        TrueMean enableLoop (memory image beyond) e) ↔
      ∀ e, Goto.Visits (code enableLoop) (memory image beyond) s e → e.pc = .mid →
        e.yStart = 0 ∨ MeanOk e :=
  forall_congr' fun _ => forall_congr' fun he => forall_congr' fun hpc =>
    trueMean_iff (inv_visits h.inv he) hpc

/-- No road above the bottom row. -/
def noRoad : Image := fun y x => decide (y = 119 ∧ (x = 0 ∨ x = 93))

theorem offset_mean_iff_noRoad :
    Start (called .normal) ∧
      ((∀ e, Goto.Visits (code false) (memory noRoad fun _ => EMPTY) (called .normal) e →
          e.pc = .mid → TrueMean false (memory noRoad fun _ => EMPTY) e) ↔
        ∀ e, Goto.Visits (code false) (memory noRoad fun _ => EMPTY) (called .normal) e →
          e.pc = .mid → e.yStart = 0 ∨ MeanOk e) :=
  have hstart : Start (called .normal) := start_called (by decide)
  ⟨hstart, offset_mean_iff noRoad (fun _ => EMPTY) false (called .normal) hstart⟩

/-- All rows have width 0, and the offset is 0 divided by 0. -/
theorem noRoad_not_mean :
    Start (called .normal) ∧
      ∃ e, Goto.Visits (code false) (memory noRoad fun _ => EMPTY) (called .normal) e ∧
        e.pc = .mid ∧ ¬ TrueMean false (memory noRoad fun _ => EMPTY) e := by
  have hstart : Start (called .normal) := start_called (by decide)
  rcases Goto.exists_visits (code false) (memory noRoad fun _ => EMPTY)
    (called .normal) 1388 (fun e => decide (e.pc = .mid ∧ e.yStart = 37 ∧ e.yEnd = 119 ∧
      (∀ i : Fin 120, e.l.xs i = e.r.xs i) ∧ e.l.xs 119 = 93)) (by decide +kernel) with
    ⟨e, he, hcheck⟩
  rcases of_decide_eq_true hcheck with ⟨hpc, hys, hye, hsame, hbottom⟩
  refine ⟨hstart, e, he, hpc, fun hmean => ?_⟩
  rcases (trueMean_iff (inv_visits hstart.inv he) hpc).mp hmean with h0 | hok
  · omega
  · rcases hok.wide with ⟨y, hy, hy', hwide⟩
    have hrow : e.l.xs y = e.r.xs y := by
      have := hsame ⟨y.toNat, by omega⟩
      rwa [show ((⟨y.toNat, _⟩ : Fin 120) : ℤ) = y from Int.toNat_of_nonneg (by omega)] at this
    rcases hwide with ⟨-, -, hlt⟩ | ⟨hone, -⟩ | ⟨rfl, hl, -, -⟩
    · omega
    · exact hone (by rw [hrow])
    · rw [hye, hbottom] at hl
      cases hl

end SmartCar.MtImage

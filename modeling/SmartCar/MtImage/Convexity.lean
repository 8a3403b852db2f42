import SmartCar.MtImage.Tracks

/-!
# mt_image: convexity

`l_convex` is to add up how much a border bends from one recorded row to the next, at most
`CONVEX_LIMIT` a row. The row before is remembered in an `int8`, and the difference is narrowed
to an `int8` before it is limited: it keeps its sign only if it is small, or very large.

* `Previous` is the bend of the row recorded before, from the history of the run;
* `convexity_iff` is the law.
-/

namespace SmartCar.MtImage

open CInt

variable {mem : Cell → UInt8} {enableLoop : Bool} {s t u v b : State} {d : Side} {D : ℤ}

/-! ## Law and condition -/

/-- `x` limited to the range from `-a` to `a`. -/
def clamp (a x : ℤ) : ℤ := max (-a) (min x a)

/-- `D` is the drift of the row of side `d` that was tracked last before `t` in the search that
begins in `s`, or 0 if there is none. -/
inductive Previous (enableLoop : Bool) (mem : Cell → UInt8) (d : Side) (s t : State) : ℤ → Prop
  | none (h : Goto.Via (code enableLoop) mem (fun u => ¬ Tracks d u) s t) :
      Previous enableLoop mem d s t 0
  | row (b : State) (hb : Goto.Visits (code enableLoop) mem s b) (htracks : Tracks d b)
      (h : Goto.Via (code enableLoop) mem (fun u => ¬ Tracks d u) b t) :
      Previous enableLoop mem d s t (drift d b)

/-- The differences whose limit is that of their narrowed value. -/
def Narrows (δ : ℤ) : Prop :=
  (-128 ≤ δ ∧ δ ≤ 127) ∨ (258 ≤ δ ∧ δ ≤ 383) ∨ (-384 ≤ δ ∧ δ ≤ -258)

/-! ## Narrowing -/

theorem limit_eq_clamp (x : ℤ) : limit x convexLimit = clamp convexLimit (i8 x) := by
  unfold limit clamp i8
  simp only [convexLimit]
  split <;> rename_i h
  · omega
  · split <;> omega

/-- Narrowing does not see that one of the numbers has been narrowed before. -/
theorem i8_sub_i8 (x y : ℤ) : i8 (x - i8 y) = i8 (x - y) := by
  unfold i8
  omega

theorem narrows_iff {δ : ℤ} (hlow : -510 ≤ δ) (hhigh : δ ≤ 510) :
    clamp convexLimit (i8 δ) = clamp convexLimit δ ↔ Narrows δ := by
  unfold clamp i8 Narrows
  simp only [convexLimit]
  omega

/-- A sum stored in an `int8` is the exact one if and only if what is added is, and the sum is
in range. -/
theorem i8_add_eq_iff {c x y : ℤ} (hx : -2 ≤ x ∧ x ≤ 2) (hy : -2 ≤ y ∧ y ≤ 2) :
    i8 (c + x) = c + y ↔ x = y ∧ -128 ≤ c + y ∧ c + y ≤ 127 := by
  unfold i8
  omega

theorem drift_range (h : Inv s) (d : Side) : -255 ≤ drift d s ∧ drift d s ≤ 255 := by
  unfold drift
  have hlx := h.ranges.lx
  have hlxs := h.ranges.lxs (s.y + 1)
  have hrx := h.ranges.rx
  have hrxs := h.ranges.rxs (s.y + 1)
  unfold Byte at hlx hlxs hrx hrxs
  cases d <;> simp only [Side.sgn, State.track] <;> omega

/-! ## The memory of the row before -/

/-- A row that is not tracked is not remembered. -/
theorem rowCase_dx (hpc : s.pc = .record d) (h : RowCase d s t) (hnot : ¬ Tracks d s) :
    (t.track d).dx = (s.track d).dx := by
  have hbased : (based d s).dx = (s.track d).dx := (based_kept d s).2.2.2.2
  exact rowCase_rule (P := fun v => v.dx = (s.track d).dx) h
    (fun hv hw => (congrArg Track.dx hv).trans hw) rfl (fun _ => hbased) (fun _ => hbased) hbased
    fun hl hx => absurd ⟨hpc, hl, hx⟩ hnot

theorem dx_step (ht : (code enableLoop s).next mem = some t) (hpass : s.pc.pass ≠ .opening)
    (hnot : ¬ Tracks d s) : (t.track d).dx = (s.track d).dx := by
  cases track_step ht d with
  | still _ h => exact h.field Track.dx fun _ => rfl
  | locals hpc _ => exact absurd hpc hpass
  | bottom _ _ _ h => exact h.field Track.dx fun _ => rfl
  | flags _ h =>
    obtain ⟨_, _, _, _, h⟩ := h
    exact h.field Track.dx fun _ => rfl
  | reset _ h => exact h.field Track.dx fun _ => rfl
  | row hpc h => exact rowCase_dx hpc h hnot
  | append _ _ h => exact h.field Track.dx fun _ => rfl
  | cross _ h => exact h.field Track.dx fun _ => rfl
  | crossSlope _ _ h => exact h.field Track.dx fun _ => rfl

/-- The normal pass has been left for good: no row is recorded any more. -/
def Over (s : State) : Prop :=
  ((s.pc = .normalEnd ∨ s.pc = .analyze) ∧ s.el ≤ .normal) ∨ s.pc.pass = .midline

theorem over_step (h : Over s) (ht : (code enableLoop s).next mem = some t) : Over t := by
  rcases h with ⟨hpc | hpc, hel⟩ | hpass
  · have hend : Leads mem Over (code enableLoop s) := by
      simp only [code, hpc, normalEnd, Act.sat_goto]
      exact .inl ⟨.inr rfl, hel⟩
    exact hend.next ht
  · -- without a ring the analysis leads on to the midline
    have hne : s.el ≠ .loopLeftBefore2 ∧ s.el ≠ .loopRightBefore2 := by
      refine ⟨?_, ?_⟩ <;> intro hel' <;> exact absurd (hel' ▸ hel) (by decide)
    have hend : Leads mem Over (code enableLoop s) := by
      simp only [code, hpc, analyze, hne, false_and, if_false, hel, if_true, Act.sat_ite,
        Act.sat_goto]
      exact ⟨fun _ => .inr rfl, fun _ => ⟨fun _ => .inr rfl, fun _ => ⟨fun _ => .inr rfl,
        fun _ => ⟨fun _ => .inr rfl, fun _ => .inr rfl⟩⟩⟩⟩
    exact hend.next ht
  · have hto := (Act.post_iff.mp (code_flow enableLoop mem s)).1 t ht
    rw [hpass] at hto
    exact .inr hto

theorem Over.not_tracks (h : Over s) : ¬ Tracks d s := by
  rintro ⟨hpc, -⟩
  rcases h with ⟨h | h, -⟩ | h <;> simp [hpc, Pc.pass] at h

/-- What a row that is tracked leaves. -/
theorem tracked_row (h : RowCase d s t) (htracks : Tracks d s) :
    (t.track d).convex =
        i8 ((s.track d).convex + limit (i16 (drift d s) - (s.track d).dx) convexLimit) ∧
      ((t.track d).dx = i8 (i16 (drift d s)) ∨ Over t) := by
  obtain ⟨-, hlost, hx⟩ := htracks
  have hconvex := (sloped_field (s := s) (d := d) Track.convex fun _ _ _ _ _ => rfl).2
  have hdx := (sloped_field (s := s) (d := d) Track.dx fun _ _ _ _ _ => rfl).2
  have hrecorded : (recorded d s).convex =
      i8 ((s.track d).convex + limit (i16 (drift d s) - (s.track d).dx) convexLimit) := by
    unfold recorded countRow
    dsimp only
    split <;> dsimp only <;> rw [hconvex, hdx]
  cases h with
  | edge hedge _ => exact absurd hedge hx
  | stopped _ hl _ _ => simp [hlost] at hl
  | extrapolated _ hl _ _ _ => simp [hlost] at hl
  | lost _ hl _ _ _ => simp [hlost] at hl
  | found _ _ h =>
    refine ⟨?_, .inl (h.field Track.dx fun _ => rfl)⟩
    rw [h.field Track.convex fun _ => rfl]
    exact hrecorded
  | curve _ _ hend hel h =>
    -- `l_dx` is not stored, and the pass is over
    refine ⟨?_, .inr (.inl ⟨.inl hend, hel ▸ curveOf_le d⟩)⟩
    rw [h.field Track.convex fun _ => rfl]
    exact hrecorded

/-- Before the first row is tracked, `l_dx` is 0. -/
theorem dx_of_none (hs : Enters s)
    (ht : Goto.Via (code enableLoop) mem (fun u => ¬ Tracks d u) s t)
    (hpass : t.pc.pass ≠ .opening) : (t.track d).dx = 0 := by
  -- it is set to 0 with the other locals, and only a row that is tracked writes it
  have hstep : ∀ u v, (code enableLoop u).next mem = some v → ¬ Tracks d u →
      (u.pc.pass ≠ .opening → (u.track d).dx = 0) → v.pc.pass ≠ .opening →
      (v.track d).dx = 0 := by
    intro u v hv hnot h hpass'
    by_cases hopening : u.pc.pass = .opening
    · cases track_step hv d with
      | still hpc _ => exact absurd (hpc hopening) hpass'
      | locals _ h' => exact h'.field Track.dx fun _ => rfl
      | bottom hpc _ _ _ => simp [hpc, Pc.pass] at hopening
      | flags hpc _ => simp [hpc] at hopening
      | reset hpc _ => simp [hpc, Pc.pass] at hopening
      | row hpc _ => simp [hpc, Pc.pass] at hopening
      | append hpc _ _ => simp [hpc, Pc.pass] at hopening
      | cross hpc _ => simp [hpc, Pc.pass] at hopening
      | crossSlope hpc _ _ => simp [hpc, Pc.pass] at hopening
    · rw [dx_step hv hopening hnot]
      exact h hopening
  have hentry : s.pc.pass = .opening := by rw [hs.pc]; rfl
  have hnot : ¬ Tracks d s := fun h => by simpa [hs.pc] using h.1
  exact ht.invariant (fun u => u.pc.pass ≠ .opening → (u.track d).dx = 0)
    (fun u hu => hstep s u hu hnot fun h => absurd hentry h)
    (fun u v _ hnot' h hv => hstep u v hv hnot' h) hpass

/-- Where a row is tracked, `l_dx` is what is left of the drift of the row before. -/
theorem dx_of_previous (hs : Enters s) (hD : Previous enableLoop mem d s t D)
    (htracks : Tracks d t) : (t.track d).dx = i8 D := by
  cases hD with
  | none h =>
    rw [dx_of_none hs h (by rw [htracks.1]; simp [Pc.pass])]
    rfl
  | row b hb hb' h =>
    obtain ⟨hlow, hhigh⟩ := drift_range (inv_visits hs.inv hb) d
    -- the row stores its drift, and no row is tracked from there to `t`
    have hkept : t.pc.pass ≠ .opening ∧ (Over t ∨ (t.track d).dx = i8 (drift d b)) := by
      refine h.invariant (fun u => u.pc.pass ≠ .opening ∧
        (Over u ∨ (u.track d).dx = i8 (drift d b))) (fun u hu => ?_) fun u v _ hnot hu hv => ?_
      · have hto := (Act.post_iff.mp (code_flow enableLoop mem b)).1 u hu
        refine ⟨pass_ne_opening hto (by rw [hb'.1]; simp [Pc.pass]), ?_⟩
        rcases (tracked_row (record_rowCase hb'.1 hu) hb').2 with hdx | hover
        · rw [i16_of_range (by omega)] at hdx
          exact .inr hdx
        · exact .inl hover
      · obtain ⟨hpass, hover | hdx⟩ := hu
        all_goals
          refine ⟨pass_ne_opening ((Act.post_iff.mp (code_flow enableLoop mem u)).1 v hv) hpass, ?_⟩
        · exact .inl (over_step hover hv)
        · exact .inr ((dx_step hv hpass hnot).trans hdx)
    exact hkept.2.resolve_left fun hover => hover.not_tracks htracks

/-! ## The law -/

/-- Before a row that is tracked there is a row that was tracked last, or none. -/
theorem exists_previous (hs : Enters s) (ht : Goto.Visits (code enableLoop) mem s t)
    (htracks : Tracks d t) : ∃ D, Previous enableLoop mem d s t D := by
  have hne : t ≠ s := by
    rintro rfl
    simpa [hs.pc] using htracks.1
  rcases ht.last (Tracks d) hne with hvia | ⟨b, hb, hb', hvia⟩
  · exact ⟨0, .none hvia⟩
  · exact ⟨drift d b, .row b hb hb' hvia⟩

theorem previous_range (hs : Enters s) (hD : Previous enableLoop mem d s t D) :
    -255 ≤ D ∧ D ≤ 255 := by
  cases hD with
  | none _ => omega
  | row b hb _ _ => exact drift_range (inv_visits hs.inv hb) d

/-- A row that is tracked adds the limited bend of the border to the convexity, in exact
integers, if and only if the bend is limited as its narrowed value is, and the sum stays in the
range of an `int8`. -/
theorem convexity_iff (image : Image) (beyond : ℤ → UInt8) (enableLoop : Bool) (d : Side)
    (s t t' : State) (D : ℤ) (hs : Enters s)
    (ht : Goto.Visits (code enableLoop) (memory image beyond) s t) (htracks : Tracks d t)
    (hnext : (code enableLoop t).next (memory image beyond) = some t')
    (hD : Previous enableLoop (memory image beyond) d s t D) :
    (t'.track d).convex = (t.track d).convex + clamp convexLimit (drift d t - D) ↔
      Narrows (drift d t - D) ∧
        -128 ≤ (t.track d).convex + clamp convexLimit (drift d t - D) ∧
        (t.track d).convex + clamp convexLimit (drift d t - D) ≤ 127 := by
  have hclamp : ∀ x, -2 ≤ clamp convexLimit x ∧ clamp convexLimit x ≤ 2 := by
    intro x
    unfold clamp
    simp only [convexLimit]
    omega
  obtain ⟨hlow, hhigh⟩ := drift_range (inv_visits hs.inv ht) d
  obtain ⟨hlow', hhigh'⟩ := previous_range hs hD
  rw [(tracked_row (record_rowCase htracks.1 hnext) htracks).1, i16_of_range (by omega),
    dx_of_previous hs hD htracks, limit_eq_clamp, i8_sub_i8, i8_add_eq_iff (hclamp _) (hclamp _),
    narrows_iff (by omega) (by omega)]

/-- A road that goes off the right border in the bottom row only; the first pixel of a row is
road too. -/
def notch : Image := fun y x => decide (x = 0 ∨ (50 ≤ x ∧ (x ≤ 183 ∨ y = 119)))

/-- The first row of the right border: column 183 comes after an unset column, 0, so that the
drift is -183. -/
theorem notch_tracked : ∃ t t', Goto.Visits (code false) (memory notch fun _ => EMPTY)
      (called .normal) t ∧ Tracks .right t ∧
    (code false t).next (memory notch fun _ => EMPTY) = some t' ∧
    Previous false (memory notch fun _ => EMPTY) .right (called .normal) t 0 ∧
    drift .right t = -183 ∧ t.r.convex = 0 ∧ t'.r.convex = 2 := by
  have hcheck : Goto.checkVia (code false) (memory notch fun _ => EMPTY)
      (fun t => decide (¬ Tracks .right t))
      (fun t => decide (Tracks .right t ∧ drift .right t = -183 ∧ t.r.convex = 0) &&
        ((code false t).next (memory notch fun _ => EMPTY)).any fun t' =>
          decide (t'.r.convex = 2)) 154 (called .normal) := by
    decide +kernel
  obtain ⟨t, ht, hq⟩ := Goto.exists_via hcheck
  obtain ⟨htracks, hnext⟩ := (Bool.and_eq_true _ _).mp hq
  obtain ⟨t', hnext, hconvex'⟩ := (Option.any_eq_true _ _).mp hnext
  simp only [decide_eq_true_eq] at ht htracks hconvex'
  exact ⟨t, t', ht.visits, htracks.1, hnext, .none ht, htracks.2.1, htracks.2.2, hconvex'⟩

theorem convexity_iff_notch : ∃ t t' : State,
    t'.r.convex = t.r.convex + clamp convexLimit (drift .right t - 0) ↔
      Narrows (drift .right t - 0) ∧
        -128 ≤ t.r.convex + clamp convexLimit (drift .right t - 0) ∧
        t.r.convex + clamp convexLimit (drift .right t - 0) ≤ 127 := by
  obtain ⟨t, t', ht, htracks, hnext, hD, -⟩ := notch_tracked
  exact ⟨t, t', convexity_iff notch (fun _ => EMPTY) false .right (called .normal) t t' 0
    (enters_called .normal) ht htracks hnext hD⟩

/-- A border that jumps outwards by 183 columns counts as one that goes inwards. -/
theorem notch_wrong : ¬ ∀ t t' D, Goto.Visits (code false) (memory notch fun _ => EMPTY)
      (called .normal) t → Tracks .right t →
    (code false t).next (memory notch fun _ => EMPTY) = some t' →
    Previous false (memory notch fun _ => EMPTY) .right (called .normal) t D →
    t'.r.convex = t.r.convex + clamp convexLimit (drift .right t - D) := by
  intro h
  obtain ⟨t, t', ht, htracks, hnext, hD, hdrift, hconvex, hconvex'⟩ := notch_tracked
  have hsum := h t t' 0 ht htracks hnext hD
  rw [hdrift, hconvex, hconvex'] at hsum
  exact absurd hsum (by decide)

end SmartCar.MtImage

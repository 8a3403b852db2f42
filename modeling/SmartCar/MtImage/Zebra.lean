import SmartCar.MtImage.Flow

/-!
# mt_image: zebra crossings

A frame with a zebra crossing is recognised in its bottom row, before anything else is
searched. A frame without one takes an old `Zebra` back, but only if the row begins with a
pixel that is not road; otherwise the element type is left to the classification, which some
ways through `search` do not reach.

* `ZebraFrame` is what a zebra crossing looks like, `Retains` are the places where an old
  `Zebra` is left in force;
* `zebra_iff` is the law.
-/

namespace SmartCar.MtImage

open CInt

variable {mem : Cell → UInt8} {enableLoop : Bool} {s t u : State} {p : ElementType}

/-! ## Law and condition -/

/-- How often the colour changes along a row of pixels that comes after a pixel `curr`. -/
def changes (curr : UInt8) : List UInt8 → ℕ
  | [] => 0
  | q :: qs => if q ≠ curr then changes q qs + 1 else changes curr qs

/-- The bottom row, from `X_MIN` to `X_MAX`. -/
def bottomPixels (mem : Cell → UInt8) : List UInt8 :=
  (List.range 186).map fun i : ℕ => mem (yMax, (i : ℤ) + 1)

/-- The bottom row is that of a zebra crossing. -/
def ZebraFrame (mem : Cell → UInt8) : Prop :=
  mem (yMax, 0) ≠ ROAD ∧ 10 ≤ changes ROAD (bottomPixels mem)

/-- None of the conditions holds under which `cross_bound$:` names a track that has been
normal so far. -/
def Unclassified (enableLoop : Bool) (s : State) : Prop :=
  ¬ (enableLoop ∧ s.l.segs ≥ 3 ∧ s.r.segs = 1) ∧ ¬ (enableLoop ∧ s.l.segs = 1 ∧ s.r.segs ≥ 3) ∧
    ¬ (s.l.segs ≥ 2 ∧ s.r.segs ≥ 2) ∧ ¬ (|s.l.convex| < cvConvex ∧ |s.r.convex| < cvConvex)

/-- `Zebra` is still stored, and the search goes where it is not taken back: it returns
between two borders that are all road, it leaves the normal pass by a lateral exit, or it
cannot tell what the track is. -/
def Retains (enableLoop : Bool) (s : State) : Prop :=
  s.elementType = .zebra ∧
    ((s.pc = .dispatch ∧ s.l.stop0 ∧ s.r.stop0) ∨
      (∃ d, s.pc = .exitColumn d ∧ ¬ within d s.xc) ∨
      (s.pc = .analyze ∧ Unclassified enableLoop s))

/-! ## The bottom row -/

/-- The loop has read `k` pixels. -/
structure Scanning (mem : Cell → UInt8) (p : ElementType) (s : State) : Prop where
  border : mem (yMax, 0) ≠ ROAD
  elementType : s.elementType = p
  el : s.el = p
  count : 0 ≤ s.changeCount ∧ s.changeCount ≤ 9
  rest : ∃ k : ℕ, k ≤ 186 ∧ s.zx = k + 1 ∧ (changes ROAD (bottomPixels mem) : ℤ) =
    s.changeCount + changes s.curr ((bottomPixels mem).drop k)

theorem bottomPixels_length (mem : Cell → UInt8) : (bottomPixels mem).length = 186 := by
  rw [bottomPixels, List.length_map, List.length_range]

theorem drop_bottomPixels (mem : Cell → UInt8) {k : ℕ} (h : k < 186) :
    (bottomPixels mem).drop k = mem (yMax, k + 1) :: (bottomPixels mem).drop (k + 1) := by
  rw [List.drop_eq_getElem_cons (by rwa [bottomPixels_length])]
  simp only [bottomPixels, List.getElem_map, List.getElem_range]

/-- At the end of the row no change is left. -/
theorem changes_drop_end (mem : Cell → UInt8) (curr : UInt8) {k : ℕ} (h : 186 ≤ k) :
    changes curr ((bottomPixels mem).drop k) = 0 := by
  rw [List.drop_eq_nil_of_le (by rwa [bottomPixels_length]), changes]

/-- The row is read to its end, or up to the tenth change. -/
theorem zebra_scanning (h : Scanning mem p s) (hpc : s.pc = .zebra) :
    (zebra s).Post mem
      (fun t => (t.pc = .zebra ∧ Scanning mem p t) ∨
        t.pc = .bottom ∧ ¬ ZebraFrame mem ∧ t.elementType ≠ .zebra)
      fun u => ZebraFrame mem ∧ u.elementType = .zebra := by
  obtain ⟨k, hk, hzx, hrest⟩ := h.rest
  obtain ⟨h0, h9⟩ := h.count
  simp only [zebra, locals, post_px, Act.post_ite, Act.post_goto, Act.post_halt]
  refine ⟨fun hle => ?_, fun hgt => ?_⟩
  · -- the next pixel
    have hlt : k < 186 := by
      simp only [xMax] at hle
      omega
    rw [drop_bottomPixels mem hlt, changes] at hrest
    have hzx' : u8 (s.zx + 1) = ((k + 1 : ℕ) : ℤ) + 1 := by
      rw [u8_of_range (by omega)]
      omega
    have hcell : mem (yMax, s.zx) = mem (yMax, (k : ℤ) + 1) := by rw [hzx]
    by_cases hp : mem (yMax, s.zx) ≠ s.curr
    · have hcount : u8 (s.changeCount + 1) = s.changeCount + 1 := u8_of_range (by omega)
      rw [if_pos (hcell ▸ hp)] at hrest
      simp only [if_pos hp, hcount]
      push_cast at hrest
      refine ⟨fun hten => ⟨⟨h.border, by omega⟩, trivial⟩, fun hten => .inl ⟨hpc, ?_⟩⟩
      exact ⟨h.border, h.elementType, h.el, by constructor <;> dsimp only <;> omega, k + 1, hlt,
        hzx', by rw [hcell]; dsimp only; omega⟩
    · rw [if_neg (hcell ▸ hp)] at hrest
      simp only [if_neg hp]
      refine ⟨fun hten => absurd hten (by omega), fun _ => .inl ⟨hpc, ?_⟩⟩
      exact ⟨h.border, h.elementType, h.el, h.count, k + 1, hlt, hzx', hrest⟩
  · -- the end of the row, with at most nine changes
    rw [changes_drop_end mem s.curr (by simp only [xMax] at hgt; omega)] at hrest
    have hnot : ¬ ZebraFrame mem := fun hz => absurd hz.2 (by omega)
    refine ⟨fun _ => .inr ⟨trivial, hnot, by simp⟩, fun hel => .inr ⟨trivial, hnot, ?_⟩⟩
    exact fun het => hel (h.el.trans (h.elementType.symm.trans het))

/-! ## A label that is gone does not come back -/

/-- After the bottom row no label becomes `Zebra`. -/
theorem not_zebra_step (hpc : s.pc.pass ≠ .opening) (h : s.elementType ≠ .zebra) :
    (code enableLoop s).Post mem (fun t => t.elementType ≠ .zebra)
      fun u => u.elementType ≠ .zebra := by
  by_cases hrenames : Renames s.pc
  · unfold code
    cases hp : s.pc with
    | entry => exact absurd (by rw [hp]; rfl) hpc
    | zebra => exact absurd (by rw [hp]; rfl) hpc
    | record d =>
      refine record_renamed.mono (fun t ht => ?_) fun _ => False.elim
      cases ht with
      | same ht => exact ht.elementType ▸ h
      | curve _ _ het _ => cases d <;> simp [het, curveOf]
      | secondLoop _ _ het _ => cases d <;> simp [het, loopBefore2]
    | loopCancel => simp [loopCancel]
    | topNext => simp [topNext, crossExit, h]
    | crossEnd => simp [crossEnd, crossExit, crossSlope, h]
    | analyze => simp [analyze, h]
    | _ => simp [hp] at hrenames
  · exact (code_keeps hrenames).mono (fun t ht => ht.1.elementType ▸ h) fun u hu => hu ▸ h

/-- What holds in a search whose label is not an old `Zebra` over a row that begins with road. -/
def Decided (mem : Cell → UInt8) (p : ElementType) (s : State) : Prop :=
  (s.pc = .entry ∧ s.elementType = p) ∨ (s.pc = .zebra ∧ Scanning mem p s) ∨
    (s.pc.pass ≠ .opening ∧ ¬ ZebraFrame mem ∧ s.elementType ≠ .zebra)

theorem step_decided (hp : p = .zebra → mem (yMax, 0) ≠ ROAD) (h : Decided mem p s) :
    (code enableLoop s).Post mem (Decided mem p)
      fun u => u.elementType = .zebra ↔ ZebraFrame mem := by
  rcases h with ⟨hpc, het⟩ | ⟨hpc, h⟩ | ⟨hpc, hnot, het⟩
  · simp only [code, hpc, entry, locals, post_px, Act.post_ite, Act.post_goto]
    refine ⟨fun hne => .inr (.inl ⟨rfl, hne, het, het, by simp, 0, by simp, by simp, by simp⟩),
      fun hroad => .inr (.inr ⟨by simp [Pc.pass], fun hz => hroad hz.1, fun hz => ?_⟩)⟩
    exact hroad (hp (het ▸ hz))
  · simp only [code, hpc]
    refine (zebra_scanning h hpc).mono (fun t ht => ?_) fun u hu => iff_of_true hu.2 hu.1
    rcases ht with ht | ⟨hbottom, hnot, het⟩
    · exact .inr (.inl ht)
    · exact .inr (.inr ⟨by simp [hbottom, Pc.pass], hnot, het⟩)
  · refine ((not_zebra_step hpc het).and (code_flow enableLoop mem s)).mono
      (fun t ht => .inr (.inr ⟨pass_ne_opening ht.2 hpc, hnot, ht.1⟩)) fun u hu => ?_
    exact iff_of_false hu.1 hnot

/-! ## An old label over a row that begins with road -/

/-- The element types of a track that has been a zebra crossing. -/
def Labelled (s : State) : Prop :=
  (s.el = .zebra ∧ s.elementType = .zebra) ∨
    (s.el ≤ .normal ∧ s.el ≠ .zebra ∧ s.elementType ≠ .zebra)

/-- What holds in a search that begins, in `s₀`, with an old label: where the midline begins
with it, a place has been visited that retains it. -/
def Held (enableLoop : Bool) (mem : Cell → UInt8) (s₀ s : State) : Prop :=
  match s.pc.pass with
  | .opening => s.pc = .entry ∧ s.elementType = .zebra
  | .bottom | .dispatch | .normal | .exit | .analyze => Labelled s
  | .append | .midline => s.elementType = .zebra →
      ∃ v, Goto.Visits (code enableLoop) mem s₀ v ∧ Retains enableLoop v
  | .loop | .corner | .cross => False

theorem Labelled.le (h : Labelled s) : s.el ≤ .normal := by
  rcases h with ⟨hel, -⟩ | ⟨hle, -⟩
  · rw [hel]
    decide
  · exact hle

theorem Labelled.same (h : Labelled s) (hst : SameElement s t) : Labelled t := by
  unfold Labelled
  rw [hst.el, hst.elementType]
  exact h

theorem record_labelled {d : Side} (h : Labelled s) : Jumps mem Labelled (record d s) := by
  refine record_renamed.mono (fun t ht => ?_) fun _ => id
  cases ht with
  | same ht => exact h.same ht
  | curve _ hel het _ =>
    refine .inr ⟨hel ▸ curveOf_le d, ?_, ?_⟩
    · cases d <;> simp [hel, curveOf]
    · cases d <;> simp [het, curveOf]
  | secondLoop hel _ _ _ => exact absurd (hel ▸ h.le) (loopBefore_not_le d)

/-- A stretch of a pass that does not rename, and that neither ends nor leaves the passes in
which the label is a zebra's or a normal track's. -/
theorem keeps_labelled (h : Labelled s) (hren : ¬ Renames s.pc) (hend : ¬ s.pc.pass.MayEnd) :
    Jumps mem (fun t => Labelled t ∧ s.pc.pass.To t.pc.pass) (code enableLoop s) :=
  ((code_keeps hren).and (code_flow enableLoop mem s)).mono
    (fun _ ht => ⟨h.same ht.1.1, ht.2⟩) fun _ hu => hend hu.2

theorem step_held {s₀ : State} (hroad : mem (yMax, 0) = ROAD)
    (hv : Goto.Visits (code enableLoop) mem s₀ s) (h : Held enableLoop mem s₀ s) :
    (code enableLoop s).Post mem (Held enableLoop mem s₀) fun u => u.elementType = .zebra →
      ∃ v, Goto.Visits (code enableLoop) mem s₀ v ∧ Retains enableLoop v := by
  have hjumps : ∀ {Q : State → Prop} {a : Go}, Jumps mem Q a →
      (∀ t, Q t → Held enableLoop mem s₀ t) →
      a.Post mem (Held enableLoop mem s₀) fun u => u.elementType = .zebra →
        ∃ v, Goto.Visits (code enableLoop) mem s₀ v ∧ Retains enableLoop v :=
    fun ha hQ => ha.mono hQ fun _ => False.elim
  unfold Held at h
  cases hpass : s.pc.pass with
  | opening =>
    rw [hpass] at h
    simp [code, h.1, entry, locals, hroad, Held, Labelled, h.2, Pc.pass]
  | bottom =>
    rw [hpass] at h
    have hren : ¬ Renames s.pc := Pc.not_renames (by simp [hpass])
    refine hjumps (keeps_labelled h hren (by rw [hpass]; simp [Pass.MayEnd])) ?_
    rintro t ⟨ht, hto⟩
    rw [hpass] at hto
    rcases hto with hto | hto <;> simpa [Held, hto] using ht
  | dispatch =>
    rw [hpass] at h
    have hpc := Pc.pass_dispatch.mp hpass
    have hne : s.el ≠ .loopRight ∧ s.el ≠ .loopLeft ∧ s.el ≠ .cross := by
      refine ⟨?_, ?_, ?_⟩ <;> intro hel <;> exact absurd (hel ▸ h.le) (by decide)
    simp only [code, hpc, dispatch, Act.post_ite, Act.post_halt, Act.post_goto, hne, if_false]
    exact ⟨fun hstop hz => ⟨s, hv, hz, .inl ⟨hpc, hstop⟩⟩, fun _ => h⟩
  | normal =>
    rw [hpass] at h
    by_cases hren : Renames s.pc
    · -- only the recording of a row may rename
      obtain ⟨d, hpc⟩ := Pc.record_of_renames hpass hren
      have hrow : Jumps mem (fun t => Labelled t ∧ t.pc.pass = .normal) (code enableLoop s) := by
        simp only [code, hpc]
        exact ((record_labelled h).and record_flow).mono (fun _ => id) fun _ hu => hu.1
      exact hjumps hrow fun t ht => by simpa [Held, ht.2] using ht.1
    · refine hjumps (keeps_labelled h hren (by rw [hpass]; simp [Pass.MayEnd])) ?_
      rintro t ⟨ht, hto⟩
      rw [hpass] at hto
      rcases hto with hto | hto | hto <;> simpa [Held, hto] using ht
  | exit =>
    rw [hpass] at h
    obtain ⟨d, hpc⟩ := Pc.pass_exit.mp hpass
    simp only [code, hpc, exitColumn, appendStart, Act.post_ite, Act.post_goto, Act.post_touch,
      post_setImg]
    exact ⟨fun _ => h, fun hnot hz => ⟨s, hv, hz, .inr (.inl ⟨d, hpc, hnot⟩)⟩⟩
  | analyze =>
    rw [hpass] at h
    have hpc := Pc.pass_analyze.mp hpass
    have hne : s.el ≠ .loopLeftBefore2 ∧ s.el ≠ .loopRightBefore2 := by
      refine ⟨?_, ?_⟩ <;> intro hel <;> exact absurd (hel ▸ h.le) (by decide)
    simp only [code, hpc, analyze, hne, false_and, if_false, h.le, if_true, Act.post_ite,
      Act.post_goto]
    refine ⟨fun _ hz => ?_, fun h1 => ⟨fun _ hz => ?_, fun h2 => ⟨fun _ hz => ?_, fun h3 =>
      ⟨fun _ hz => ?_, fun h4 hz => ?_⟩⟩⟩⟩
    all_goals try cases hz
    exact ⟨s, hv, hz, .inr (.inr ⟨hpc, h1, h2, h3, h4⟩)⟩
  | append =>
    rw [hpass] at h
    have hren : ¬ Renames s.pc := Pc.not_renames (by simp [hpass])
    refine ((code_keeps hren).and (code_flow enableLoop mem s)).mono (fun t ht => ?_)
      fun u hu => hu.1 ▸ h
    have hto := ht.2
    rw [hpass] at hto
    rcases hto with hto | hto <;> simpa [Held, hto, ht.1.1.elementType] using h
  | midline =>
    rw [hpass] at h
    have hren : ¬ Renames s.pc := Pc.not_renames (by simp [hpass])
    refine ((code_keeps hren).and (code_flow enableLoop mem s)).mono (fun t ht => ?_)
      fun u hu => hu.1 ▸ h
    have hto : t.pc.pass = .midline := by simpa [hpass, Pass.To] using ht.2
    simpa [Held, hto, ht.1.1.elementType] using h
  | loop => exact (hpass ▸ h).elim
  | corner => exact (hpass ▸ h).elim
  | cross => exact (hpass ▸ h).elim

/-- A label that is retained once is stored at the end. -/
theorem retains_halts (hl : s.pc.pass = .analyze → Labelled s) (h : Retains enableLoop s)
    (hu : Goto.Halts (code enableLoop) mem s u) : u.elementType = .zebra := by
  rcases h with ⟨hz, hwhere⟩
  refine hu.of_post (fun t => t.elementType = .zebra ∧
    (t = s ∨ t.pc.pass = .append ∨ t.pc.pass = .midline)) (fun u => u.elementType = .zebra)
    ⟨hz, .inl rfl⟩ ?_
  rintro t - ⟨htz, rfl | hpass⟩
  · rcases hwhere with ⟨hpc, hstop⟩ | ⟨d, hpc, hnot⟩ | ⟨hpc, h1, h2, h3, h4⟩
    · simp [code, hpc, dispatch, hstop, hz]
    · simp [code, hpc, exitColumn, hnot, appendStart, hz, Pc.pass]
    · have hle : t.el ≤ .normal := (hl (by rw [hpc]; rfl)).le
      have hne : t.el ≠ .loopLeftBefore2 ∧ t.el ≠ .loopRightBefore2 := by
        refine ⟨?_, ?_⟩ <;> intro hel <;> exact absurd (hel ▸ hle) (by decide)
      simp only [code, hpc, analyze, hne, false_and, if_false, hle, if_true, h1, h2, h3, h4,
        Act.post_goto]
      exact ⟨hz, .inr (.inr rfl)⟩
  · -- from there on nothing changes the label
    have hren : ¬ Renames t.pc := Pc.not_renames (.inr hpass)
    refine ((code_keeps hren).and (code_flow enableLoop mem t)).mono (fun v hv => ?_)
      fun v hv => hv.1.trans htz
    refine ⟨hv.1.1.elementType.trans htz, .inr ?_⟩
    have hto := hv.2
    rcases hpass with hpass | hpass <;> rw [hpass] at hto
    · exact hto
    · exact .inr hto

/-! ## The law -/

/-- A search that ends stores `Zebra` exactly for the frames of a zebra crossing if and only if
it does not retain an old `Zebra` over a row that begins with road. -/
theorem zebra_iff (image : Image) (beyond : ℤ → UInt8) (enableLoop : Bool) (s u : State)
    (hs : Enters s) (hu : Goto.Halts (code enableLoop) (memory image beyond) s u) :
    (u.elementType = .zebra ↔ ZebraFrame (memory image beyond)) ↔
      (s.elementType = .zebra → memory image beyond (yMax, 0) = ROAD →
        ∀ t, Goto.Visits (code enableLoop) (memory image beyond) s t → ¬ Retains enableLoop t) := by
  by_cases hold : s.elementType = .zebra ∧ memory image beyond (yMax, 0) = ROAD
  · obtain ⟨hz, hroad⟩ := hold
    -- the old label is there until it is decided on
    have hheld : ∀ t, Goto.Visits (code enableLoop) (memory image beyond) s t →
        Held enableLoop (memory image beyond) s t := by
      refine Goto.visits_induction _ (by simp [Held, hs.pc, hz, Pc.pass]) fun t t' ht hh hnext => ?_
      exact (Act.post_iff.mp (step_held hroad ht hh)).1 t' hnext
    constructor
    · rintro hiff - - t ht hret
      refine (hiff.mp (retains_halts (fun hpass => ?_) hret (hu.of_visits ht))).1 hroad
      simpa [Held, hpass] using hheld t ht
    · intro hnone
      refine iff_of_false (fun huz => ?_) fun hframe => hframe.1 hroad
      have hlast := hu.of_post (Held enableLoop (memory image beyond) s) _
        (hheld s (Goto.Visits.refl s)) fun t ht hh => step_held hroad ht hh
      obtain ⟨v, hv, hret⟩ := hlast huz
      exact hnone hz hroad v hv hret
  · refine iff_of_true ?_ fun hz hroad => absurd ⟨hz, hroad⟩ hold
    exact hu.of_post (Decided (memory image beyond) s.elementType) _ (.inl ⟨hs.pc, rfl⟩)
      fun t _ ht => step_decided (fun hz hroad => hold ⟨hz, hroad⟩) ht

/-! ## Road everywhere -/

/-- An image that is all road. -/
def allRoad : Image := fun _ _ => true

theorem allRoad_halts : ∃ u, u.elementType = .zebra ∧
    Goto.Halts (code false) (memory allRoad fun _ => EMPTY) (called .zebra) u := by
  have hrun := Goto.exists_visits (code false) (memory allRoad fun _ => EMPTY) (called .zebra) 1750
    (fun t => ((code false t).final (memory allRoad fun _ => EMPTY)).any
      fun u => decide (u.elementType = .zebra)) (by decide +kernel)
  obtain ⟨t, ht, hfinal⟩ := hrun
  obtain ⟨u, hu, hz⟩ := (Option.any_eq_true _ _).mp hfinal
  exact ⟨u, of_decide_eq_true hz, t, ht, hu⟩

theorem zebra_iff_allRoad : ∃ u, Goto.Halts (code false) (memory allRoad fun _ => EMPTY)
      (called .zebra) u ∧
    ((u.elementType = .zebra ↔ ZebraFrame (memory allRoad fun _ => EMPTY)) ↔
      ((called .zebra).elementType = .zebra → memory allRoad (fun _ => EMPTY) (yMax, 0) = ROAD →
        ∀ t, Goto.Visits (code false) (memory allRoad fun _ => EMPTY) (called .zebra) t →
          ¬ Retains false t)) := by
  obtain ⟨u, -, hu⟩ := allRoad_halts
  exact ⟨u, hu,
    zebra_iff allRoad (fun _ => EMPTY) false (called .zebra) u (enters_called .zebra) hu⟩

/-- A frame that is all road keeps an old `Zebra`. -/
theorem allRoad_stays_zebra :
    ¬ ∀ u, Goto.Halts (code false) (memory allRoad fun _ => EMPTY) (called .zebra) u →
      (u.elementType = .zebra ↔ ZebraFrame (memory allRoad fun _ => EMPTY)) := by
  intro h
  obtain ⟨u, hz, hu⟩ := allRoad_halts
  have hframe := (h u hu).mp hz
  exact hframe.1 (by decide)

end SmartCar.MtImage

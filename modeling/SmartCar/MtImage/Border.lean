import SmartCar.MtImage.RowScan

/-!
# mt_image: borders that are all road

If the border of the image is road from the bottom row up to row 79, the bottom stage is to
stop the side, so that the normal pass leaves it alone. On the left it does; on the right it
sets `r_stop0` twice and `r_stop` never, and the normal pass follows whatever edge it comes
upon. `border_stops_iff` says when it comes upon none.
-/

namespace SmartCar.MtImage

open CInt

variable {mem : Cell → UInt8} {enableLoop : Bool} {s t f : State} {d : Side}

/-! ## Law and condition -/

/-- The bottom stage has found its row, with the border of side `d`, which is all road. -/
structure BorderRoad (mem : Cell → UInt8) (d : Side) (s : State) : Prop where
  pc : s.pc = .bottomFound
  x : (s.track d).x = d.edge
  road : ∀ i, yBottomMin + 1 ≤ i → i ≤ s.y → mem (i, d.edge) ≠ EMPTY

/-- A lateral exit has been followed across the image, and there are rows to append. -/
def ExitAppends (d : Side) (s : State) : Prop :=
  s.pc = .exitColumn d ∧ ¬ within d s.xc ∧ s.yc < yMax - 1

/-- The normal pass is about to store a column of side `d`: one that it has tracked, one that it
extrapolates, or those of a lateral exit. -/
def Stores (d : Side) (s : State) : Prop :=
  Tracks d s ∨
    (s.pc = .record d ∧ (s.track d).x ≠ d.edge ∧ s.lost = true ∧ ¬ s.el > .cross ∧
      (s.track d).mSet = true) ∨
    ExitAppends d s

instance (d : Side) (s : State) : Decidable (ExitAppends d s) :=
  inferInstanceAs (Decidable (_ ∧ _))

instance (d : Side) (s : State) : Decidable (Stores d s) :=
  inferInstanceAs (Decidable (_ ∨ _ ∧ _ ∨ _))

/-! ## The left side -/

/-- What holds at label `p` after the bottom stage has found a left border that is all road. -/
def LeftStopped (mem : Cell → UInt8) (p : Pc) (s : State) : Prop :=
  match p with
  | .bottomFound => BorderRoad mem .left s
  | .edge .left => ∀ i, yBottomMin + 1 ≤ i → i ≤ s.y → mem (i, xMin) ≠ EMPTY
  | .edge .right => s.l.stop = true
  | p => s.l.stop = true ∧ p.pass ≠ .opening ∧ p.pass ≠ .bottom ∧ ¬ p.InRow .left

theorem edgeRight_stopped (h : s.l.stop = true) :
    Leads mem (fun t => LeftStopped mem t.pc t) (edgeRight s) := by
  simp only [edgeRight, Act.sat_ite, Act.sat_goto]
  exact ⟨fun _ => h, fun _ => ⟨h, by simp [Pc.pass], by simp [Pc.pass], by simp [Pc.InRow]⟩⟩

/-- The scan of the border runs to its end. -/
theorem edge_stopped (hi : Inv s) (hpc : s.pc = .edge .left)
    (h : LeftStopped mem (.edge .left) s) :
    Leads mem (fun t => LeftStopped mem t.pc t) (edge .left s) := by
  obtain ⟨hy, hy', -⟩ := hi.at hpc
  have hroad : mem (s.y, xMin) ≠ EMPTY := h s.y (by simpa using hy) le_rfl
  have hu8 : u8 (s.y - 1) = s.y - 1 := u8_of_range (by omega)
  simp only [edge, edgeDone, sat_px, Side.edge, Act.sat_ite, Act.sat_goto, hu8]
  refine ⟨trivial, fun _ => ⟨fun _ => edgeRight_stopped rfl, fun _ => ?_⟩,
    fun hgap => absurd hroad hgap⟩
  rw [hpc]
  intro i hlow hle
  change i ≤ s.y - 1 at hle
  exact h i hlow (by omega)

/-- Recording a row does not take a stop back. -/
theorem rowCase_stop (h : RowCase d s t) (hstop : (s.track d).stop = true) :
    (t.track d).stop = true := by
  obtain ⟨hbased, hsloped⟩ := sloped_field (s := s) (d := d) Track.stop fun _ _ _ _ _ => rfl
  have hrecorded : (recorded d s).stop = (sloped d s).stop := by
    unfold recorded countRow
    dsimp only
    split <;> rfl
  have hafter : (recorded d s).stop = true := hrecorded.trans (hsloped.trans hstop)
  exact rowCase_rule (P := fun v => v.stop = true) h
    (fun hv hw => (congrArg Track.stop hv).trans hw) hstop (fun _ => rfl)
    (fun _ => hbased.trans hstop) (hbased.trans hstop) fun _ _ _ => ⟨hafter, hafter⟩

/-- After the bottom stage a stopped side stays stopped. -/
theorem stop_step (ht : (code enableLoop s).next mem = some t) (hopening : s.pc.pass ≠ .opening)
    (hbottom : s.pc.pass ≠ .bottom) (h : (s.track d).stop = true) :
    (t.track d).stop = true := by
  have hkept : ∀ {v : Track}, Becomes d v t → v.stop = (s.track d).stop →
      (t.track d).stop = true := by
    intro v hv hstop
    rw [hv.field Track.stop fun _ => rfl, hstop]
    exact h
  cases track_step ht d with
  | still _ h' => exact hkept h' rfl
  | locals hpc _ => exact absurd hpc hopening
  | bottom _ _ _ h' => exact hkept h' rfl
  | flags hpc _ => exact absurd hpc hbottom
  | reset _ h' => exact hkept h' rfl
  | row _ h' => exact rowCase_stop h' h
  | append _ _ h' => exact hkept h' rfl
  | cross _ h' => exact hkept h' rfl
  | crossSlope _ _ h' => exact hkept h' rfl

/-- No pass goes back to the bottom row. -/
theorem pass_after {p q : Pass} (h : p.To q) (hp : p ≠ .opening) (hp' : p ≠ .bottom) :
    q ≠ .opening ∧ q ≠ .bottom := by
  cases p <;> simp [Pass.To] at h hp hp' <;> grind

theorem leftStopped_iff {p : Pc} (h : p.pass ≠ .bottom) : LeftStopped mem p s ↔
    s.l.stop = true ∧ p.pass ≠ .opening ∧ p.pass ≠ .bottom ∧ ¬ p.InRow .left := by
  unfold LeftStopped
  split
  · exact absurd rfl h
  · exact absurd rfl h
  · exact absurd rfl h
  · exact Iff.rfl

/-- Each stretch of code leaves the left side stopped. -/
theorem step_leftStopped (hi : Inv s) (h : LeftStopped mem s.pc s)
    (ht : (code enableLoop s).next mem = some t) : LeftStopped mem t.pc t := by
  by_cases hpass : s.pc.pass = .bottom
  · -- the border is scanned: it is road in every row, so the scan ends with the side stopped
    have hleads : Leads mem (fun t => LeftStopped mem t.pc t) (code enableLoop s) := by
      unfold code
      cases hpc : s.pc with
      | bottomFound =>
        rw [hpc] at h
        have hx : s.l.x = xMin := h.x
        simp only [bottomFound, edgeLeft, hx, Act.sat_touch, sat_setImg, if_true, Act.sat_goto]
        exact ⟨trivial, trivial, h.road⟩
      | edge d =>
        rw [hpc] at h
        cases d
        · exact edge_stopped hi hpc h
        · simp only [edge, edgeDone, setStop, sat_px, Act.sat_ite, Act.sat_goto]
          have hafter : ∀ v : State, v.l.stop = true → LeftStopped mem .dispatch v := fun v hv =>
            ⟨hv, by simp [Pc.pass], by simp [Pc.pass], by simp [Pc.InRow]⟩
          refine ⟨trivial, fun _ => ⟨fun _ => hafter _ h, fun _ => ?_⟩, fun _ => hafter _ h⟩
          rw [hpc]
          exact h
      | _ => simp [hpc, LeftStopped, Pc.pass] at h hpass
    exact hleads.next ht
  · -- afterwards the flag stays, and keeps rows of the side from beginning
    obtain ⟨hstop, hopening, hbottom, hrow⟩ := (leftStopped_iff hpass).mp h
    obtain ⟨hopening', hbottom'⟩ :=
      pass_after ((Act.post_iff.mp (code_flow enableLoop mem s)).1 t ht) hopening hbottom
    refine (leftStopped_iff hbottom').mpr
      ⟨stop_step (d := .left) ht hopening hbottom hstop, hopening', hbottom', fun hrow' => ?_⟩
    rcases begins_or_inRow ht hrow' with hbegins | ⟨hin, -⟩
    · exact absurd hstop (by simpa using hbegins.2)
    · exact hrow hin

/-- A stopped left side stores nothing. -/
theorem left_stores_nothing (hs : Enters s) (hf : Goto.Visits (code enableLoop) mem s f)
    (hborder : BorderRoad mem .left f) (ht : Goto.Visits (code enableLoop) mem f t) :
    ¬ Stores .left t := by
  have hstopped : LeftStopped mem t.pc t := by
    refine Goto.visits_induction (fun t => LeftStopped mem t.pc t) ?_ (fun u v hu h hv => ?_) t ht
    · rw [hborder.pc]
      exact hborder
    · exact step_leftStopped (inv_visits hs.inv (hf.trans hu)) h hv
  rintro (⟨hpc, -⟩ | ⟨hpc, -⟩ | ⟨hpc, -⟩) <;> rw [hpc] at hstopped <;>
    exact hstopped.2.2.2 rfl

/-! ## The right side -/

/-- A row that is not tracked sets no slope. -/
theorem rowCase_mSet (hpc : s.pc = .record d) (h : RowCase d s t) (hnot : ¬ Tracks d s)
    (hm : (s.track d).mSet = false) : (t.track d).mSet = false := by
  have hbased : (based d s).mSet = false := (based_kept d s).2.2.1.trans hm
  exact rowCase_rule (P := fun v => v.mSet = false) h
    (fun hv hw => (congrArg Track.mSet hv).trans hw) hm (fun _ => hbased)
    (fun hset => absurd (hm.symm.trans hset) (by decide)) hbased
    fun hl hx => absurd ⟨hpc, hl, hx⟩ hnot

/-- Without a row that is tracked there is no slope. -/
theorem mSet_of_untracked (hf : f.pc = .bottomFound)
    (hnone : ∀ u, Goto.Visits (code enableLoop) mem f u → ¬ Tracks d u)
    (ht : Goto.Visits (code enableLoop) mem f t) (hreset : t.pc.Reset) :
    (t.track d).mSet = false := by
  refine Goto.visits_induction (fun t => t.pc.Reset → (t.track d).mSet = false)
    (fun h => absurd h (by simp [hf, Pc.Reset, Pc.pass]))
    (fun u v hu ih hv hreset => ?_) t ht hreset
  rcases Pc.reset_of_succs v.pc (next_succs hv) hreset with hpc | hu'
  · -- the flags are reset before the first row
    have hfirst : Leads mem (fun v => (v.track d).mSet = false) (code enableLoop u) := by
      simp only [code, hpc, normalBound, Act.sat_goto]
      cases d <;> rfl
    exact hfirst.next hv
  · have hm := ih hu'
    obtain ⟨hpass, hne⟩ := hu'
    have hkept : ∀ {w : Track}, Becomes d w v → w.mSet = (u.track d).mSet →
        (v.track d).mSet = false := by
      intro w hw hset
      rw [hw.field Track.mSet fun _ => rfl, hset]
      exact hm
    cases track_step hv d with
    | still _ h' => exact hkept h' rfl
    | locals hpc _ => simp [hpc] at hpass
    | bottom _ _ _ h' => exact hkept h' rfl
    | flags _ h' =>
      obtain ⟨_, _, _, _, h'⟩ := h'
      exact hkept h' rfl
    | reset hpc _ => exact absurd hpc hne
    | row hpc h' => exact rowCase_mSet hpc h' (hnone u hu) hm
    | append _ _ h' => exact hkept h' rfl
    | cross _ h' => exact hkept h' rfl
    | crossSlope _ _ h' => exact hkept h' rfl

/-! ## The law -/

/-- After a border that is all road, the normal pass stores nothing of the side if and only if
the side is the left one, or no row of it has an edge in reach and no lateral exit is followed
to its end. -/
theorem border_stops_iff (image : Image) (beyond : ℤ → UInt8) (enableLoop : Bool) (d : Side)
    (s f : State) (hs : Enters s)
    (hf : Goto.Visits (code enableLoop) (memory image beyond) s f)
    (hborder : BorderRoad (memory image beyond) d f) :
    (∀ t, Goto.Visits (code enableLoop) (memory image beyond) f t → ¬ Stores d t) ↔
      (d = .right → ∀ t, Goto.Visits (code enableLoop) (memory image beyond) f t →
        ¬ (Begins .right t ∧ EdgeInReach (memory image beyond) .right t) ∧
          ¬ ExitAppends .right t) := by
  constructor
  · rintro hnone rfl t ht
    have htracked : Inv t → Begins .right t → EdgeInReach (memory image beyond) .right t →
        ∃ b, Goto.Visits (code enableLoop) (memory image beyond) t b ∧ Tracks .right b :=
      tracks_of_reach
    constructor
    · -- a row with an edge in reach is tracked, and a tracked row stores its column
      rintro ⟨hbegins, hreach⟩
      obtain ⟨b, hb, htracks⟩ := htracked (inv_visits hs.inv (hf.trans ht)) hbegins hreach
      exact hnone b (ht.trans hb) (.inl htracks)
    · exact fun hexit => hnone t ht (.inr (.inr hexit))
  · intro hcond
    cases d with
    | left => exact fun t ht => left_stores_nothing hs hf hborder ht
    | right =>
      have hrow : ¬ f.pc.InRow .right := by
        rw [hborder.pc]
        exact id
      have hnone : ∀ u, Goto.Visits (code enableLoop) (memory image beyond) f u →
          ¬ Tracks .right u := by
        intro u hu htracks
        obtain ⟨a, ha, hbegins, hvia⟩ := row_begun hrow hu (by rw [htracks.1]; rfl)
        have hinv := inv_visits hs.inv (hf.trans ha)
        have hscan := scan_ends hinv hbegins hvia htracks.1
        exact (hcond rfl a ha).1
          ⟨hbegins, (tracks_iff_reach (hinv.byte_x .right) htracks.1 hscan).mp htracks⟩
      rintro t ht (htracks | ⟨hpc, -, -, -, hset⟩ | hexit)
      · exact hnone t ht htracks
      · -- without a tracked row there is no slope to extrapolate with
        have hm := mSet_of_untracked hborder.pc hnone ht (by simp [hpc, Pc.Reset, Pc.pass])
        rw [hm] at hset
        cases hset
      · exact (hcond rfl t ht).2 hexit

/-- A road that goes off the right border, up to row 79, and leaves two columns free above; the
first pixel of a row is road too. -/
def lip : Image := fun y x => decide (x = 0 ∨ (50 ≤ x ∧ (x ≤ 185 ∨ 79 ≤ y)))

theorem lip_border : ∃ f, Goto.Visits (code false) (memory lip fun _ => EMPTY) (called .normal) f ∧
    BorderRoad (memory lip fun _ => EMPTY) .right f ∧
    ∃ t, Goto.Visits (code false) (memory lip fun _ => EMPTY) f t ∧ Stores .right t := by
  have hrun := Goto.exists_visits (code false) (memory lip fun _ => EMPTY) (called .normal) 140
    (fun f => decide (f.pc = .bottomFound ∧ f.r.x = xMax ∧ f.y = yMax) &&
      (Goto.after (code false) (memory lip fun _ => EMPTY) 372 f).any
        fun t => decide (Stores .right t)) (by decide +kernel)
  obtain ⟨f, hf, hp⟩ := hrun
  obtain ⟨hfound, hrun⟩ := (Bool.and_eq_true _ _).mp hp
  obtain ⟨hpc, hx, hy⟩ := of_decide_eq_true hfound
  obtain ⟨t, ht, hstores⟩ := (Option.any_eq_true _ _).mp hrun
  refine ⟨f, hf, ⟨hpc, hx, fun i hlow hle => ?_⟩, t, ⟨372, ht⟩, of_decide_eq_true hstores⟩
  have hall : ∀ n < 41, memory lip (fun _ => EMPTY) (79 + (n : ℕ), xMax) ≠ EMPTY := by decide
  have hcell := hall (i - 79).toNat (by simp only [hy, yBottomMin, yMax] at hlow hle; omega)
  rwa [show 79 + (((i - 79).toNat : ℕ) : ℤ) = i by simp only [yBottomMin] at hlow; omega] at hcell

theorem border_stops_iff_lip : ∃ f,
    (∀ t, Goto.Visits (code false) (memory lip fun _ => EMPTY) f t → ¬ Stores .right t) ↔
      ((.right : Side) = .right → ∀ t, Goto.Visits (code false) (memory lip fun _ => EMPTY) f t →
        ¬ (Begins .right t ∧ EdgeInReach (memory lip fun _ => EMPTY) .right t) ∧
          ¬ ExitAppends .right t) := by
  obtain ⟨f, hf, hborder, -⟩ := lip_border
  exact ⟨f, border_stops_iff lip (fun _ => EMPTY) false .right (called .normal) f
    (enters_called .normal) hf hborder⟩

/-- The border is all road, and a column of it is stored. -/
theorem lip_stored : ¬ ∀ f, Goto.Visits (code false) (memory lip fun _ => EMPTY)
      (called .normal) f → BorderRoad (memory lip fun _ => EMPTY) .right f →
    ∀ t, Goto.Visits (code false) (memory lip fun _ => EMPTY) f t → ¬ Stores .right t := by
  intro h
  obtain ⟨f, hf, hborder, t, ht, hstores⟩ := lip_border
  exact h f hf hborder t ht hstores

end SmartCar.MtImage

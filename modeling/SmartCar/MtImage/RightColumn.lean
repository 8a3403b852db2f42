import SmartCar.MtImage.Append
import SmartCar.MtImage.Bottom
import SmartCar.MtImage.Tracks

/-!
# mt_image: unset columns on the right

Zero stands for a column that is unset. The code that appends a right boundary begins it at
`xrs[Y_MAX]` without asking whether this is set, and on the left loop the midline takes the
right column of a row that has a left one even if there is none.

* `bottom_column`: only the bottom stage sets `xrs[Y_MAX]`;
* `right_set_iff` is the law.
-/

namespace SmartCar.MtImage

open CInt

variable {mem : Cell → UInt8} {enableLoop : Bool} {s t u f : State} {d : Side}

/-! ## The column of the bottom row -/

/-- The labels before the bottom stage has found its row. -/
def Pc.Early : Pc → Prop
  | .entry | .zebra | .bottom | .bottomLeft _ | .bottomRight | .bottomSeek | .bottomTest => True
  | _ => False

/-- The bottom stage is over, and nothing goes back to it. -/
theorem Pc.not_early_of_succs {p : Pc} : ∀ q ∈ p.succs, ¬ p.Early → ¬ q.Early := by
  cases p with
  | bottomLeft b | topLeft b => cases b <;> simp [succs, Early]
  | edge e | side e | record e | corner e | crossRecord e => cases e <;> simp [succs, Early]
  | _ => simp [succs, Early]

theorem Pc.early_of_succs {p : Pc} : ∀ q ∈ p.succs, p.Early → q.Early ∨ q = .bottomFound := by
  cases p with
  | bottomLeft b => cases b <;> simp [succs, Early]
  | _ => simp [succs, Early]

theorem Pc.early_of_found {p : Pc} : ∀ q ∈ p.succs, q = .bottomFound → p.Early := by
  cases p with
  | bottomLeft b | topLeft b => cases b <;> simp [succs, Early]
  | edge e | side e | record e | corner e | crossRecord e => cases e <;> simp [succs, Early]
  | _ => simp [succs, Early]

/-- What is known of `xrs[Y_MAX]` at label `p`. -/
@[simp] def BottomColumn (p : Pc) (s : State) : Prop :=
  match p with
  | .bottom | .bottomLeft _ | .bottomRight | .bottomSeek | .bottomTest => s.r.xs yMax = 0
  | .bottomFound => s.r.xs yMax ≠ 0 ↔ s.y = yMax ∧ s.r.x ≠ xMax
  | _ => True

theorem bottomTest_column (hx : 1 ≤ s.r.x) (h : s.r.xs yMax = 0) :
    Leads mem (fun t => BottomColumn t.pc t) (bottomTest s) := by
  have hstored : s.r.x ≠ xMax → (Function.update s.r.xs s.y s.r.x yMax ≠ 0 ↔
      s.y = yMax ∧ s.r.x ≠ xMax) := by
    intro hr
    by_cases hy : s.y = yMax
    · rw [hy, Function.update_self]
      exact iff_of_true (by omega) ⟨rfl, hr⟩
    · rw [Function.update_of_ne (Ne.symm hy)]
      exact iff_of_false (fun hne => hne h) fun hrow => hy hrow.1
  have hunset : ¬ s.r.x ≠ xMax → (s.r.xs yMax ≠ 0 ↔ s.y = yMax ∧ s.r.x ≠ xMax) := fun hr =>
    iff_of_false (fun hne => hne h) fun hrow => hr hrow.2
  simp only [bottomTest, bottomStore, Act.sat_ite, Act.sat_touch, Act.sat_goto]
  exact ⟨fun _ => ⟨fun _ => ⟨trivial, fun hr => ⟨trivial, hstored hr⟩, hunset⟩,
    fun _ => ⟨fun hr => ⟨trivial, hstored hr⟩, hunset⟩⟩, fun _ => h⟩

/-- Past the search for the bottom row nothing is said. -/
theorem bottomColumn_of_late (h : ¬ t.pc.Early) (h' : t.pc ≠ .bottomFound) :
    BottomColumn t.pc t := by
  cases hpc : t.pc with
  | bottom | bottomLeft b | bottomRight | bottomSeek | bottomTest =>
    exact absurd (by rw [hpc]; trivial) h
  | bottomFound => exact absurd hpc h'
  | _ => trivial

/-- Each stretch of code keeps what is known of `xrs[Y_MAX]`. -/
theorem step_column (hi : Inv s) (hstretch : Stretch mem s.pc s) (h : BottomColumn s.pc s) :
    Leads mem (fun t => BottomColumn t.pc t) (code enableLoop s) := by
  by_cases hearly : s.pc.Early
  · unfold code
    cases hpc : s.pc with
    | entry => simp [entry, locals, initTrack]
    | zebra => by_cases hp : mem (119, s.zx) = s.curr <;> simp [zebra, locals, initTrack, hpc, hp]
    | bottom =>
      obtain ⟨hy, hy'⟩ := hi.at hpc
      rw [hpc] at h
      simp only [bottom, sat_px, Act.sat_ite, Act.sat_goto]
      refine ⟨fun _ => ⟨trivial, fun _ => h, fun _ => h⟩, fun hle => ?_⟩
      -- the search for a row has been given up at row 110
      refine iff_of_false (fun hne => hne h) fun hrow => ?_
      simp only [yBottomBothLostMin, yMax] at hle hrow
      omega
    | bottomLeft b =>
      rw [hpc] at h
      cases b <;> simp [bottomLeft, hpc] at h ⊢ <;> simp [h]
    | bottomRight =>
      rw [hpc] at h
      simp [bottomRight, hpc] at h ⊢
      simp [h]
    | bottomSeek =>
      rw [hpc] at h
      simp [bottomSeek, hpc] at h ⊢
      simp [h]
    | bottomTest =>
      rw [hpc] at h hstretch
      exact bottomTest_column (hstretch.1.trans hstretch.2.1) h
    | _ =>
      rw [hpc] at hearly
      exact hearly.elim
  · refine Act.sat_iff.mpr ⟨by simp, by simp, fun t ht => ?_⟩
    have hsuccs := next_succs ht
    exact bottomColumn_of_late (Pc.not_early_of_succs t.pc hsuccs hearly)
      fun hfound => hearly (Pc.early_of_found t.pc hsuccs hfound)

/-- After the bottom stage the columns of the bottom row are kept. -/
theorem bottom_row_kept (hi : Inv s) (hearly : ¬ s.pc.Early)
    (ht : (code enableLoop s).next mem = some t) (d : Side) :
    (t.track d).xs yMax = (s.track d).xs yMax := by
  have hkept : ∀ {v : Track}, Becomes d v t → v.xs yMax = (s.track d).xs yMax →
      (t.track d).xs yMax = (s.track d).xs yMax := by
    intro v hv hxs
    rw [hv.field Track.xs fun _ => rfl, hxs]
  have hstored : ∀ {x : ℤ}, s.y ≤ 118 →
      Function.update (s.track d).xs s.y x yMax = (s.track d).xs yMax := fun hy =>
    Function.update_of_ne (by simp only [yMax]; omega) _ _
  cases track_step ht d with
  | still _ h => exact hkept h rfl
  | locals hpc _ => rcases Pc.pass_opening.mp hpc with hpc | hpc <;> simp [hpc, Pc.Early] at hearly
  | bottom hpc _ _ _ => simp [hpc, Pc.Early] at hearly
  | flags _ h =>
    obtain ⟨_, _, _, _, h⟩ := h
    exact hkept h rfl
  | reset _ h => exact hkept h rfl
  | row hpc h =>
    have hy := (hi.at hpc).2.1
    exact rowCase_xs_other h (by simp only [yMax]; omega)
  | append hpc _ h => exact hkept h (hstored (hi.at hpc).1)
  | cross hpc h => exact hkept h (hstored (hi.at hpc).2.1)
  | crossSlope _ _ h => exact hkept h rfl

/-- The bottom stage has found the bottom row, and a right end in it. -/
def FoundBottom (s : State) : Prop := s.pc = .bottomFound ∧ s.y = yMax ∧ s.r.x ≠ xMax

/-- Past the bottom stage, a state in which it has found its row lies behind. -/
theorem bottom_passed (hs : Enters s) (ht : Goto.Visits (code enableLoop) mem s t)
    (hearly : ¬ t.pc.Early) : ∃ f, Goto.Visits (code enableLoop) mem s f ∧
      f.pc = .bottomFound ∧ Goto.Visits (code enableLoop) mem f t := by
  refine Goto.visits_induction (fun t => ¬ t.pc.Early → ∃ f,
    Goto.Visits (code enableLoop) mem s f ∧ f.pc = .bottomFound ∧
      Goto.Visits (code enableLoop) mem f t) (fun h => absurd (by rw [hs.pc]; trivial) h)
    (fun u v hu ih hv hearly => ?_) t ht hearly
  by_cases hbefore : u.pc.Early
  · have hpc := (Pc.early_of_succs v.pc (next_succs hv) hbefore).resolve_left hearly
    exact ⟨v, hu.step hv, hpc, Goto.Visits.refl v⟩
  · obtain ⟨f, hf, hpc, hfu⟩ := ih hbefore
    exact ⟨f, hf, hpc, hfu.step hv⟩

/-- From any state past the search for the bottom row, its columns are kept. -/
theorem bottom_row_same (hi : Inv f) (hearly : ¬ f.pc.Early)
    (ht : Goto.Visits (code enableLoop) mem f t) (d : Side) :
    ¬ t.pc.Early ∧ (t.track d).xs yMax = (f.track d).xs yMax := by
  refine Goto.visits_induction
    (fun t => ¬ t.pc.Early ∧ (t.track d).xs yMax = (f.track d).xs yMax) ⟨hearly, rfl⟩
    (fun u v hu ih hv => ?_) t ht
  refine ⟨Pc.not_early_of_succs v.pc (next_succs hv) ih.1, ?_⟩
  rw [bottom_row_kept (inv_visits hi hu) ih.1 hv d, ih.2]

/-- `xrs[Y_MAX]` is set if and only if the bottom stage has found the bottom row, and a right end
in it. -/
theorem bottom_column (hs : Enters s) (ht : Goto.Visits (code enableLoop) mem s t)
    (hearly : ¬ t.pc.Early) : t.r.xs yMax ≠ 0 ↔
      ∃ f, Goto.Visits (code enableLoop) mem s f ∧ FoundBottom f ∧
        Goto.Visits (code enableLoop) mem f t := by
  have hcolumn : ∀ f, Goto.Visits (code enableLoop) mem s f → f.pc = .bottomFound →
      (f.r.xs yMax ≠ 0 ↔ f.y = yMax ∧ f.r.x ≠ xMax) := by
    intro f hf hpc
    have hbottom := Goto.visits_induction (fun u => BottomColumn u.pc u) (by simp [hs.pc])
      (fun v w hv h hw =>
        (step_column (inv_visits hs.inv hv) (stretch_visits hs hv) h).next hw) f hf
    rwa [hpc] at hbottom
  have hkept : ∀ f, Goto.Visits (code enableLoop) mem s f → f.pc = .bottomFound →
      Goto.Visits (code enableLoop) mem f t → t.r.xs yMax = f.r.xs yMax := by
    intro f hf hpc hft
    exact (bottom_row_same (inv_visits hs.inv hf) (by simp [hpc, Pc.Early]) hft .right).2
  constructor
  · intro hset
    obtain ⟨f, hf, hpc, hft⟩ := bottom_passed hs ht hearly
    rw [hkept f hf hpc hft, hcolumn f hf hpc] at hset
    exact ⟨f, hf, ⟨hpc, hset⟩, hft⟩
  · rintro ⟨f, hf, ⟨hpc, hfound⟩, hft⟩
    rw [hkept f hf hpc hft]
    exact (hcolumn f hf hpc).mpr hfound

/-! ## The rows of the midline -/

/-- Row `y` has both columns. -/
def Both (s : State) (y : ℤ) : Prop := s.l.xs y ≠ 0 ∧ s.r.xs y ≠ 0

instance (s : State) (y : ℤ) : Decidable (Both s y) := inferInstanceAs (Decidable (_ ∧ _))

/-- `t` comes after `s` when a row of the midline is done. -/
structure RowCounted (s t : State) : Prop where
  pc : t.pc = .midRow
  el : t.el = s.el
  lxs : t.l.xs = s.l.xs
  rxs : t.r.xs = s.r.xs
  yStart : t.yStart = s.yStart
  y : t.y = u8 (s.y - 1)
  bothCount : t.bothCount = if Both s s.y then u8 (s.bothCount + 1) else 0

theorem midRow_counted (hpc : s.pc = .midRow) :
    Leads mem (fun t => s.yStart ≤ s.y ∧ RowCounted s t) (midRow s) := by
  simp only [midRow, midline, midOneSided, Act.sat_ite, Act.sat_touch, sat_setImg, Act.sat_goto,
    Act.sat_halt]
  refine ⟨fun hge => ⟨trivial, trivial, fun hboth => ?_, fun hboth => ⟨fun _ => ?_, fun _ =>
    ⟨fun _ => ⟨trivial, fun _ => ?_, fun _ => ?_⟩, fun _ => ⟨fun _ => ⟨trivial, fun _ => ?_,
      fun _ => ?_⟩, fun _ => ?_⟩⟩⟩⟩, fun _ => trivial⟩
  · exact ⟨hge, hpc, rfl, rfl, rfl, rfl, rfl, (if_pos hboth).symm⟩
  all_goals exact ⟨hge, hpc, rfl, rfl, rfl, rfl, rfl, (if_neg hboth).symm⟩

theorem midRow_step (hpc : s.pc = .midRow) (ht : (code enableLoop s).next mem = some t) :
    s.yStart ≤ s.y ∧ RowCounted s t := by
  rw [code, hpc] at ht
  exact (midRow_counted hpc).next ht

/-! ## The left loop -/

/-- The labels at which `el` may be `LoopLeft`. -/
def Pc.OnLeftLoop : Pc → Prop
  | .entry | .zebra | .bottom | .bottomLeft _ | .bottomRight | .bottomSeek | .bottomTest
  | .bottomFound | .edge _ | .dispatch | .loop | .loopDrop .left | .loopRise .left
  | .corner .left | .cornerUp .left | .cornerDown .left | .loopCancel | .append .right | .mid
  | .midRow => True
  | _ => False

theorem Pc.onLeftLoop_of_succs {p : Pc} (h : p.OnLeftLoop) (hdispatch : p ≠ .dispatch)
    (hloop : p ≠ .loop) (hcancel : p ≠ .loopCancel) : ∀ q ∈ p.succs, q.OnLeftLoop := by
  cases p with
  | bottomLeft b => cases b <;> simp [succs, OnLeftLoop]
  | edge d | loopDrop d | loopRise d | corner d | cornerUp d | cornerDown d | append d =>
    cases d <;> simp [succs, OnLeftLoop] at h ⊢
  | _ => simp [succs, OnLeftLoop] at h hdispatch hloop hcancel ⊢

/-- Each stretch of code keeps to these labels. -/
theorem step_onLeftLoop (h : s.el = .loopLeft → s.pc.OnLeftLoop)
    (ht : (code enableLoop s).next mem = some t) : t.el = .loopLeft → t.pc.OnLeftLoop := by
  have hleads : ∀ {a : Go}, code enableLoop s = a →
      Leads mem (fun t => t.el = .loopLeft → t.pc.OnLeftLoop) a →
      t.el = .loopLeft → t.pc.OnLeftLoop := fun ha hl => (ha ▸ hl).next ht
  by_cases hrenames : Renames s.pc
  · cases hpc : s.pc with
    | entry | zebra =>
      refine fun _ => Pc.onLeftLoop_of_succs (p := s.pc) ?_ ?_ ?_ ?_ t.pc (next_succs ht) <;>
        simp [hpc, Pc.OnLeftLoop]
    | record d =>
      -- a row renames to curves and second loops only
      intro hel
      have hren : Renamed d s t := by
        simp only [code, hpc] at ht
        exact (Act.post_iff.mp record_renamed).1 t ht
      cases hren with
      | same hsame => exact absurd (h (hsame.el ▸ hel)) (by simp [hpc, Pc.OnLeftLoop])
      | curve _ hel' _ _ => cases d <;> simp [hel', curveOf] at hel
      | secondLoop _ hel' _ _ => cases d <;> simp [hel', loopBefore2] at hel
    | loopCancel =>
      refine hleads (a := loopCancel s) (by rw [code, hpc]) ?_
      simp [loopCancel]
    | topNext =>
      have hel : s.el ≠ .loopLeft := fun hel => by simp [hpc, Pc.OnLeftLoop] at h; exact h hel
      refine hleads (a := topNext s) (by rw [code, hpc]) ?_
      simp [topNext, crossExit, hel]
    | crossEnd =>
      have hel : s.el ≠ .loopLeft := fun hel => by simp [hpc, Pc.OnLeftLoop] at h; exact h hel
      refine hleads (a := crossEnd s) (by rw [code, hpc]) ?_
      simp [crossEnd, crossExit, crossSlope, hel]
    | analyze =>
      refine hleads (a := analyze enableLoop s) (by rw [code, hpc]) ?_
      simp [analyze, Pc.OnLeftLoop]
    | _ => simp [hpc] at hrenames
  · -- the element was that of the left loop before, so that the label is known
    have hkeeps : Keeps s t := (Act.post_iff.mp (code_keeps hrenames)).1 t ht
    intro hel
    have hel' : s.el = .loopLeft := hkeeps.1.el ▸ hel
    cases hpc : s.pc with
    | dispatch =>
      have hloop : Leads mem (fun t => t.pc = .loop) (dispatch s) := by simp [dispatch, hel']
      have htpc : t.pc = .loop := hloop.next (by rwa [code, hpc] at ht)
      rw [htpc]
      trivial
    | loop =>
      have hdrop : Leads mem (fun t => t.pc = .loopDrop .left) (loop s) := by simp [loop, hel']
      have htpc : t.pc = .loopDrop .left := hdrop.next (by rwa [code, hpc] at ht)
      rw [htpc]
      trivial
    | loopCancel => simp [hpc] at hrenames
    | _ =>
      refine Pc.onLeftLoop_of_succs (h hel') ?_ ?_ ?_ t.pc (next_succs ht) <;> simp [hpc]

/-- An append loop for the columns of side `d` begins after `s`. -/
def BeginsAppend (enableLoop : Bool) (mem : Cell → UInt8) (d : Side) (s : State) : Prop :=
  s.pc ≠ .append d ∧ ∃ t, (code enableLoop s).next mem = some t ∧ t.pc = .append d

/-- The append loop is on the line from `xrs[Y_MAX]` to the corner of the left loop. -/
structure OnLine (s : State) : Prop where
  yStart : s.yStart = s.yc
  xc : 1 ≤ s.xc
  m : s.m = ((s.xc - s.r.xs yMax : ℤ) : ℚ) / ((yMax - s.yc : ℤ) : ℚ)
  xf : s.xf = s.r.xs yMax + ((yMax - 1 - s.y : ℤ) : ℚ) * s.m
  stored : ∀ i, s.y < i → s.yc < i → i < yMax → s.r.xs i ≠ 0

/-- Below the corner of the left loop the right columns are set. -/
@[simp] def LoopColumns (p : Pc) (s : State) : Prop :=
  match p with
  | .append .right => s.el = .loopLeft → s.r.xs yMax ≠ 0 ∧ OnLine s
  | .mid => s.el = .loopLeft →
      s.yEnd = yMax ∧ ∀ i, s.yStart < i → i ≤ yMax → s.r.xs i ≠ 0
  | .midRow => s.el = .loopLeft → ∀ i, s.yStart < i → i ≤ yMax → s.r.xs i ≠ 0
  | _ => True

/-- Between two columns that are set, the line is so too. -/
theorem cornerLine_ne_zero {a xc yc y : ℤ} (ha : 1 ≤ a ∧ a < 256) (hxc : 1 ≤ xc ∧ xc < 256)
    (hyc : yc < yMax) (hlow : yc ≤ y) (hhigh : y ≤ yMax) :
    u8 (trunc (cornerLine a xc yc y)) ≠ 0 := by
  have hpos : 0 ≤ a ∧ 0 ≤ xc := by omega
  obtain ⟨-, hmin, hmax⟩ := cornerLine_range hpos.1 hpos.2 hyc hlow hhigh
  rw [u8_of_range (by omega)]
  omega

/-- The corner has been found: the line begins at `xrs[Y_MAX]`. -/
theorem corner_onLine (hi : Inv s) (hpc : s.pc = .corner .left)
    (ht : (code enableLoop s).next mem = some t) (hpc' : t.pc = .append .right) : OnLine t := by
  have hcorner : Leads mem (fun t => t.pc = .append .right → t.yStart = t.yc ∧ 1 ≤ t.xc)
      (code enableLoop s) := by
    obtain ⟨hx, hx', -⟩ := hi.at hpc
    have hxc : 20 ≤ s.l.x →
        1 ≤ u8 (max (i16 s.l.x - lpUpCountMax - xLpCornerLOffset) xMin) := by
      intro hmin
      rw [i16_of_range (by omega)]
      simp only [lpUpCountMax, xLpCornerLOffset, xMin]
      rw [u8_of_range (by omega)]
      omega
    simp only [code, hpc, corner, cornerFound, appendStart, sat_px, Act.sat_ite, Act.sat_touch,
      sat_setImg, Act.sat_goto, reduceCtorEq, false_imp_iff, implies_true, true_and, and_true]
    exact fun _ _ _ hmin _ => hxc (not_lt.mp hmin)
  obtain ⟨hstart, hxc⟩ := hcorner.next ht hpc'
  have hbegins := begins_line (by simp [hpc]) ht hpc'
  have hxs : t.r.xs = s.r.xs := by rw [hbegins.right]
  refine ⟨hstart, hxc, by rw [hbegins.m, hxs]; rfl, ?_, fun i hlow _ hhigh => ?_⟩
  · rw [hbegins.xf, hbegins.y, hxs]
    simp
  · have hy := hbegins.y
    omega

/-- A row of the line. -/
theorem OnLine.turn (hline : OnLine s) (hi : Inv s) (hset : s.r.xs yMax ≠ 0) (hy : s.y ≤ 118)
    (hgt : s.yc < s.y) :
    (appendRow .right s).r.xs yMax ≠ 0 ∧ OnLine (appendRow .right s) := by
  have hxs : (appendRow .right s).r.xs =
      Function.update s.r.xs s.y (u8 (trunc (s.xf + s.m))) := appendRow_xs .right s
  have hbottom : (appendRow .right s).r.xs yMax = s.r.xs yMax := by
    rw [hxs, Function.update_of_ne (by simp only [yMax]; omega)]
  refine ⟨by rwa [hbottom], hline.yStart, hline.xc, ?_, ?_, fun i hlow hcorner hhigh => ?_⟩
  · rw [hbottom]
    exact hline.m
  · rw [hbottom, appendRow_xf, appendRow_m, appendRow_y, hline.xf]
    push_cast
    ring
  · rw [appendRow_y] at hlow
    rw [appendRow_yc] at hcorner
    rw [hxs]
    by_cases hrow : i = s.y
    · -- the row of this turn
      have hvalue : s.xf + s.m = cornerLine (s.r.xs yMax) s.xc s.yc s.y := by
        rw [hline.xf, hline.m, cornerLine, Line.through]
        push_cast
        ring
      have hbyte : Byte (s.r.xs yMax) := hi.ranges.rxs yMax
      rw [hrow, Function.update_self, hvalue]
      exact cornerLine_ne_zero ⟨by have := hbyte.1; omega, hbyte.2⟩
        ⟨hline.xc, hi.ranges.xc.2⟩ (by simp only [yMax]; omega) (by omega)
        (by simp only [yMax]; omega)
    · rw [Function.update_of_ne hrow]
      exact hline.stored i (by omega) hcorner hhigh

theorem append_step (hi : Inv s) (hpc : s.pc = .append .right)
    (h : s.el = .loopLeft → s.r.xs yMax ≠ 0 ∧ OnLine s)
    (ht : (code enableLoop s).next mem = some t) : LoopColumns t.pc t := by
  obtain ⟨hy, hend⟩ := hi.at hpc
  rcases lt_or_ge s.yc s.y with hgt | hle
  · rw [append_turn hpc hgt hi.ranges.yc.1 (by omega), Option.some.injEq] at ht
    subst ht
    rw [appendRow_pc, hpc]
    intro hel
    obtain ⟨hset, hline⟩ := h hel
    exact hline.turn hi hset hy hgt
  · -- the line has got to the corner
    have hexit : Leads mem (fun t => LoopColumns t.pc t) (code enableLoop s) := by
      simp only [code, hpc, append, Act.sat_ite, Act.sat_goto]
      refine ⟨fun hgt => absurd hgt hle.not_gt, fun _ hel => ⟨hend, fun i hlow hhigh => ?_⟩⟩
      obtain ⟨hset, hline⟩ := h hel
      have hcorner : s.yc < i := by rwa [← hline.yStart]
      rcases eq_or_lt_of_le hhigh with rfl | hlt
      · exact hset
      · exact hline.stored i (by omega) hcorner hlt
    exact hexit.next ht

/-- The labels before the midline and its rows. -/
theorem Pc.before_mid {p : Pc} : ∀ q ∈ p.succs, q = .mid → (∃ e, p = .append e) ∨ p = .analyze := by
  cases p with
  | bottomLeft b | topLeft b => cases b <;> simp [succs]
  | edge e | side e | record e | corner e | crossRecord e => cases e <;> simp [succs]
  | _ => simp [succs]

theorem Pc.before_midRow {p : Pc} : ∀ q ∈ p.succs, q = .midRow → p = .mid ∨ p = .midRow := by
  cases p with
  | bottomLeft b | topLeft b => cases b <;> simp [succs]
  | edge e | side e | record e | corner e | crossRecord e => cases e <;> simp [succs]
  | _ => simp [succs]

/-- Off the left loop `el` is not `LoopLeft` after the step either. -/
theorem el_of_off (hlabel : s.el = .loopLeft → s.pc.OnLeftLoop) (hrenames : ¬ Renames s.pc)
    (hoff : ¬ s.pc.OnLeftLoop) (ht : (code enableLoop s).next mem = some t) :
    t.el ≠ .loopLeft := by
  have hkeeps : Keeps s t := (Act.post_iff.mp (code_keeps hrenames)).1 t ht
  exact fun hel => hoff (hlabel (hkeeps.1.el ▸ hel))

/-- The append loop of the right side on the left loop. -/
theorem step_onLine (hi : Inv s) (hlabel : s.el = .loopLeft → s.pc.OnLeftLoop)
    (hset : BeginsAppend enableLoop mem .right s → s.r.xs yMax ≠ 0) (h : LoopColumns s.pc s)
    (ht : (code enableLoop s).next mem = some t) (hpc' : t.pc = .append .right)
    (hel : t.el = .loopLeft) : t.r.xs yMax ≠ 0 ∧ OnLine t := by
  rcases Pc.before_appends t.pc (next_succs ht) hpc' with ⟨e, hne, hpc⟩ | hpc | hpc
  · cases e with
    | left =>
      have hkept : t.r.xs yMax = s.r.xs yMax :=
        bottom_row_kept hi (by simp [hpc, Pc.Early]) ht .right
      exact ⟨hkept ▸ hset ⟨by simp [hpc], t, ht, hpc'⟩, corner_onLine hi hpc ht hpc'⟩
    | right => exact absurd rfl hne
  · exact absurd hel (el_of_off hlabel (by simp [hpc]) (by simp [hpc, Pc.OnLeftLoop]) ht)
  · have hcolumns := append_step hi hpc (by rwa [hpc] at h) ht
    rw [hpc'] at hcolumns
    exact hcolumns hel

/-- The midline begins on the left loop after the append loop only. -/
theorem step_mid (hi : Inv s) (hlabel : s.el = .loopLeft → s.pc.OnLeftLoop)
    (h : LoopColumns s.pc s) (ht : (code enableLoop s).next mem = some t) (hpc' : t.pc = .mid)
    (hel : t.el = .loopLeft) :
    t.yEnd = yMax ∧ ∀ i, t.yStart < i → i ≤ yMax → t.r.xs i ≠ 0 := by
  rcases Pc.before_mid t.pc (next_succs ht) hpc' with ⟨e, hpc⟩ | hpc
  · cases e with
    | left => exact absurd hel (el_of_off hlabel (by simp [hpc]) (by simp [hpc, Pc.OnLeftLoop]) ht)
    | right =>
      have hcolumns := append_step hi hpc (by rwa [hpc] at h) ht
      rw [hpc'] at hcolumns
      exact hcolumns hel
  · have hne : s.el ≠ .loopLeft := fun hel => by simpa [hpc, Pc.OnLeftLoop] using hlabel hel
    have hanalyze : Leads mem (fun t => t.pc = .mid → t.el ≠ .loopLeft) (code enableLoop s) := by
      rw [code, hpc]
      simp [analyze, hne]
    exact absurd hel (hanalyze.next ht hpc')

/-- Each stretch of code keeps what is known of the right columns. -/
theorem step_loopColumns (hi : Inv s) (hlabel : s.el = .loopLeft → s.pc.OnLeftLoop)
    (hset : BeginsAppend enableLoop mem .right s → s.r.xs yMax ≠ 0) (h : LoopColumns s.pc s)
    (ht : (code enableLoop s).next mem = some t) : LoopColumns t.pc t := by
  have hsuccs := next_succs ht
  unfold LoopColumns
  split
  · rename_i hpc'
    exact step_onLine hi hlabel hset h ht hpc'
  · rename_i hpc'
    exact step_mid hi hlabel h ht hpc'
  · rename_i hpc'
    rcases Pc.before_midRow t.pc hsuccs hpc' with hpc | hpc
    · have hrow : Leads mem (fun t => t.el = .loopLeft → ∀ i, t.yStart < i → i ≤ yMax →
          t.r.xs i ≠ 0) (code enableLoop s) := by
        rw [hpc] at h
        rw [code, hpc]
        exact fun hel => (h hel).2
      exact hrow.next ht
    · obtain ⟨-, hu⟩ := midRow_step hpc ht
      rw [hpc] at h
      intro hel
      rw [hu.yStart, hu.rxs]
      exact h (hu.el ▸ hel)
  · trivial

/-! ## How many rows have both columns -/

/-- The rows below `s.y` with both columns, without a gap, are counted. -/
@[simp] def Counts (p : Pc) (s : State) : Prop :=
  match p with
  | .midRow => s.el = .loopLeft → ¬ Both s s.yStart → 0 ≤ s.bothCount ∧ s.bothCount + s.y ≤ 255 ∧
      ∀ k, 0 ≤ k → (∀ i, 1 ≤ i → i ≤ k → s.y + i ≤ yMax ∧ Both s (s.y + i)) → k ≤ s.bothCount
  | _ => True

theorem RowCounted.both (h : RowCounted s t) (y : ℤ) : Both t y ↔ Both s y := by
  unfold Both
  rw [h.lxs, h.rxs]

/-- One row of the midline. -/
theorem midRow_counts (hi : Inv s) (hge : s.yStart ≤ s.y) (hrow : RowCounted s t)
    (h : Counts .midRow s) : Counts .midRow t := by
  have hy := hi.ranges.y
  have hstart := hi.ranges.yStart
  have hy' := u8_range (s.y - 1)
  intro hel hgap
  rw [hrow.both, hrow.yStart] at hgap
  obtain ⟨hpos, hle, hcount⟩ := h (hrow.el ▸ hel) hgap
  simp only [hrow.both, hrow.y, hrow.bothCount]
  by_cases hboth : Both s s.y
  · have hne : s.y ≠ s.yStart := by
      rintro heq
      rw [heq] at hboth
      exact hgap hboth
    have hu8 : u8 (s.y - 1) = s.y - 1 := u8_of_range (by unfold Byte at hy hstart; omega)
    have hn8 : u8 (s.bothCount + 1) = s.bothCount + 1 :=
      u8_of_range (by unfold Byte at hstart; omega)
    rw [if_pos hboth, hu8, hn8]
    refine ⟨by omega, by omega, fun k hk hrows => ?_⟩
    -- without the row itself there is one row less
    rcases eq_or_lt_of_le hk with rfl | hlt
    · omega
    · have := hcount (k - 1) (by omega) fun i hi hik => by
        have hnext := hrows (i + 1) (by omega) (by omega)
        rwa [show s.y - 1 + (i + 1) = s.y + i by omega] at hnext
      omega
  · rw [if_neg hboth]
    refine ⟨le_rfl, by omega, fun k hk hrows => ?_⟩
    by_contra hlt
    obtain ⟨hin, hfirst⟩ := hrows 1 le_rfl (by omega)
    -- the row above the first one is the last byte, and its successor is not in the table
    by_cases hzero : s.y = 0
    · have hlast : u8 (s.y - 1) = 255 := by rw [hzero]; rfl
      simp only [hlast, yMax] at hin
      omega
    · rw [u8_of_range (by unfold Byte at hy; omega), show s.y - 1 + 1 = s.y by omega] at hfirst
      exact hboth hfirst

theorem step_counts (hi : Inv s) (hcolumns : LoopColumns s.pc s) (h : Counts s.pc s)
    (ht : (code enableLoop s).next mem = some t) : Counts t.pc t := by
  by_cases hpc' : t.pc = .midRow
  · rcases Pc.before_midRow t.pc (next_succs ht) hpc' with hpc | hpc
    · have hend := hi.ranges.yEnd
      rw [hpc] at hcolumns
      -- the first row is the bottom one, with no row below it in the image
      have hmid : Leads mem (fun t => Counts t.pc t) (code enableLoop s) := by
        rw [code, hpc]
        intro hel _
        have hyEnd : s.yEnd = yMax := (hcolumns hel).1
        refine ⟨le_rfl, ?_, fun k hk hrows => ?_⟩
        · change 0 + s.yEnd ≤ 255
          unfold Byte at hend
          omega
        · by_contra hlt
          have hin : s.yEnd + 1 ≤ yMax := (hrows 1 le_rfl (not_le.mp hlt)).1
          omega
      exact hmid.next ht
    · obtain ⟨hge, hu⟩ := midRow_step hpc ht
      rw [hpc] at h
      rw [hpc']
      exact midRow_counts hi hge hu h
  · unfold Counts
    split
    · rename_i hrow
      exact absurd hrow hpc'
    · trivial

/-- What is known of the right columns and of the rows counted, in every state visited. -/
theorem columns_visits (hs : Enters s)
    (hset : ∀ u, Goto.Visits (code enableLoop) mem s u →
      BeginsAppend enableLoop mem .right u → u.r.xs yMax ≠ 0)
    (ht : Goto.Visits (code enableLoop) mem s t) : LoopColumns t.pc t ∧ Counts t.pc t := by
  have hmain : (t.el = .loopLeft → t.pc.OnLeftLoop) ∧ LoopColumns t.pc t ∧ Counts t.pc t := by
    refine Goto.visits_induction (fun t => (t.el = .loopLeft → t.pc.OnLeftLoop) ∧
      LoopColumns t.pc t ∧ Counts t.pc t) ?_ ?_ t ht
    · rw [hs.pc]
      exact ⟨fun _ => trivial, trivial, trivial⟩
    · rintro u v hu ⟨hlabel, hcolumns, hcounts⟩ hv
      have hi := inv_visits hs.inv hu
      exact ⟨step_onLeftLoop hlabel hv, step_loopColumns hi hlabel (hset u hu) hcolumns hv,
        step_counts hi hcolumns hcounts hv⟩
  exact hmain.2

/-! ## The row of the corner -/

/-- The midline takes the middle of a row from the right column: from both columns, or from
the right one alone. -/
def UsesRight (s : State) : Prop :=
  s.pc = .midRow ∧ s.yStart ≤ s.y ∧ s.y ≤ yMax ∧
    (Both s s.y ∨
      (¬ Both s s.y ∧ ¬ (s.l.xs s.y = 0 ∧ s.r.xs s.y = 0) ∧
        (s.l.xs s.y = 0 ∨ s.el = .loopLeft) ∧ s.bothCount ≤ bothCountMin))

instance (s : State) : Decidable (UsesRight s) := inferInstanceAs (Decidable (_ ∧ _))

/-- The last row of the midline has a left column only, and one of the six rows below it has
none, or is not in the image. -/
def LoopGap (s : State) : Prop :=
  s.yStart ≤ yMax ∧ s.l.xs s.yStart ≠ 0 ∧ s.r.xs s.yStart = 0 ∧
    ∃ i, 1 ≤ i ∧ i ≤ 6 ∧ (s.yStart + i > yMax ∨ s.l.xs (s.yStart + i) = 0)

/-- The tables and the limits of the midline. -/
structure SameRows (s t : State) : Prop where
  el : t.el = s.el
  lxs : t.l.xs = s.l.xs
  rxs : t.r.xs = s.r.xs
  yStart : t.yStart = s.yStart

/-- Each row of the midline has a state behind it in which the midline begins. -/
theorem mid_passed (hs : Enters s) (ht : Goto.Visits (code enableLoop) mem s t)
    (hpc : t.pc = .midRow) : ∃ m, Goto.Visits (code enableLoop) mem s m ∧ m.pc = .mid ∧
      SameRows m t := by
  refine Goto.visits_induction (fun t => t.pc = .midRow → ∃ m,
    Goto.Visits (code enableLoop) mem s m ∧ m.pc = .mid ∧ SameRows m t)
    (fun h => by simp [hs.pc] at h) (fun u v hu ih hv hpc => ?_) t ht hpc
  rcases Pc.before_midRow v.pc (next_succs hv) hpc with hmid | hrow
  · have hsame : Leads mem (SameRows u) (code enableLoop u) := by
      rw [code, hmid]
      exact ⟨rfl, rfl, rfl, rfl⟩
    exact ⟨u, hu, hmid, hsame.next hv⟩
  · obtain ⟨m, hm, hmid, hsame⟩ := ih hrow
    obtain ⟨-, hnext⟩ := midRow_step hrow hv
    exact ⟨m, hm, hmid, hnext.el.trans hsame.el, hnext.lxs.trans hsame.lxs,
      hnext.rxs.trans hsame.rxs, hnext.yStart.trans hsame.yStart⟩

/-- In a run whose append loops begin at a column that is set, the midline takes a right column
that is unset only in the row of the corner. -/
theorem unset_used (hs : Enters s)
    (hset : ∀ u, Goto.Visits (code enableLoop) mem s u →
      BeginsAppend enableLoop mem .right u → u.r.xs yMax ≠ 0)
    (ht : Goto.Visits (code enableLoop) mem s t) (huses : UsesRight t) (hunset : t.r.xs t.y = 0) :
    ∃ m, Goto.Visits (code enableLoop) mem s m ∧ m.pc = .mid ∧ m.el = .loopLeft ∧ LoopGap m := by
  obtain ⟨hpc, hge, hle, hboth | ⟨hboth, hnone, hleft, hcount⟩⟩ := huses
  · exact absurd hunset hboth.2
  have hl : t.l.xs t.y ≠ 0 := fun hl => hnone ⟨hl, hunset⟩
  have hel : t.el = .loopLeft := hleft.resolve_left hl
  obtain ⟨hcolumns, hcounts⟩ := columns_visits hs hset ht
  rw [hpc] at hcolumns hcounts
  have hrow : t.y = t.yStart := by
    by_contra hne
    exact hcolumns hel t.y (by omega) hle hunset
  obtain ⟨m, hm, hmid, hsame⟩ := mid_passed hs ht hpc
  refine ⟨m, hm, hmid, hsame.el ▸ hel, ?_⟩
  unfold LoopGap
  rw [← hsame.lxs, ← hsame.rxs, ← hsame.yStart, ← hrow]
  refine ⟨hle, hl, hunset, ?_⟩
  by_contra hnogap
  push Not at hnogap
  -- six rows with both columns are more than are allowed for
  have hsix := (hcounts hel (hrow ▸ hboth)).2.2 6 (by omega) fun i hi hi6 => by
    obtain ⟨hin, hli⟩ := hnogap i hi hi6
    exact ⟨hin, hli, hcolumns hel (t.y + i) (by omega) hin⟩
  simp only [bothCountMin] at hcount
  omega

/-- The midline that has begun in `m` is in row `s.y`, and has counted no more rows than there
are below it without a gap. -/
structure Reaches (m s : State) : Prop where
  pc : s.pc = .midRow
  same : SameRows m s
  low : m.yStart ≤ s.y
  high : s.y ≤ yMax
  pos : 0 ≤ s.bothCount
  count : ∀ k, 1 ≤ k → s.y + k > yMax ∨ ¬ Both m (s.y + k) → s.bothCount < k

/-- The next row. -/
theorem Reaches.step {m : State} (h : Reaches m s) (hstart : 0 ≤ m.yStart)
    (hne : s.y ≠ m.yStart) : ∃ t, (code enableLoop s).next mem = some t ∧ Reaches m t ∧
      (t.y - m.yStart).toNat < (s.y - m.yStart).toNat := by
  have hlow := h.low
  have hhigh := h.high
  obtain ⟨t, ht, -⟩ := midRow_next enableLoop mem h.pc (h.same.yStart ▸ hlow)
  obtain ⟨-, hrow⟩ := midRow_step h.pc ht
  have hu8 : u8 (s.y - 1) = s.y - 1 := u8_of_range (by simp only [yMax] at hhigh; omega)
  have hboth : Both s s.y ↔ Both m s.y := by
    unfold Both
    rw [h.same.lxs, h.same.rxs]
  have hpos := h.pos
  have hlast : s.bothCount < yMax + 1 - s.y := h.count _ (by omega) (.inl (by omega))
  have hcount : t.bothCount = if Both m s.y then s.bothCount + 1 else 0 := by
    rw [hrow.bothCount, if_congr hboth rfl rfl]
    split
    · exact u8_of_range (by simp only [yMax] at hlast; omega)
    · rfl
  have hy : t.y = s.y - 1 := hrow.y.trans hu8
  refine ⟨t, ht, ⟨hrow.pc, ⟨hrow.el.trans h.same.el, hrow.lxs.trans h.same.lxs,
    hrow.rxs.trans h.same.rxs, hrow.yStart.trans h.same.yStart⟩, by omega, by omega, ?_, ?_⟩,
    by omega⟩
  · rw [hcount]
    split <;> omega
  · intro k hk hgap
    rw [hcount]
    rw [hy] at hgap
    split
    · rename_i hb
      -- a gap `k` rows below the next row is `k - 1` rows below this one
      rcases eq_or_lt_of_le hk with rfl | hlt
      · rw [show s.y - 1 + 1 = s.y by omega] at hgap
        exact absurd hb (hgap.resolve_left (by omega))
      · have := h.count (k - 1) (by omega) (by
          rwa [show s.y + (k - 1) = s.y - 1 + k by omega])
        omega
    · omega

/-- A left column only in the row of the corner is taken for both. -/
theorem gap_used {m : State} (hi : Inv m) (hpc : m.pc = .mid) (hel : m.el = .loopLeft)
    (hend : m.yEnd = yMax) (hgap : LoopGap m) :
    ∃ t, Goto.Visits (code enableLoop) mem m t ∧ UsesRight t ∧ t.r.xs t.y = 0 := by
  obtain ⟨hle, hl, hr, i, hi1, hi6, hmissing⟩ := hgap
  have hstart : 0 ≤ m.yStart := hi.ranges.yStart.1
  obtain ⟨u, hu, hreach⟩ : ∃ u, (code enableLoop m).next mem = some u ∧ Reaches m u := by
    rw [code, hpc]
    refine ⟨_, rfl, rfl, ⟨rfl, rfl, rfl, rfl⟩, ?_, ?_, le_rfl, fun k hk _ => ?_⟩
    · change m.yStart ≤ m.yEnd
      rw [hend]
      exact hle
    · exact hend.le
    · exact hk
  -- the midline gets to its last row
  obtain ⟨t, ht, hlast, hy⟩ : ∃ t, Goto.Visits (code enableLoop) mem u t ∧ Reaches m t ∧
      t.y = m.yStart := by
    by_cases hy : u.y = m.yStart
    · exact ⟨u, Goto.Visits.refl u, hreach, hy⟩
    · obtain ⟨t, hvia, hlast, hy⟩ := Goto.exists_via_of_rank (code enableLoop) mem (Reaches m)
        (fun t => t.y = m.yStart) (fun t => (t.y - m.yStart).toNat)
        (fun _ h hne => h.step hstart hne) hreach hy
      exact ⟨t, hvia.visits, hlast, hy⟩
  have hunset : t.r.xs t.y = 0 := by rw [hlast.same.rxs, hy, hr]
  have hleft : t.l.xs t.y ≠ 0 := by rwa [hlast.same.lxs, hy]
  have hcount := hlast.count i hi1 (by
    rw [hy]
    exact hmissing.imp_right fun hnone hboth => hboth.1 hnone)
  refine ⟨t, ht.head hu, ⟨hlast.pc, by rw [hlast.same.yStart, hy], hlast.high, .inr ⟨?_, ?_,
    .inr (hlast.same.el.trans hel), ?_⟩⟩, hunset⟩
  · exact fun hboth => hboth.2 hunset
  · exact fun hnone => hleft hnone.1
  · simp only [bothCountMin]
    omega

/-! ## The law -/

theorem BeginsAppend.not_early (h : BeginsAppend enableLoop mem d s) : ¬ s.pc.Early := by
  obtain ⟨-, t, ht, hpc⟩ := h
  intro hearly
  rcases Pc.early_of_succs t.pc (next_succs ht) hearly with hbefore | hfound
  · simp [hpc, Pc.Early] at hbefore
  · simp [hpc] at hfound

/-- Right boundaries are appended from, and the midline is drawn with, columns that are set if and
only if the bottom stage has found a right end in the bottom row before an append loop begins, and
on the left loop the row of the corner, if it has a left column only, has six rows with a left
column below it. -/
theorem right_set_iff (image : Image) (beyond : ℤ → UInt8) (enableLoop : Bool) (s : State)
    (hs : Enters s) :
    (∀ t, Goto.Visits (code enableLoop) (memory image beyond) s t →
      (BeginsAppend enableLoop (memory image beyond) .right t → t.r.xs yMax ≠ 0) ∧
        (UsesRight t → t.r.xs t.y ≠ 0)) ↔
    ∀ t, Goto.Visits (code enableLoop) (memory image beyond) s t →
      (BeginsAppend enableLoop (memory image beyond) .right t →
        ∃ f, Goto.Visits (code enableLoop) (memory image beyond) s f ∧ FoundBottom f ∧
          Goto.Visits (code enableLoop) (memory image beyond) f t) ∧
        (t.pc = .mid → t.el = .loopLeft → ¬ LoopGap t) := by
  have hbottom : ∀ t, Goto.Visits (code enableLoop) (memory image beyond) s t →
      BeginsAppend enableLoop (memory image beyond) .right t → (t.r.xs yMax ≠ 0 ↔
        ∃ f, Goto.Visits (code enableLoop) (memory image beyond) s f ∧ FoundBottom f ∧
          Goto.Visits (code enableLoop) (memory image beyond) f t) :=
    fun t ht hbegins => bottom_column hs ht hbegins.not_early
  constructor
  · intro hset t ht
    refine ⟨fun hbegins => (hbottom t ht hbegins).mp ((hset t ht).1 hbegins),
      fun hpc hel hgap => ?_⟩
    have hcolumns := (columns_visits hs (fun u hu => (hset u hu).1) ht).1
    rw [hpc] at hcolumns
    obtain ⟨u, hu, huses, hunset⟩ :=
      gap_used (inv_visits hs.inv ht) hpc hel (hcolumns hel).1 hgap
    exact (hset u (ht.trans hu)).2 huses hunset
  · intro hcond t ht
    have hset : ∀ u, Goto.Visits (code enableLoop) (memory image beyond) s u →
        BeginsAppend enableLoop (memory image beyond) .right u → u.r.xs yMax ≠ 0 :=
      fun u hu hbegins => (hbottom u hu hbegins).mpr ((hcond u hu).1 hbegins)
    refine ⟨hset t ht, fun huses hunset => ?_⟩
    obtain ⟨m, hm, hpc, hel, hgap⟩ := unset_used hs hset ht huses hunset
    exact (hcond m hm).2 hpc hel hgap

/-- A bottom row whose road goes off the right border, and the left loop's corner above it. -/
def ledge : Image := fun y x => decide ((y = 119 ∧ (x = 0 ∨ 90 ≤ x)) ∨
  (y < 119 ∧ x ≤ 22 ∧ 134 ≤ y.val + max x.val 19))

theorem right_set_iff_ledge :
    (∀ t, Goto.Visits (code false) (memory ledge fun _ => EMPTY) (called .loopLeft) t →
      (BeginsAppend false (memory ledge fun _ => EMPTY) .right t → t.r.xs yMax ≠ 0) ∧
        (UsesRight t → t.r.xs t.y ≠ 0)) ↔
    ∀ t, Goto.Visits (code false) (memory ledge fun _ => EMPTY) (called .loopLeft) t →
      (BeginsAppend false (memory ledge fun _ => EMPTY) .right t →
        ∃ f, Goto.Visits (code false) (memory ledge fun _ => EMPTY) (called .loopLeft) f ∧
          FoundBottom f ∧ Goto.Visits (code false) (memory ledge fun _ => EMPTY) f t) ∧
        (t.pc = .mid → t.el = .loopLeft → ¬ LoopGap t) :=
  right_set_iff ledge (fun _ => EMPTY) false (called .loopLeft) (enters_called .loopLeft)

/-- The right boundary of the loop is appended from column 0. -/
theorem ledge_unset :
    ¬ ∀ t, Goto.Visits (code false) (memory ledge fun _ => EMPTY) (called .loopLeft) t →
      (BeginsAppend false (memory ledge fun _ => EMPTY) .right t → t.r.xs yMax ≠ 0) ∧
        (UsesRight t → t.r.xs t.y ≠ 0) := by
  intro h
  have hrun := Goto.exists_visits (code false) (memory ledge fun _ => EMPTY) (called .loopLeft) 153
    (fun t => decide (t.pc = .corner .left ∧ t.r.xs yMax = 0) &&
      ((code false t).next (memory ledge fun _ => EMPTY)).any
        fun u => decide (u.pc = .append .right)) (by decide +kernel)
  obtain ⟨t, ht, hp⟩ := hrun
  obtain ⟨hcorner, hnext⟩ := (Bool.and_eq_true _ _).mp hp
  obtain ⟨hpc, hunset⟩ := of_decide_eq_true hcorner
  obtain ⟨u, hu, happend⟩ := (Option.any_eq_true _ _).mp hnext
  exact (h t ht).1 ⟨by simp [hpc], u, hu, of_decide_eq_true happend⟩ hunset

end SmartCar.MtImage

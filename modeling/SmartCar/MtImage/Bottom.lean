import SmartCar.MtImage.Flow

/-!
# mt_image: the bottom row

The bottom scan takes the lowest row that is not all road and looks for road in it, from the
middle outwards and then on both sides in turn. `RealStretch` is what it should find. On the
right it begins with the column after next, and takes the column before the road that it sees;
if it sees none, it takes the row all the same. `Seen` says when none of this matters.

* `Stretch` is what holds of the two columns at each label of the scan;
* `bottom_real_iff` is the law.
-/

namespace SmartCar.MtImage

open CInt

variable {mem : Cell → UInt8} {enableLoop : Bool} {s t : State} {y a b k : ℤ}

/-! ## Law and condition -/

/-- Every pixel of row `y` from column `a` to column `b` is road. -/
def AllRoad (mem : Cell → UInt8) (y a b : ℤ) : Prop := ∀ i, a ≤ i → i ≤ b → mem (y, i) ≠ EMPTY

/-- Columns `a` and `b` are the ends of a stretch of road in row `y`. -/
structure RealStretch (mem : Cell → UInt8) (y a b : ℤ) : Prop where
  le : a ≤ b
  road : AllRoad mem y a b
  left : a = xMin ∨ mem (y, a - 1) = EMPTY
  right : b = xMax ∨ mem (y, b + 1) = EMPTY

/-- The bottom scan stops at the row of `s`. -/
def StopsAt (s : State) : Prop := s.pc = .bottomTest ∧ (s.l.x ≠ xMin ∨ s.r.x ≠ xMax)

/-- There is road in the middle of row `y`, or in the two columns beside it on the right, or
in a column on the left that is looked at before any road on the right is seen. -/
def Seen (mem : Cell → UInt8) (y : ℤ) : Prop :=
  mem (y, xMid) ≠ EMPTY ∨ (mem (y, 94) ≠ EMPTY ∧ mem (y, 95) ≠ EMPTY) ∨
    ∃ n, 1 ≤ n ∧ n ≤ 91 ∧ mem (y, xMid - n) ≠ EMPTY ∧
      ∀ m, 1 ≤ m → m < n → mem (y, 94 + m) = EMPTY

/-! ## The scan -/

/-- The middle of row `y` is not road, and `k` columns on either side have been looked at. -/
def Looked (mem : Cell → UInt8) (y k : ℤ) : Prop :=
  mem (y, xMid) = EMPTY ∧
    ∀ m, 1 ≤ m → m ≤ k → mem (y, xMid - m) = EMPTY ∧ mem (y, 94 + m) = EMPTY

/-- What holds of the two columns at label `p`. -/
@[simp] def Stretch (mem : Cell → UInt8) (p : Pc) (s : State) : Prop :=
  match p with
  | .bottomLeft true => AllRoad mem s.y s.l.x xMid
  | .bottomLeft false => s.r.x ≤ 92 ∧ s.l.x ≤ s.r.x ∧ AllRoad mem s.y s.l.x s.r.x ∧
      Looked mem s.y (92 - s.r.x)
  | .bottomRight =>
      (1 ≤ s.l.x ∧ s.l.x ≤ xMid ∧ AllRoad mem s.y s.l.x s.r.x ∧
        (s.l.x = xMin ∨ mem (s.y, s.l.x - 1) = EMPTY)) ∨
      (94 ≤ s.l.x ∧ s.l.x ≤ s.r.x ∧ Looked mem s.y (s.l.x - 94) ∧
        mem (s.y, 186 - s.l.x) = EMPTY ∧ mem (s.y, s.l.x + 1) ≠ EMPTY ∧
        AllRoad mem s.y (s.l.x + 1) s.r.x)
  | .bottomSeek => Looked mem s.y (s.r.x - xMid)
  | .bottomTest => 1 ≤ s.l.x ∧ s.l.x ≤ s.r.x ∧ s.r.x ≤ xMax ∧
      (RealStretch mem s.y s.l.x s.r.x ↔ Seen mem s.y)
  | _ => True

theorem AllRoad.cons (h : AllRoad mem y a b) (ha : mem (y, a - 1) ≠ EMPTY) :
    AllRoad mem y (a - 1) b := by
  intro i hi hib
  rcases eq_or_lt_of_le hi with rfl | hlt
  · exact ha
  · exact h i (by omega) hib

theorem AllRoad.snoc (h : AllRoad mem y a b) (hb : mem (y, b + 1) ≠ EMPTY) :
    AllRoad mem y a (b + 1) := by
  intro i hi hib
  rcases eq_or_lt_of_le hib with rfl | hlt
  · exact hb
  · exact h i hi (by omega)

theorem Looked.succ (h : Looked mem y k) (hl : mem (y, xMid - (k + 1)) = EMPTY)
    (hr : mem (y, 94 + (k + 1)) = EMPTY) : Looked mem y (k + 1) := by
  refine ⟨h.1, fun m hm hmk => ?_⟩
  rcases eq_or_lt_of_le hmk with rfl | hlt
  · exact ⟨hl, hr⟩
  · exact h.2 m hm (by omega)

/-! ### The ends of the scan -/

/-- Road in the middle. -/
theorem seen_of_middle (hroad : AllRoad mem y a b) (ha : a ≤ xMid) (hb : xMid ≤ b) :
    Seen mem y := .inl (hroad xMid ha hb)

/-- Road on the left: the stretch ends where it has been found. -/
theorem seen_of_left (hl : Looked mem y (92 - b)) (hroad : AllRoad mem y a b) (hab : a ≤ b)
    (hb : b ≤ 92) : (b = xMax ∨ mem (y, b + 1) = EMPTY) ∧ (2 ≤ b → Seen mem y) := by
  constructor
  · right
    rcases eq_or_lt_of_le hb with rfl | hlt
    · exact hl.1
    · have := (hl.2 (92 - b) (by omega) le_rfl).1
      rwa [show xMid - (92 - b) = b + 1 by simp only [xMid]; omega] at this
  · refine fun hb2 => .inr (.inr ⟨93 - b, by omega, by omega, ?_, fun m hm hlt => ?_⟩)
    · rw [show xMid - (93 - b) = b by simp only [xMid]; omega]
      exact hroad b hab le_rfl
    · exact (hl.2 m hm (by omega)).2

/-- Road on the right: the column before it is the left end. -/
theorem real_iff_right (ha : 94 ≤ a) (hab : a ≤ b) (hl : Looked mem y (a - 94))
    (hleft : mem (y, 186 - a) = EMPTY) (hnext : mem (y, a + 1) ≠ EMPTY)
    (hroad : AllRoad mem y (a + 1) b) (hb : b = xMax ∨ mem (y, b + 1) = EMPTY) :
    RealStretch mem y a b ↔ Seen mem y := by
  constructor
  · intro hreal
    have hcol := hreal.road a le_rfl hab
    rcases eq_or_lt_of_le ha with rfl | hlt
    · exact .inr (.inl ⟨hcol, hnext⟩)
    · -- the column has been looked at before, and was not road
      have := (hl.2 (a - 94) (by omega) le_rfl).2
      rw [show 94 + (a - 94) = a by omega] at this
      exact absurd this hcol
  · rintro (hmid | ⟨h94, h95⟩ | ⟨n, hn, hn', hcol, hnone⟩)
    · exact absurd hl.1 hmid
    · rcases eq_or_lt_of_le ha with rfl | hlt
      · refine ⟨hab, fun i hi hib => ?_, .inr hl.1, hb⟩
        rcases eq_or_lt_of_le hi with rfl | hlt
        · exact h94
        · exact hroad i (by omega) hib
      · exact absurd (hl.2 1 (by omega) (by omega)).2 h95
    · exfalso
      rcases lt_trichotomy n (a - 93) with hlt | heq | hgt
      · exact hcol (hl.2 n hn (by omega)).1
      · rw [heq, show xMid - (a - 93) = 186 - a by simp only [xMid]; omega] at hcol
        exact hcol hleft
      · have := hnone (a - 93) (by omega) hgt
        rw [show 94 + (a - 93) = a + 1 by omega] at this
        exact hnext this

/-- No road has been seen. -/
theorem not_real_not_seen (hl : Looked mem y 91) : RealStretch mem y 1 184 ↔ Seen mem y := by
  refine iff_of_false (fun hreal => hreal.road xMid (by simp) (by simp) hl.1) ?_
  rintro (hmid | ⟨-, h95⟩ | ⟨n, hn, hn', hcol, -⟩)
  · exact hmid hl.1
  · exact h95 (hl.2 1 le_rfl (by omega)).2
  · exact hcol (hl.2 n hn hn').1

/-! ### The labels -/

theorem bottom_stretch : Leads mem (fun t => Stretch mem t.pc t) (bottom s) := by
  simp only [bottom, sat_px, Act.sat_ite, Act.sat_goto]
  refine ⟨fun _ => ⟨trivial, fun hroad i hi hib => ?_, fun hgap => ⟨?_, fun m hm hm0 => ?_⟩⟩,
    fun _ => trivial⟩
  · obtain rfl : i = xMid := le_antisymm hib hi
    exact hroad
  · exact not_not.mp hgap
  · simp at hm0
    omega

/-- The scan to the left is over. -/
theorem left_stretch {c : Bool} (h : Stretch mem (.bottomLeft c) s) (hr : c = true → s.r.x = xMid)
    (hlx : 1 ≤ s.l.x) (hlx' : s.l.x ≤ xMid) (hrx : c = false → 2 ≤ s.r.x)
    (hend : s.l.x = xMin ∨ mem (s.y, s.l.x - 1) = EMPTY) :
    Stretch mem (if c then .bottomRight else .bottomTest) s := by
  cases c with
  | true =>
    rw [if_pos rfl]
    refine .inl ⟨hlx, hlx', ?_, hend⟩
    rw [hr rfl]
    exact h
  | false =>
    rw [if_neg (by simp)]
    obtain ⟨hle, hlr, hroad, hl⟩ := h
    obtain ⟨hright, hseen⟩ := seen_of_left hl hroad hlr hle
    refine ⟨hlx, hlr, by simp only [xMax]; omega, iff_of_true ?_ (hseen (hrx rfl))⟩
    exact ⟨hlr, hroad, hend, hright⟩

theorem bottomLeft_stretch {c : Bool} (hi : Inv s) (hpc : s.pc = .bottomLeft c)
    (h : Stretch mem (.bottomLeft c) s) :
    Leads mem (fun t => Stretch mem t.pc t) (bottomLeft c s) := by
  have hat := hi.at hpc
  simp only [At] at hat
  obtain ⟨-, -, hlx, hlx', hr⟩ := hat
  have hu8 : u8 (s.l.x - 1) = s.l.x - 1 := u8_of_range (by omega)
  have hrx : c = false → 2 ≤ s.r.x := by
    rintro rfl
    have := h.2.1
    omega
  -- the scan reads a pixel of road
  have hstep : mem (s.y, s.l.x - 1) ≠ EMPTY →
      Stretch mem (.bottomLeft c) (s.setX .left (s.l.x - 1)) := by
    intro hp
    cases c with
    | true => exact AllRoad.cons h hp
    | false => exact ⟨h.1, by have := h.2.1; simp; omega, h.2.2.1.cons hp, h.2.2.2⟩
  simp only [bottomLeft, sat_px, Act.sat_ite, Act.sat_goto, State.setX, State.setTrack,
    State.track, hu8]
  refine ⟨trivial, fun hp => ⟨fun hmin => ?_, fun hmin => ?_⟩, fun hp => ?_⟩
  · exact left_stretch (s := { s with
      pc := if c then .bottomRight else .bottomTest, l := { s.l with x := s.l.x - 1 } })
      (hstep hp) hr (by simp only; omega) (by simp only [xMid]; omega) hrx (.inl hmin)
  · rw [hpc]
    exact hstep hp
  · exact left_stretch (s := { s with pc := if c then .bottomRight else .bottomTest }) h hr
      (by simp only; omega) hlx' hrx (.inr (not_not.mp hp))

/-- The scan to the right is over. -/
theorem right_stretch (h : Stretch mem .bottomRight s) (hrx : xMid ≤ s.r.x) (hrx' : s.r.x ≤ xMax)
    (hend : s.r.x = xMax ∨ mem (s.y, s.r.x + 1) = EMPTY) : Stretch mem .bottomTest s := by
  rcases h with ⟨hlx, hlx', hroad, hleft⟩ | ⟨hlx, hlr, hl, hleft, hnext, hroad⟩
  · refine ⟨hlx, hlx'.trans hrx, hrx', iff_of_true ?_ (seen_of_middle hroad hlx' hrx)⟩
    exact ⟨hlx'.trans hrx, hroad, hleft, hend⟩
  · exact ⟨by omega, hlr, hrx', real_iff_right hlx hlr hl hleft hnext hroad hend⟩

theorem bottomRight_stretch (hi : Inv s) (hpc : s.pc = .bottomRight)
    (h : Stretch mem .bottomRight s) :
    Leads mem (fun t => Stretch mem t.pc t) (bottomRight s) := by
  have hat := hi.at hpc
  simp only [At] at hat
  obtain ⟨-, -, hrx, hrx'⟩ := hat
  have hu8 : u8 (s.r.x + 1) = s.r.x + 1 := u8_of_range (by omega)
  have hstep : mem (s.y, s.r.x + 1) ≠ EMPTY →
      Stretch mem .bottomRight (s.setX .right (s.r.x + 1)) := by
    intro hp
    rcases h with ⟨hlx, hlx', hroad, hleft⟩ | ⟨hlx, hlr, hl, hleft, hnext, hroad⟩
    · exact .inl ⟨hlx, hlx', hroad.snoc hp, hleft⟩
    · exact .inr ⟨hlx, by simp; omega, hl, hleft, hnext, hroad.snoc hp⟩
  simp only [bottomRight, sat_px, Act.sat_ite, Act.sat_goto, State.setX, State.setTrack,
    State.track, hu8]
  refine ⟨trivial, fun hp => ⟨fun hmax => ?_, fun hmax => ?_⟩, fun hp => ?_⟩
  · exact right_stretch (s := { s with
      pc := .bottomTest, r := { s.r with x := s.r.x + 1 } }) (hstep hp)
      (by simp only [xMid]; omega) (by simp only [xMax]; omega) (.inl hmax)
  · rw [hpc]
    exact hstep hp
  · exact right_stretch (s := { s with pc := .bottomTest }) h hrx (by simp only [xMax]; omega)
      (.inr (not_not.mp hp))

theorem bottomSeek_stretch (hi : Inv s) (hpc : s.pc = .bottomSeek)
    (h : Looked mem s.y (s.r.x - xMid)) :
    Leads mem (fun t => Stretch mem t.pc t) (bottomSeek s) := by
  have hat := hi.at hpc
  simp only [At] at hat
  obtain ⟨-, -, hlx, hlx', hsum⟩ := hat
  have hl8 : u8 (s.l.x - 1) = s.l.x - 1 := u8_of_range (by omega)
  have hr8 : u8 (s.r.x + 1) = s.r.x + 1 := u8_of_range (by omega)
  simp only [bottomSeek, sat_px, Act.sat_ite, Act.sat_goto, State.setX, State.setTrack,
    State.track, hl8, hr8]
  refine ⟨fun hmin => ?_, fun hmin => ⟨trivial, fun hp => ?_, fun hp => ⟨trivial, fun hp' => ?_,
    fun hp' => ?_⟩⟩⟩
  · -- nothing has been seen: the two cursors are taken as they are
    have hr : s.r.x = 184 := by simp only [xMin] at hmin; omega
    have hl : Looked mem s.y 91 := by simpa [hr] using h
    refine ⟨by simp only; omega, by simp only; omega, by simp only [xMax]; omega, ?_⟩
    simp only [hmin, hr]
    exact not_real_not_seen hl
  · -- road on the left
    refine ⟨by simp only; omega, le_rfl, fun i hi hib => ?_, ?_⟩
    · obtain rfl : i = s.l.x - 1 := le_antisymm hib hi
      exact hp
    · rwa [show 92 - (s.l.x - 1) = s.r.x - xMid by simp only [xMid]; omega]
  · -- road on the right, one column further on
    refine .inr ⟨by simp only; omega, le_rfl, ?_, ?_, hp', fun i hi hib => ?_⟩
    · rwa [show s.r.x + 1 - 94 = s.r.x - xMid by simp only [xMid]; omega]
    · rw [show 186 - (s.r.x + 1) = s.l.x - 1 by omega]
      exact not_not.mp hp
    · simp only at hi hib
      omega
  · rw [hpc]
    change Looked mem s.y (s.r.x + 1 - xMid)
    rw [show s.r.x + 1 - xMid = s.r.x - xMid + 1 by omega]
    refine h.succ ?_ ?_
    · rw [show xMid - (s.r.x - xMid + 1) = s.l.x - 1 by simp only [xMid]; omega]
      exact not_not.mp hp
    · rw [show 94 + (s.r.x - xMid + 1) = s.r.x + 1 + 1 by simp only [xMid]; omega]
      exact not_not.mp hp'

/-- Outside the bottom stage nothing is said. -/
theorem stretch_of_pass (h : t.pc.pass ≠ .bottom) : Stretch mem t.pc t := by
  cases hpc : t.pc with
  | bottomLeft c => exact absurd (by rw [hpc]; rfl) h
  | bottomRight => exact absurd (by rw [hpc]; rfl) h
  | bottomSeek => exact absurd (by rw [hpc]; rfl) h
  | bottomTest => exact absurd (by rw [hpc]; rfl) h
  | _ => trivial

/-- Each stretch of code keeps what is known of the two columns. -/
theorem step_stretch (hi : Inv s) (h : Stretch mem s.pc s) :
    Leads mem (fun t => Stretch mem t.pc t) (code enableLoop s) := by
  by_cases hpass : s.pc.pass = .opening ∨ s.pc.pass = .bottom
  · unfold code
    cases hpc : s.pc with
    | entry => simp [entry, locals]
    | zebra => by_cases hp : mem (119, s.zx) = s.curr <;> simp [zebra, locals, hpc, hp]
    | bottom => exact bottom_stretch
    | bottomLeft c => exact bottomLeft_stretch hi hpc (hpc ▸ h)
    | bottomRight => exact bottomRight_stretch hi hpc (hpc ▸ h)
    | bottomSeek => exact bottomSeek_stretch hi hpc (by simpa [hpc] using h)
    | bottomTest =>
      simp only [bottomTest, bottomStore, Act.sat_ite, Act.sat_touch, Act.sat_goto]
      simp
    | bottomFound => simp [bottomFound, edgeLeft, edgeRight]
    | edge d => cases d <;> simp [edge, edgeDone, edgeRight, setStop, hpc]
    | _ => simp [hpc, Pc.pass] at hpass
  · have hflow := (Act.post_iff.mp (code_flow enableLoop mem s)).1
    refine Act.sat_iff.mpr ⟨by simp, by simp, fun t ht => stretch_of_pass fun hb => hpass ?_⟩
    have hto := hflow t ht
    rw [hb] at hto
    cases hp : s.pc.pass <;> simp [hp, Pass.To] at hto ⊢

theorem stretch_visits (hs : Enters s) (ht : Goto.Visits (code enableLoop) mem s t) :
    Stretch mem t.pc t :=
  Goto.visits_induction (fun t => Stretch mem t.pc t) (by simp [hs.pc])
    (fun _ _ hu h hnext => (step_stretch (inv_visits hs.inv hu) h).next hnext) t ht

/-! ## The law -/

/-- The columns at which the bottom scan stops are the ends of a stretch of road if and only if
road has been seen in the row in one of the ways that are taken care of. -/
theorem bottom_real_iff (image : Image) (beyond : ℤ → UInt8) (enableLoop : Bool) (s t : State)
    (hs : Enters s) (ht : Goto.Visits (code enableLoop) (memory image beyond) s t)
    (hstop : StopsAt t) :
    RealStretch (memory image beyond) t.y t.l.x t.r.x ↔ Seen (memory image beyond) t.y := by
  have hstretch := stretch_visits hs ht
  rw [hstop.1] at hstretch
  exact hstretch.2.2.2

/-- An image without any road. -/
def allEmpty : Image := fun _ _ => false

theorem memory_allEmpty (c : Cell) : memory allEmpty (fun _ => EMPTY) c = EMPTY := by
  simp [memory, allEmpty]

theorem allEmpty_stops : ∃ t, Goto.Visits (code false) (memory allEmpty fun _ => EMPTY)
    (called .normal) t ∧ StopsAt t := by
  have hrun := Goto.exists_visits (code false) (memory allEmpty fun _ => EMPTY) (called .normal)
    281 (fun t => decide (t.pc = .bottomTest ∧ (t.l.x ≠ xMin ∨ t.r.x ≠ xMax))) (by decide +kernel)
  obtain ⟨t, ht, hp⟩ := hrun
  obtain ⟨hpc, hx⟩ := of_decide_eq_true hp
  exact ⟨t, ht, hpc, hx⟩

theorem bottom_real_iff_allEmpty : ∃ t, Goto.Visits (code false) (memory allEmpty fun _ => EMPTY)
      (called .normal) t ∧ StopsAt t ∧
    (RealStretch (memory allEmpty fun _ => EMPTY) t.y t.l.x t.r.x ↔
      Seen (memory allEmpty fun _ => EMPTY) t.y) := by
  obtain ⟨t, ht, hstop⟩ := allEmpty_stops
  exact ⟨t, ht, hstop,
    bottom_real_iff allEmpty (fun _ => EMPTY) false (called .normal) t (enters_called .normal) ht
      hstop⟩

/-- A row without any road is taken. -/
theorem allEmpty_not_real :
    ¬ ∀ t, Goto.Visits (code false) (memory allEmpty fun _ => EMPTY) (called .normal) t →
      StopsAt t → RealStretch (memory allEmpty fun _ => EMPTY) t.y t.l.x t.r.x := by
  intro h
  obtain ⟨t, ht, hstop⟩ := allEmpty_stops
  have hreal := h t ht hstop
  exact hreal.road t.l.x le_rfl hreal.le (memory_allEmpty _)

end SmartCar.MtImage

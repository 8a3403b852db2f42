import SmartCar.MtImage.RowScan

/-!
# mt_image: lost rows

A scan that gives up takes its steps back, so that a lost row should leave the cursor where it
was. The outward scan takes five steps back, but gives up after `5 - l_l_cont` of them: it
moves the cursor inwards by `l_l_cont`. `lost_row_iff` says that this is the only way.
-/

namespace SmartCar.MtImage

open CInt

variable {mem : Cell → UInt8} {enableLoop : Bool} {s t a b : State} {d : Side}

/-- The outward scan of the row that begins in `s` gives up early, and takes back more steps
than it has gone. -/
def Overshoots (mem : Cell → UInt8) (d : Side) (s : State) : Prop :=
  (s.track d).cont ≠ 0 ∧ OutwardFails mem d s

/-! ## The counter -/

theorem rowCase_cont (h : RowCase d s t) (hb : Byte (s.track d).cont) :
    Byte (t.track d).cont := by
  have hcont := (sloped_field (s := s) (d := d) Track.cont fun _ _ _ _ _ => rfl).1
  have hbased : Byte (based d s).cont := hcont ▸ hb
  have hrecorded : Byte (recorded d s).cont := by
    unfold recorded countRow
    dsimp only
    split
    · exact byte_zero
    · exact byte_u8 _
  refine rowCase_rule (P := fun v => Byte v.cont) h (fun {v w} hv hw => ?_) hb (fun _ => hbased)
    (fun _ => hbased) hbased fun _ _ _ => ⟨hrecorded, hrecorded⟩
  have hsame := congrArg Track.cont hv
  change v.cont = w.cont at hsame
  rwa [hsame]

theorem step_cont (d : Side) (ht : (code enableLoop s).next mem = some t)
    (h : s.pc.pass ≠ .opening → Byte (s.track d).cont) (hpass : t.pc.pass ≠ .opening) :
    Byte (t.track d).cont := by
  have hkept : ∀ {v : Track}, Becomes d v t → v.cont = (s.track d).cont →
      s.pc.pass ≠ .opening → Byte (t.track d).cont := by
    intro v hv hcont hs
    rw [hv.field Track.cont fun _ => rfl, hcont]
    exact h hs
  cases track_step ht d with
  | still hpc h' => exact hkept h' rfl fun hs => hpass (hpc hs)
  | locals _ h' =>
    rw [h'.field Track.cont fun _ => rfl]
    exact byte_zero
  | bottom hpc _ _ h' => exact hkept h' rfl (by rw [hpc]; simp [Pc.pass])
  | flags hpc h' =>
    obtain ⟨_, _, _, _, h'⟩ := h'
    exact hkept h' rfl (by rw [hpc]; simp)
  | reset hpc h' => exact hkept h' rfl (by rw [hpc]; simp [Pc.pass])
  | row hpc h' => exact rowCase_cont h' (h (by rw [hpc]; simp [Pc.pass]))
  | append hpc _ h' => exact hkept h' rfl (by rw [hpc]; simp [Pc.pass])
  | cross hpc h' => exact hkept h' rfl (by rw [hpc]; simp [Pc.pass])
  | crossSlope hpc _ h' => exact hkept h' rfl (by rw [hpc]; simp [Pc.pass])

/-- `l_l_cont` is a byte once it has been initialised. -/
theorem cont_visits (hs : Enters s) (ht : Goto.Visits (code enableLoop) mem s t) (d : Side)
    (hpass : t.pc.pass ≠ .opening) : Byte (t.track d).cont := by
  refine Goto.visits_induction (fun t => t.pc.pass ≠ .opening → Byte (t.track d).cont)
    (fun h => absurd (by rw [hs.pc]; rfl) h) (fun u v _ h hv => ?_) t ht hpass
  exact step_cont d hv h

/-! ## The law -/

/-- A row that is lost leaves the cursor where it was if and only if its outward scan does not
give up early. -/
theorem lost_row_iff (image : Image) (beyond : ℤ → UInt8) (enableLoop : Bool) (d : Side)
    (s a b : State) (hs : Enters s)
    (ha : Goto.Visits (code enableLoop) (memory image beyond) s a) (hbegins : Begins d a)
    (hb : Goto.Via (code enableLoop) (memory image beyond) (fun t => ¬ Records d t) a b)
    (hrec : Records d b) (hlost : b.lost = true) :
    (b.track d).x = (a.track d).x ↔ ¬ Overshoots (memory image beyond) d a := by
  have hinv := inv_visits hs.inv ha
  have hx : Byte (a.track d).x := by
    cases d
    · exact hinv.ranges.lx
    · exact hinv.ranges.rx
  cases scan_ends hinv hbegins hb hrec with
  | inwardFails hgap _ hkept =>
    -- the cursor has not moved, and it is not on road, so no outward scan has begun
    have hfirst := hgap 0 le_rfl (by decide)
    rw [inCol_zero hx] at hfirst
    refine iff_of_true hkept fun h => h.2.2.2 0 le_rfl ?_ ?_
    · have := h.2.1
      omega
    · rwa [outCol, mul_zero, sub_zero]
  | inward _ _ _ _ _ hl _ => simp [hlost] at hl
  | edge _ hl _ _ => simp [hlost] at hl
  | outward _ _ _ _ _ _ _ hl _ => simp [hlost] at hl
  | outwardFails hfails _ hmoved =>
    -- the scan has moved by `5 - cont` columns, and five are undone
    have hcont := cont_visits hs ha d (by rw [hbegins.1]; simp [Pc.pass])
    obtain ⟨h0, h1⟩ := hx
    obtain ⟨hc0, hc1⟩ := hcont
    have hzero : (b.track d).x = (a.track d).x ↔ (a.track d).cont = 0 := by
      rw [hmoved]
      cases d <;> simp only [u8, Side.sgn, State.track] at * <;> omega
    rw [hzero]
    exact ⟨fun h0 h => h.1 h0, fun h => by_contra fun hne => h ⟨hne, hfails⟩⟩

/-- A narrow road that opens, at row 117, into a surface that is all road; the first pixel of a
row is road too. -/
def mouth : Image := fun y x => decide (x = 0 ∨ y ≤ 117 ∨ (50 ≤ x ∧ x ≤ 100))

/-- The row of `a` is the first that is lost, and moves the cursor from column 50 to 51. -/
theorem mouth_lost : ∃ a b, Goto.Visits (code false) (memory mouth fun _ => EMPTY)
      (called .normal) a ∧ Begins .left a ∧
    Goto.Via (code false) (memory mouth fun _ => EMPTY) (fun t => ¬ Records .left t) a b ∧
    Records .left b ∧ b.lost = true ∧ b.l.x ≠ a.l.x := by
  have hrun := Goto.exists_visits (code false) (memory mouth fun _ => EMPTY) (called .normal) 68
    (fun a => decide (Begins .left a) &&
      Goto.checkVia (code false) (memory mouth fun _ => EMPTY) (fun t => decide (¬ Records .left t))
        (fun b => decide (Records .left b ∧ b.lost = true ∧ b.l.x ≠ a.l.x)) 7 a)
    (by decide +kernel)
  obtain ⟨a, ha, hp⟩ := hrun
  obtain ⟨hbegins, hvia⟩ := (Bool.and_eq_true _ _).mp hp
  obtain ⟨b, hb, hq⟩ := Goto.exists_via hvia
  simp only [decide_eq_true_eq] at hbegins hb hq
  exact ⟨a, b, ha, hbegins, hb, hq⟩

theorem lost_row_iff_mouth : ∃ a b : State, b.lost = true ∧
    (b.l.x = a.l.x ↔ ¬ Overshoots (memory mouth fun _ => EMPTY) .left a) := by
  obtain ⟨a, b, ha, hbegins, hb, hrec, hlost, -⟩ := mouth_lost
  exact ⟨a, b, hlost, lost_row_iff mouth (fun _ => EMPTY) false .left (called .normal) a b
    (enters_called .normal) ha hbegins hb hrec hlost⟩

/-- The row that is lost moves the cursor. -/
theorem mouth_moves : ¬ ∀ a b, Goto.Visits (code false) (memory mouth fun _ => EMPTY)
      (called .normal) a → Begins .left a →
    Goto.Via (code false) (memory mouth fun _ => EMPTY) (fun t => ¬ Records .left t) a b →
    Records .left b → b.lost = true → b.l.x = a.l.x := by
  intro h
  obtain ⟨a, b, ha, hbegins, hb, hrec, hlost, hx⟩ := mouth_lost
  exact hx (h a b ha hbegins hb hrec hlost)

end SmartCar.MtImage

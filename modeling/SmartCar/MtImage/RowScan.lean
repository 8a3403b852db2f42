import SmartCar.MtImage.Tracks

/-!
# mt_image: the scans of a row

From `left:` to the recording of the row, the cursor is moved by an inward scan, by an outward
scan, or not at all. `ScanEnd` has a constructor for each of the ways in which the scans may
end, with the pixels that lead to it; `scan_ends` is the law, and `RowScan` the invariant.
-/

namespace SmartCar.MtImage

open CInt

variable {mem : Cell → UInt8} {enableLoop : Bool} {s t a b : State} {d : Side}

/-! ## The ends of the scans -/

/-- The scans of a row of side `d` begin. -/
def Begins (d : Side) (s : State) : Prop := s.pc = .side d ∧ (s.track d).stop = false

instance (d : Side) (s : State) : Decidable (Begins d s) := inferInstanceAs (Decidable (_ ∧ _))

/-- The row is recorded. -/
def Records (d : Side) (s : State) : Prop := s.pc = .record d

instance (d : Side) (s : State) : Decidable (Records d s) := inferInstanceAs (Decidable (_ = _))

/-- The column `k` steps inwards from the cursor. -/
def inCol (d : Side) (s : State) (k : ℤ) : ℤ := u8 ((s.track d).x + d.sgn * k)

/-- The column `j` steps outwards from the cursor. -/
def outCol (d : Side) (s : State) (j : ℤ) : ℤ := (s.track d).x - d.sgn * j

/-- The outward scan of the row that begins in `s` gives up: there is road up to the column
beyond the last that it goes to. -/
def OutwardFails (mem : Cell → UInt8) (d : Side) (s : State) : Prop :=
  (s.track d).cont ≤ 5 ∧ inside d (outCol d s (5 - (s.track d).cont)) ∧
    ∀ i, 0 ≤ i → i ≤ 6 - (s.track d).cont → mem (s.y, outCol d s i) ≠ EMPTY

/-- The scans of the row that begins in `s` end in `t`. -/
inductive ScanEnd (mem : Cell → UInt8) (d : Side) (s t : State) : Prop
  | inwardFails (hgap : ∀ i, 0 ≤ i → i ≤ 5 → mem (s.y, inCol d s i) = EMPTY)
      (hlost : t.lost = true) (hx : (t.track d).x = (s.track d).x)
  | inward (k : ℤ) (hk : 0 < k) (hk' : k ≤ 5)
      (hgap : ∀ i, 0 ≤ i → i < k → mem (s.y, inCol d s i) = EMPTY)
      (hroad : mem (s.y, inCol d s k) ≠ EMPTY) (hlost : t.lost = false)
      (hx : (t.track d).x = inCol d s k)
  | edge (hroad : mem (s.y, inCol d s 0) ≠ EMPTY) (hlost : t.lost = false)
      (hx : (t.track d).x = (s.track d).x) (hedge : (s.track d).x = d.edge)
  | outward (j : ℤ) (hj : 0 ≤ j) (hcont : (s.track d).cont ≤ 5 → j ≤ 5 - (s.track d).cont)
      (hroad : ∀ i, 0 ≤ i → i ≤ j → mem (s.y, outCol d s i) ≠ EMPTY)
      (hinside : ∀ i, 0 ≤ i → i < j → inside d (outCol d s i))
      (hne : (s.track d).x ≠ d.edge)
      (hend : mem (s.y, outCol d s (j + 1)) = EMPTY ∨ ¬ inside d (outCol d s j))
      (hlost : t.lost = false) (hx : (t.track d).x = outCol d s j)
  | outwardFails (h : OutwardFails mem d s) (hlost : t.lost = true)
      (hx : (t.track d).x = u8 ((s.track d).x + d.sgn * (s.track d).cont))

/-! ## On the way -/

/-- The inward scan has gone `k` columns. -/
structure Inward (mem : Cell → UInt8) (d : Side) (s t : State) (k : ℤ) : Prop where
  y : t.y = s.y
  cont : (t.track d).cont = (s.track d).cont
  lost : t.lost = false
  nonneg : 0 ≤ k
  le : k ≤ 5
  dx : t.dx = d.sgn * k
  x : (t.track d).x = inCol d s k
  gap : ∀ i, 0 ≤ i → i < k → mem (s.y, inCol d s i) = EMPTY

/-- The outward scan has gone `j` columns. -/
structure Outward (mem : Cell → UInt8) (d : Side) (s t : State) (j : ℤ) : Prop where
  y : t.y = s.y
  cont : (t.track d).cont = (s.track d).cont
  lost : t.lost = false
  nonneg : 0 ≤ j
  dx : t.dx = -(d.sgn * j)
  x : (t.track d).x = outCol d s j
  byte : Byte (outCol d s j)
  le : (s.track d).cont ≤ 5 → j ≤ 5 - (s.track d).cont
  road : ∀ i, 0 ≤ i → i ≤ j → mem (s.y, outCol d s i) ≠ EMPTY
  inside : ∀ i, 0 ≤ i → i < j → inside d (outCol d s i)
  ne : (s.track d).x ≠ d.edge

/-- What holds at label `p` between the beginning of a row, in `s`, and its recording. -/
def RowScan (mem : Cell → UInt8) (d : Side) (s : State) (p : Pc) (t : State) : Prop :=
  match p with
  | .inward e => e = d ∧ ∃ k, Inward mem d s t k
  | .outward e => e = d ∧ ∃ j, Outward mem d s t j
  | .exitProbe e | .exitColumn e | .exitDown e | .exitUp e | .exitClimb e =>
    e = d ∧ OutwardFails mem d s ∧
      (t.track d).x = u8 ((s.track d).x + d.sgn * (s.track d).cont)
  | .record e => e = d ∧ ScanEnd mem d s t
  | .append _ | .mid | .midRow => True
  | _ => False

theorem u8_add_u8 (a b : ℤ) : u8 (u8 a + b) = u8 (a + b) := Int.emod_add_emod a 256 b

theorem inCol_zero (h : Byte (s.track d).x) : inCol d s 0 = (s.track d).x := by
  rw [inCol, mul_zero, add_zero, u8_of_range h]

theorem inCol_step (k : ℤ) : u8 (inCol d s k + d.sgn) = inCol d s (k + 1) := by
  rw [inCol, inCol, u8_add_u8, mul_add, mul_one, add_assoc]

theorem sgn_mul_inj {i j : ℤ} : d.sgn * i = d.sgn * j ↔ i = j := by
  cases d <;> simp

theorem inward_scan (hx : Byte (s.track d).x) (hpc : t.pc = .inward d) {k : ℤ}
    (h : Inward mem d s t k) :
    Leads mem (fun v => RowScan mem d s v.pc v) (inward d t) := by
  have hcell : mem (t.y, (t.track d).x) = mem (s.y, inCol d s k) := by rw [h.y, h.x]
  have hle := h.le
  simp only [inward, inwardEnd, sat_px, Act.sat_ite, Act.sat_goto, hcell]
  refine ⟨trivial, fun hp => ⟨fun hmax => ⟨fun hdx => ?_, fun _ => ⟨rfl, ?_⟩⟩, fun hmax => ?_⟩,
    fun hp => ⟨fun hdx => ⟨rfl, 0, ?_⟩, fun hdx => ⟨rfl, ?_⟩⟩⟩
  · -- given up after five columns: `dx` is not 0
    exfalso
    have hzero : t.dx = 0 := by cases d <;> exact hdx.1
    rw [hzero] at hmax
    cases d <;> simp at hmax
  · -- the steps are undone
    have hk : k = 5 := by
      rw [h.dx] at hmax
      exact sgn_mul_inj.mp hmax
    subst hk
    refine .inwardFails (fun i hi hi5 => ?_) (by cases d <;> rfl) ?_
    · rcases lt_or_eq_of_le hi5 with hlt | rfl
      · exact h.gap i hi hlt
      · exact hp
    have hback : u8 ((t.track d).x - d.sgn * dxBdMax) = (s.track d).x := by
      rw [h.x, inCol, sub_eq_add_neg, u8_add_u8, add_neg_cancel_right, u8_of_range hx]
    cases d <;> exact hback
  · -- one column on
    have hne : k ≠ 5 := fun hk => hmax (by rw [h.dx, hk])
    have hdx : i16 (t.dx + d.sgn) = d.sgn * (k + 1) := by
      have hk := h.nonneg
      rw [h.dx]
      cases d <;> simp [i16] <;> omega
    have hpc' : ({ t.setX d (u8 ((t.track d).x + d.sgn)) with
        dx := i16 (t.dx + d.sgn) } : State).pc = .inward d := by cases d <;> exact hpc
    rw [hpc']
    have hx' : u8 ((t.track d).x + d.sgn) = inCol d s (k + 1) := by rw [h.x, inCol_step]
    refine ⟨rfl, k + 1, ?_⟩
    constructor
    · cases d <;> exact h.y
    · cases d <;> exact h.cont
    · cases d <;> exact h.lost
    · exact Int.add_nonneg h.nonneg (by decide)
    · omega
    · exact hdx
    · cases d <;> exact hx'
    · intro i hi hik
      rcases lt_or_eq_of_le (Int.lt_add_one_iff.mp hik) with hlt | rfl
      · exact h.gap i hi hlt
      · exact hp
  · -- the cursor is on road from the start
    have hk : k = 0 := by
      have hzero := hdx.1
      rw [h.dx] at hzero
      cases d <;> simpa using hzero
    subst hk
    rw [inCol_zero hx] at hp
    have hout : outCol d s 0 = (s.track d).x := by rw [outCol, mul_zero, sub_zero]
    have hxs : (t.track d).x = (s.track d).x := h.x.trans (inCol_zero hx)
    refine ⟨h.y, h.cont, h.lost, le_rfl, ?_, ?_, ?_, fun hc => by omega, fun i hi hi0 => ?_,
      fun i hi hi0 => by omega, hxs ▸ hdx.2⟩
    · rw [mul_zero, neg_zero]
      exact hdx.1
    · rw [hout]
      exact hxs
    · rwa [hout]
    · rw [le_antisymm hi0 hi, hout]
      exact hp
  · rcases eq_or_lt_of_le h.nonneg with rfl | hpos
    · have hedge : (t.track d).x = d.edge := by
        by_contra hne
        exact hdx ⟨by rw [h.dx, mul_zero], hne⟩
      have hxs : (t.track d).x = (s.track d).x := h.x.trans (inCol_zero hx)
      exact .edge hp h.lost hxs (hxs.symm.trans hedge)
    · exact .inward k hpos h.le h.gap hp h.lost h.x

theorem outward_scan (hx : Byte (s.track d).x) (hpc : t.pc = .outward d) {j : ℤ}
    (h : Outward mem d s t j) :
    Leads mem (fun v => RowScan mem d s v.pc v) (outward d t) := by
  have hnext : (t.track d).x - d.sgn = outCol d s (j + 1) := by
    rw [h.x, outCol, outCol, mul_add, mul_one, sub_sub]
  have hcell : mem (t.y, (t.track d).x - d.sgn) = mem (s.y, outCol d s (j + 1)) := by
    rw [h.y, hnext]
  have hroad : mem (s.y, outCol d s (j + 1)) ≠ EMPTY →
      ∀ i, 0 ≤ i → i ≤ j + 1 → mem (s.y, outCol d s i) ≠ EMPTY := by
    intro hp i hi hij
    rcases lt_or_eq_of_le hij with hlt | rfl
    · exact h.road i hi (Int.lt_add_one_iff.mp hlt)
    · exact hp
  simp only [outward, sat_px, Act.sat_ite, Act.sat_goto, hcell]
  refine ⟨trivial, fun hp => ⟨fun hmax => ⟨rfl, ?_⟩, fun hmax => ?_⟩, fun hp => ⟨rfl, ?_⟩⟩
  · -- given up: five steps are undone, whatever has been gone
    have hj : j = 5 - (s.track d).cont := by
      rw [h.dx, h.cont, ← mul_neg] at hmax
      have := sgn_mul_inj.mp hmax
      simp only [dxBdInvMax] at this
      omega
    have hnonneg := h.nonneg
    refine ⟨⟨by omega, ?_, fun i hi hi6 => hroad hp.1 i hi (by omega)⟩, ?_⟩
    · rw [← hj, ← h.x]
      exact hp.2
    · have hback : u8 ((t.track d).x + d.sgn * dxBdInvMax) =
          u8 ((s.track d).x + d.sgn * (s.track d).cont) := by
        rw [h.x, outCol, hj]
        simp only [dxBdInvMax]
        ring_nf
      cases d <;> exact hback
  · -- one column on
    obtain ⟨h0, h1⟩ := h.byte
    have hinside := hp.2
    rw [h.x] at hinside
    have hbyte : Byte (outCol d s (j + 1)) := by
      rw [← hnext, h.x]
      cases d <;> simp only [inside, xMin, xMax] at hinside <;> constructor <;>
        simp only [Side.sgn] <;> omega
    have hdx : i16 (t.dx - d.sgn) = -(d.sgn * (j + 1)) := by
      have hj := h.nonneg
      obtain ⟨hx0, hx1⟩ := hx
      rw [h.dx]
      cases d <;> simp only [outCol, Side.sgn, State.track] at h0 h1 hx0 hx1 ⊢ <;>
        rw [i16_of_range] <;> omega
    have hpc' : ({ t.setX d (u8 ((t.track d).x - d.sgn)) with
        dx := i16 (t.dx - d.sgn) } : State).pc = .outward d := by cases d <;> exact hpc
    rw [hpc']
    have hx' : u8 ((t.track d).x - d.sgn) = outCol d s (j + 1) := by
      rw [hnext, u8_of_range hbyte]
    have hle := h.le
    have hne : j ≠ 5 - (s.track d).cont := by
      rintro rfl
      refine hmax ?_
      rw [h.dx, h.cont, ← mul_neg, sgn_mul_inj]
      simp only [dxBdInvMax]
      omega
    refine ⟨rfl, j + 1, ?_⟩
    constructor
    · cases d <;> exact h.y
    · cases d <;> exact h.cont
    · cases d <;> exact h.lost
    · exact Int.add_nonneg h.nonneg (by decide)
    · exact hdx
    · cases d <;> exact hx'
    · exact hbyte
    · intro hc
      have := hle hc
      omega
    · exact hroad hp.1
    · intro i hi hij
      rcases lt_or_eq_of_le (Int.lt_add_one_iff.mp hij) with hlt | rfl
      · exact h.inside i hi hlt
      · exact hinside
    · exact h.ne
  · refine .outward j h.nonneg h.le h.road h.inside h.ne ?_ h.lost h.x
    by_cases hgap : mem (s.y, outCol d s (j + 1)) = EMPTY
    · exact .inl hgap
    · refine .inr fun hinside => hp ⟨hgap, ?_⟩
      rwa [h.x]

/-- The lateral exit gives the row up as lost, or leaves the pass. -/
theorem exit_scan (hfails : OutwardFails mem d s)
    (hx : (t.track d).x = u8 ((s.track d).x + d.sgn * (s.track d).cont))
    (hpc : t.pc = .exitProbe d ∨ t.pc = .exitColumn d ∨ t.pc = .exitDown d ∨ t.pc = .exitUp d ∨
      t.pc = .exitClimb d) :
    Leads mem (fun v => RowScan mem d s v.pc v) (code enableLoop t) := by
  have hon : ∀ v : State, v.track d = t.track d → OutwardFails mem d s ∧
      (v.track d).x = u8 ((s.track d).x + d.sgn * (s.track d).cont) := by
    intro v hv
    exact ⟨hfails, by rw [hv]; exact hx⟩
  have hlost : ∀ v : State, v.track d = t.track d → v.lost = true → ScanEnd mem d s v :=
    fun v hv hl => .outwardFails hfails hl (hon v hv).2
  rcases hpc with hpc | hpc | hpc | hpc | hpc
  · simp only [code, hpc, exitProbe, invLost, sat_px, Act.sat_ite, Act.sat_goto]
    exact ⟨fun _ => ⟨trivial, fun _ => ⟨rfl, hon _ (by cases d <;> rfl)⟩,
      fun _ => ⟨rfl, hlost _ (by cases d <;> rfl) rfl⟩⟩,
      fun _ => ⟨rfl, hlost _ (by cases d <;> rfl) rfl⟩⟩
  · simp only [code, hpc, exitColumn, appendStart, sat_setImg, Act.sat_ite, Act.sat_touch,
      Act.sat_goto]
    exact ⟨fun _ => ⟨rfl, hon _ (by cases d <;> rfl)⟩, fun _ => ⟨trivial, trivial⟩⟩
  · simp only [code, hpc, exitDown, loopExitLost, invLost, sat_px, Act.sat_ite, Act.sat_goto]
    exact ⟨trivial, fun _ => ⟨fun _ => ⟨rfl, hlost _ (by cases d <;> rfl) rfl⟩,
      fun _ => ⟨rfl, hon _ (by cases d <;> rfl)⟩⟩, fun _ => ⟨rfl, hon _ (by cases d <;> rfl)⟩⟩
  · simp only [code, hpc, exitUp, exitNext, loopExitLost, invLost, sat_px, sat_setImg,
      Act.sat_ite, Act.sat_goto]
    exact ⟨trivial, fun _ => ⟨fun _ => ⟨rfl, hlost _ (by cases d <;> rfl) rfl⟩,
      fun _ => ⟨rfl, hon _ (by cases d <;> rfl)⟩⟩, fun _ => ⟨rfl, hon _ (by cases d <;> rfl)⟩⟩
  · simp only [code, hpc, exitClimb, exitNext, loopExitLost, invLost, sat_px, sat_setImg,
      Act.sat_ite, Act.sat_goto]
    exact ⟨trivial, fun _ => ⟨fun _ => ⟨rfl, hlost _ (by cases d <;> rfl) rfl⟩,
      fun _ => ⟨rfl, hon _ (by cases d <;> rfl)⟩⟩, fun _ => ⟨rfl, hon _ (by cases d <;> rfl)⟩⟩

/-- Each stretch of code before the row is recorded goes on with its scans. -/
theorem step_scan (hx : Byte (s.track d).x) (hnot : ¬ Records d t)
    (h : RowScan mem d s t.pc t) :
    Leads mem (fun v => RowScan mem d s v.pc v) (code enableLoop t) := by
  cases hpc : t.pc with
  | inward e =>
    rw [hpc] at h
    obtain ⟨rfl, k, hk⟩ := h
    simpa only [code, hpc] using inward_scan hx hpc hk
  | outward e =>
    rw [hpc] at h
    obtain ⟨rfl, j, hj⟩ := h
    simpa only [code, hpc] using outward_scan hx hpc hj
  | exitProbe e | exitColumn e | exitDown e | exitUp e | exitClimb e =>
    rw [hpc] at h
    obtain ⟨rfl, hfails, hx'⟩ := h
    exact exit_scan hfails hx' (by simp [hpc])
  | record e =>
    rw [hpc] at h
    obtain ⟨rfl, -⟩ := h
    exact absurd hpc hnot
  | append e | mid | midRow =>
    exact leads_of_succs (Q := RowScan mem d s) (by simp [hpc, Pc.succs, RowScan])
  | _ => simp [hpc, RowScan] at h

theorem begins_scan (hx : Byte (a.track d).x) (hbegins : Begins d a) :
    Leads mem (fun t => RowScan mem d a t.pc t ∧ t.pc = .inward d) (code enableLoop a) := by
  simp only [code, hbegins.1, side, hbegins.2, Act.sat_ite, Act.sat_goto]
  refine ⟨fun hstop => by simp at hstop, fun _ => ⟨⟨rfl, 0, ?_⟩, trivial⟩⟩
  refine ⟨rfl, ?_, rfl, le_rfl, by decide, (mul_zero _).symm, ?_, fun i hi hi0 => by omega⟩
  · cases d <;> rfl
  · rw [inCol_zero hx]
    cases d <;> rfl

theorem Inv.byte_x (h : Inv s) (d : Side) : Byte (s.track d).x := by
  cases d
  · exact h.ranges.lx
  · exact h.ranges.rx

/-- The scans of a row end in one of these ways. -/
theorem scan_ends (ha : Inv a) (hbegins : Begins d a)
    (hb : Goto.Via (code enableLoop) mem (fun t => ¬ Records d t) a b) (hrec : Records d b) :
    ScanEnd mem d a b := by
  have hscan : RowScan mem d a b.pc b := by
    refine hb.invariant (fun t => RowScan mem d a t.pc t) (fun u hu => ?_)
      fun u v _ hnot h hv => (step_scan (ha.byte_x d) hnot h).next hv
    exact ((begins_scan (ha.byte_x d) hbegins).next hu).1
  rw [hrec] at hscan
  exact hscan.2

/-! ## The way to the end -/

/-- The counts of a scan under way: `dx` moves by one column at each turn. -/
theorem inward_count : Leads mem (fun v => v.pc = .inward d → v.dx = i16 (t.dx + d.sgn))
    (inward d t) := by
  simp only [inward, inwardEnd, sat_px, Act.sat_ite, Act.sat_goto]
  exact ⟨trivial, fun _ => ⟨fun _ => ⟨fun _ h => by simp at h, fun _ h => by simp at h⟩,
    fun _ _ => trivial⟩, fun _ => ⟨fun _ h => by simp at h, fun _ h => by simp at h⟩⟩

theorem outward_count : Leads mem (fun v => v.pc = .outward d → v.dx = i16 (t.dx - d.sgn))
    (outward d t) := by
  simp only [outward, sat_px, Act.sat_ite, Act.sat_goto]
  exact ⟨trivial, fun _ => ⟨fun _ h => by simp at h, fun _ _ => trivial⟩, fun _ h => by simp at h⟩

/-- The turns that the scans of a row still have. -/
def turnsLeft (d : Side) (t : State) : ℕ :=
  match t.pc with
  | .side _ => 1000
  | .inward _ => (600 - d.sgn * t.dx).toNat
  | .outward _ => (300 + d.sgn * t.dx).toNat
  | _ => 0

/-- The scans of the row are over: it is recorded, or a lateral exit is looked for. -/
def Scanned (d : Side) (t : State) : Prop := Records d t ∨ t.pc = .exitProbe d

theorem sgn_mul_sgn (d : Side) (k : ℤ) : d.sgn * (d.sgn * k) = k := by
  cases d <;> simp

theorem turnsLeft_inward (hpc : t.pc = .inward d) {k : ℤ} (h : Inward mem d s t k) :
    turnsLeft d t = (600 - k).toNat := by
  simp only [turnsLeft, hpc, h.dx, sgn_mul_sgn]

theorem turnsLeft_outward (hpc : t.pc = .outward d) {j : ℤ} (h : Outward mem d s t j) :
    turnsLeft d t = (300 - j).toNat := by
  simp only [turnsLeft, hpc, h.dx, mul_neg, sgn_mul_sgn]
  rfl

theorem turnsLeft_scanned (h : Scanned d t) : turnsLeft d t = 0 := by
  rcases h with h | h
  · rw [turnsLeft, show t.pc = .record d from h]
  · rw [turnsLeft, h]

theorem Outward.le_byte {j : ℤ} (h : Outward mem d s t j) (hx : Byte (s.track d).x) :
    j ≤ 255 := by
  obtain ⟨h0, h1⟩ := h.byte
  obtain ⟨hx0, hx1⟩ := hx
  cases d <;> simp only [outCol, Side.sgn, State.track] at h0 h1 hx0 hx1 <;> omega

/-- One turn of the scans of a row, or its end. -/
theorem turn_scan (hx : Byte (s.track d).x) (h : RowScan mem d s t.pc t)
    (hpc : t.pc = .inward d ∨ t.pc = .outward d) :
    ∃ u, (code enableLoop t).next mem = some u ∧ RowScan mem d s u.pc u ∧
      (u.pc = .inward d ∨ u.pc = .outward d ∨ Scanned d u) ∧ turnsLeft d u < turnsLeft d t := by
  have hjump : ¬ t.pc.MayHalt → ∃ u, (code enableLoop t).next mem = some u ∧ u.pc ∈ t.pc.succs :=
    exists_next
  rcases hpc with hpc | hpc <;> rw [hpc] at h
  · obtain ⟨-, k, hk⟩ := h
    have hle := hk.le
    have hk0 := hk.nonneg
    obtain ⟨u, hu, hsucc⟩ := hjump (by rw [hpc]; simp [Pc.MayHalt])
    have hcode : code enableLoop t = inward d t := by rw [code, hpc]
    have hnext := (inward_scan hx hpc hk).next (hcode ▸ hu)
    have hcount := inward_count.next (hcode ▸ hu)
    rw [turnsLeft_inward hpc hk]
    simp only [hpc, Pc.succs, List.mem_cons, List.not_mem_nil, or_false] at hsucc
    rcases hsucc with hpc' | hpc' | hpc' <;> rw [hpc'] at hnext
    · -- one column further inwards
      refine ⟨u, hu, hpc' ▸ hnext, .inl hpc', ?_⟩
      obtain ⟨-, k', hk'⟩ := hnext
      rw [turnsLeft_inward hpc' hk']
      have hdx := hcount hpc'
      rw [hk'.dx, hk.dx] at hdx
      cases d <;> simp [i16] at hdx <;> omega
    · -- the first column is road, and the scan turns outwards
      refine ⟨u, hu, hpc' ▸ hnext, .inr (.inl hpc'), ?_⟩
      obtain ⟨-, j, hj⟩ := hnext
      rw [turnsLeft_outward hpc' hj]
      have := hj.nonneg
      omega
    · refine ⟨u, hu, hpc' ▸ hnext, .inr (.inr (.inl hpc')), ?_⟩
      rw [turnsLeft_scanned (.inl hpc')]
      omega
  · obtain ⟨-, j, hj⟩ := h
    have hle := hj.le_byte hx
    have hj0 := hj.nonneg
    obtain ⟨u, hu, hsucc⟩ := hjump (by rw [hpc]; simp [Pc.MayHalt])
    have hcode : code enableLoop t = outward d t := by rw [code, hpc]
    have hnext := (outward_scan hx hpc hj).next (hcode ▸ hu)
    have hcount := outward_count.next (hcode ▸ hu)
    rw [turnsLeft_outward hpc hj]
    simp only [hpc, Pc.succs, List.mem_cons, List.not_mem_nil, or_false] at hsucc
    rcases hsucc with hpc' | hpc' | hpc' <;> rw [hpc'] at hnext
    · refine ⟨u, hu, hpc' ▸ hnext, .inr (.inl hpc'), ?_⟩
      obtain ⟨-, j', hj'⟩ := hnext
      rw [turnsLeft_outward hpc' hj']
      have hdx := hcount hpc'
      rw [hj'.dx, hj.dx] at hdx
      cases d <;> simp [i16] at hdx <;> omega
    · refine ⟨u, hu, hpc' ▸ hnext, .inr (.inr (.inr hpc')), ?_⟩
      rw [turnsLeft_scanned (.inr hpc')]
      omega
    · refine ⟨u, hu, hpc' ▸ hnext, .inr (.inr (.inl hpc')), ?_⟩
      rw [turnsLeft_scanned (.inl hpc')]
      omega

/-- The scans of a row come to an end. -/
theorem row_scanned (ha : Inv a) (hbegins : Begins d a) :
    ∃ b, Goto.Via (code enableLoop) mem (fun t => ¬ Scanned d t) a b ∧
      RowScan mem d a b.pc b ∧ Scanned d b := by
  have hx := ha.byte_x d
  have hscanned : ∀ t : State, t.pc = .inward d ∨ t.pc = .outward d → ¬ Scanned d t := by
    rintro t (hpc | hpc) (h | h) <;> exact absurd (hpc.symm.trans h) (by simp)
  obtain ⟨u, hu, -⟩ : ∃ u, (code enableLoop a).next mem = some u ∧ u.pc ∈ a.pc.succs :=
    exists_next (by rw [hbegins.1]; simp [Pc.MayHalt])
  obtain ⟨hscan, hpc⟩ := (begins_scan hx hbegins).next hu
  have hstep : ∀ t, RowScan mem d a t.pc t ∧
      (t.pc = .inward d ∨ t.pc = .outward d ∨ Scanned d t) → ¬ Scanned d t →
      ∃ v, (code enableLoop t).next mem = some v ∧ (RowScan mem d a v.pc v ∧
        (v.pc = .inward d ∨ v.pc = .outward d ∨ Scanned d v)) ∧
        turnsLeft d v < turnsLeft d t := by
    rintro t ⟨hscan, hpcs⟩ hnot
    obtain ⟨v, hv, hrest, hpcs', hlt⟩ := turn_scan hx hscan ((or_assoc.mpr hpcs).resolve_right hnot)
    exact ⟨v, hv, ⟨hrest, hpcs'⟩, hlt⟩
  obtain ⟨b, hvia, ⟨hb, -⟩, hend⟩ := Goto.exists_via_of_rank (code enableLoop) mem _ (Scanned d)
    (turnsLeft d) hstep ⟨hscan, .inl hpc⟩ (hscanned u (.inl hpc))
  exact ⟨b, hvia.head hu (hscanned u (.inl hpc)), hb, hend⟩

/-! ## Rows of a run -/

/-- The labels of a row of side `d` that has begun. -/
def Pc.InRow (d : Side) : Pc → Prop
  | .inward e | .outward e | .exitProbe e | .exitColumn e | .exitDown e | .exitUp e
  | .exitClimb e | .record e => e = d
  | _ => False

theorem Pc.inRow_of_succs {p : Pc} :
    ∀ q ∈ p.succs, q.InRow d → (p = .side d ∨ p.InRow d) ∧ p ≠ .record d := by
  cases p with
  | bottomLeft b | topLeft b => cases b <;> simp [succs, InRow]
  | edge e | side e | record e | corner e | crossRecord e =>
    cases e <;> simp [succs, InRow]
  | _ => simp [succs, InRow]

/-- A row is entered at its beginning. -/
theorem begins_or_inRow (ht : (code enableLoop s).next mem = some t) (h : t.pc.InRow d) :
    Begins d s ∨ s.pc.InRow d ∧ ¬ Records d s := by
  obtain ⟨hpc | hrow, hnot⟩ := Pc.inRow_of_succs t.pc (next_succs ht) h
  · refine .inl ⟨hpc, ?_⟩
    by_contra hstop
    have hskip : Leads mem (fun t => ¬ t.pc.InRow d) (code enableLoop s) := by
      simp only [code, hpc, side, eq_true_of_ne_false hstop, sideEnd_eq, Act.sat_ite, Act.sat_goto]
      refine ⟨fun _ => ?_, fun hn => absurd trivial hn⟩
      cases d <;> simp [afterSide, Pc.InRow]
    exact hskip.next ht h
  · exact .inr ⟨hrow, hnot⟩

/-- The row that is under way has begun before. -/
theorem row_begun (hs : ¬ s.pc.InRow d) (ht : Goto.Visits (code enableLoop) mem s t)
    (h : t.pc.InRow d) : ∃ a, Goto.Visits (code enableLoop) mem s a ∧ Begins d a ∧
      Goto.Via (code enableLoop) mem (fun t => ¬ Records d t) a t := by
  refine Goto.visits_induction (fun t => t.pc.InRow d →
    ∃ a, Goto.Visits (code enableLoop) mem s a ∧ Begins d a ∧
      Goto.Via (code enableLoop) mem (fun t => ¬ Records d t) a t)
    (fun h => absurd h hs) (fun u v hu ih hv hrow => ?_) t ht h
  rcases begins_or_inRow hv hrow with hbegins | ⟨hin, hnot⟩
  · exact ⟨u, hu, hbegins, .next hv⟩
  · obtain ⟨a, ha, hbegins, hvia⟩ := ih hin
    exact ⟨a, ha, hbegins, hvia.step hnot hv⟩

/-! ## Edges in reach -/

/-- The row that begins in `s` has an edge that its scans get to: inwards over a gap, or
outwards over road. -/
def EdgeInReach (mem : Cell → UInt8) (d : Side) (s : State) : Prop :=
  (∃ k, 0 < k ∧ k ≤ 5 ∧ (∀ i, 0 ≤ i → i < k → mem (s.y, inCol d s i) = EMPTY) ∧
    mem (s.y, inCol d s k) ≠ EMPTY ∧ inCol d s k ≠ d.edge) ∨
  (s.track d).x ≠ d.edge ∧ ∃ j, 0 ≤ j ∧ ((s.track d).cont ≤ 5 → j ≤ 5 - (s.track d).cont) ∧
    (∀ i, 0 ≤ i → i ≤ j → mem (s.y, outCol d s i) ≠ EMPTY) ∧
    (∀ i, 0 ≤ i → i < j → inside d (outCol d s i)) ∧
    (mem (s.y, outCol d s (j + 1)) = EMPTY ∨ ¬ inside d (outCol d s j)) ∧
    outCol d s j ≠ d.edge

theorem outCol_zero : outCol d s 0 = (s.track d).x := by rw [outCol, mul_zero, sub_zero]

/-- A row whose scans fail has no edge in reach. -/
theorem OutwardFails.not_reach (h : OutwardFails mem d s) (hx : Byte (s.track d).x) :
    ¬ EdgeInReach mem d s := by
  obtain ⟨hcont, hinside, hroad⟩ := h
  rintro (⟨k, hk, -, hgap, -⟩ | ⟨-, j, hj, hle, -, -, hend, -⟩)
  · have := hgap 0 le_rfl hk
    rw [inCol_zero hx, ← outCol_zero] at this
    exact hroad 0 le_rfl (by omega) this
  · rcases hend with hgap | hout
    · exact hroad (j + 1) (by omega) (by have := hle hcont; omega) hgap
    · have := hle hcont
      cases d <;> simp only [inside, outCol, Side.sgn, State.track] at * <;> omega

/-- A row is tracked if and only if it has an edge in reach. -/
theorem tracks_iff_reach (hx : Byte (s.track d).x) (hrec : Records d t)
    (h : ScanEnd mem d s t) : Tracks d t ↔ EdgeInReach mem d s := by
  have hfirst : inCol d s 0 = outCol d s 0 := by rw [inCol_zero hx, outCol_zero]
  cases h with
  | inwardFails hgap hlost _ =>
    refine iff_of_false (fun ht => by simp [ht.2.1] at hlost) ?_
    rintro (⟨k, hk, hk', -, hroad, -⟩ | ⟨-, j, hj, -, hroad, -⟩)
    · exact hroad (hgap k hk.le hk')
    · exact hroad 0 le_rfl hj (hfirst ▸ hgap 0 le_rfl (by decide))
  | inward k hk hk' hgap hroad hlost hxt =>
    constructor
    · intro ht
      exact .inl ⟨k, hk, hk', hgap, hroad, hxt ▸ ht.2.2⟩
    · rintro (⟨k', hk0, -, hgap', hroad', hne⟩ | ⟨-, j, hj, -, hroad', -⟩)
      · -- the first road inwards is in one column only
        obtain rfl : k = k' := by
          rcases lt_trichotomy k k' with hlt | heq | hgt
          · exact absurd (hgap' k hk.le hlt) hroad
          · exact heq
          · exact absurd (hgap k' hk0.le hgt) hroad'
        exact ⟨hrec, hlost, hxt.symm ▸ hne⟩
      · exact absurd (hfirst ▸ hgap 0 le_rfl hk) (hroad' 0 le_rfl hj)
  | edge hroad _ hxt hedge =>
    refine iff_of_false (fun ht => ht.2.2 (hxt.trans hedge)) ?_
    rintro (⟨k, hk, -, hgap, -⟩ | ⟨hne, -⟩)
    · exact hroad (hgap 0 le_rfl hk)
    · exact hne hedge
  | outward j hj hle hroad hinside hne hend hlost hxt =>
    constructor
    · intro ht
      exact .inr ⟨hne, j, hj, hle, hroad, hinside, hend, hxt ▸ ht.2.2⟩
    · rintro (⟨k, hk, -, hgap, -⟩ | ⟨-, j', hj', -, hroad', hinside', hend', hne'⟩)
      · exact absurd (hfirst ▸ hgap 0 le_rfl hk) (hroad 0 le_rfl hj)
      · -- and so is the last road outwards
        obtain rfl : j = j' := by
          rcases lt_trichotomy j j' with hlt | heq | hgt
          · rcases hend with hgap | hout
            · exact absurd hgap (hroad' (j + 1) (by omega) hlt)
            · exact absurd (hinside' j hj hlt) hout
          · exact heq
          · rcases hend' with hgap | hout
            · exact absurd hgap (hroad (j' + 1) (by omega) hgt)
            · exact absurd (hinside j' hj' hgt) hout
        exact ⟨hrec, hlost, hxt.symm ▸ hne'⟩
  | outwardFails hfails hlost _ =>
    exact iff_of_false (fun ht => by simp [ht.2.1] at hlost) (hfails.not_reach hx)

/-- A row that has an edge in reach is tracked. -/
theorem tracks_of_reach (ha : Inv a) (hbegins : Begins d a) (h : EdgeInReach mem d a) :
    ∃ b, Goto.Visits (code enableLoop) mem a b ∧ Tracks d b := by
  obtain ⟨b, hvia, hscan, hend⟩ := @row_scanned mem enableLoop a d ha hbegins
  rcases hend with hrec | hpc
  · rw [hrec] at hscan
    exact ⟨b, hvia.visits, (tracks_iff_reach (ha.byte_x d) hrec hscan.2).mpr h⟩
  · rw [hpc] at hscan
    exact absurd h (hscan.2.1.not_reach (ha.byte_x d))

end SmartCar.MtImage

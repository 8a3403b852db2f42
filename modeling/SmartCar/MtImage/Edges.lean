import SmartCar.MtImage.Range
import SmartCar.MtImage.RowCases

/-!
# mt_image: tracked columns are edges

A row of the normal pass has two scans, one inwards over a gap and one outwards over road; a
row of the cross pass has the same two in the other order. Whichever of them ends the row, the
column that is stored is road, and the pixel on its outer side is not.

* `OnEdge` is what is known of the cursor at each label of the scans;
* `tracked_is_edge` is the law.
-/

namespace SmartCar.MtImage

open CInt

variable {mem : Cell → UInt8} {enableLoop : Bool} {s t : State} {d : Side}

/-! ## Law and condition -/

/-- The code at the label of `s` reads pixels only. -/
def ReadsInImage (enableLoop : Bool) (mem : Cell → UInt8) (s : State) : Prop :=
  ∀ c ∈ (code enableLoop s).reads mem, InImage c

instance (enableLoop : Bool) (mem : Cell → UInt8) (s : State) :
    Decidable (ReadsInImage enableLoop mem s) := inferInstanceAs (Decidable (∀ c ∈ _, _))

/-- Column `x` of row `y` is road, and its neighbour on the outer side is not. -/
structure IsEdge (mem : Cell → UInt8) (d : Side) (y x : ℤ) : Prop where
  inImage : InImage (y, x)
  road : mem (y, x) = ROAD
  outer_inImage : InImage (y, x - d.sgn)
  outer : mem (y, x - d.sgn) = EMPTY

/-- The cross pass is about to store a column, and `cross_top` still holds. -/
def CrossTracks (d : Side) (s : State) : Prop := s.pc = .crossRecord d ∧ s.crossTop = true

/-! ## The scans -/

/-- The cursor is on road. -/
def OnRoad (mem : Cell → UInt8) (d : Side) (s : State) : Prop :=
  InImage (s.y, (s.track d).x) ∧ mem (s.y, (s.track d).x) ≠ EMPTY

/-- The pixel on the outer side of the cursor is not road. -/
def GapBefore (mem : Cell → UInt8) (d : Side) (s : State) : Prop :=
  InImage (s.y, (s.track d).x - d.sgn) ∧ mem (s.y, (s.track d).x - d.sgn) = EMPTY

/-- What is known of the cursor at label `p`. -/
@[simp] def OnEdge (mem : Cell → UInt8) (p : Pc) (s : State) : Prop :=
  match p with
  | .inward d => s.lost = false ∧ (s.dx ≠ 0 → InImage (s.y, (s.track d).x) → GapBefore mem d s)
  | .outward d => s.lost = false ∧ OnRoad mem d s
  | .record d => s.lost = false → (s.track d).x ≠ d.edge → OnRoad mem d s ∧ GapBefore mem d s
  | .crossOut d => s.dx ≠ 0 → OnRoad mem d s
  | .crossIn d => InImage (s.y, (s.track d).x) → GapBefore mem d s
  | .crossRecord d => s.crossTop = true → OnRoad mem d s ∧ GapBefore mem d s
  | _ => True

/-- The code keeps what is known of the cursor. -/
abbrev KeepsEdge (mem : Cell → UInt8) (a : Go) : Prop :=
  Leads mem (fun t => OnEdge mem t.pc t) a

theorem pc_scanned (s : State) (d : Side) (x dx : ℤ) :
    ({ s.setX d x with dx := dx } : State).pc = s.pc := by
  cases d <;> rfl

/-- A step inwards over a gap; on the right the cursor may wrap, and is then out of the image. -/
theorem gapBefore_step (hin : InImage (s.y, (s.track d).x))
    (hgap : mem (s.y, (s.track d).x) = EMPTY) (ht : t.y = s.y)
    (hx : (t.track d).x = u8 ((s.track d).x + d.sgn)) (hin' : InImage (t.y, (t.track d).x)) :
    GapBefore mem d t := by
  have hback : (t.track d).x - d.sgn = (s.track d).x := by
    obtain ⟨-, -, h0, h1⟩ := hin
    obtain ⟨-, -, h2, h3⟩ := hin'
    rw [hx] at h2 h3 ⊢
    cases d <;> simp [u8] at h0 h1 h2 h3 ⊢ <;> omega
  unfold GapBefore
  rw [hback, ht]
  exact ⟨hin, hgap⟩

/-- A step outwards over road. -/
theorem onRoad_step (hin : InImage (s.y, (s.track d).x - d.sgn))
    (hroad : mem (s.y, (s.track d).x - d.sgn) ≠ EMPTY) (ht : t.y = s.y)
    (hx : (t.track d).x = u8 ((s.track d).x - d.sgn)) : OnRoad mem d t := by
  obtain ⟨hy, hy', h0, h1⟩ := id hin
  rw [u8_of_range (by simp only at h0 h1; omega)] at hx
  unfold OnRoad
  rw [hx, ht]
  exact ⟨hin, hroad⟩

theorem inward_onEdge (hin : InImage (s.y, (s.track d).x)) (hpc : s.pc = .inward d)
    (h : OnEdge mem (.inward d) s) : KeepsEdge mem (inward d s) := by
  obtain ⟨hlost, hgap⟩ := h
  simp only [inward, inwardEnd, sat_px, Act.sat_ite, Act.sat_goto]
  refine ⟨trivial, fun hp => ⟨fun hmax => ⟨fun hdx => ?_, fun _ hl => ?_⟩, fun _ => ?_⟩,
    fun hp => ⟨fun _ => ?_, fun hdx _ hx => ?_⟩⟩
  · -- given up after five columns: `dx` is not 0
    exfalso
    have hzero : s.dx = 0 := by cases d <;> exact hdx.1
    rw [hzero] at hmax
    cases d <;> simp at hmax
  · cases d <;> simp at hl
  · rw [pc_scanned, hpc]
    exact ⟨by cases d <;> exact hlost, fun _ hin' =>
      gapBefore_step hin hp (by cases d <;> rfl) (by cases d <;> rfl) hin'⟩
  · exact ⟨hlost, hin, hp⟩
  · have hne : s.dx ≠ 0 := fun h0 => hdx ⟨h0, hx⟩
    exact ⟨⟨hin, hp⟩, hgap hne hin⟩

theorem outward_onEdge (hin : InImage (s.y, (s.track d).x - d.sgn)) (hpc : s.pc = .outward d)
    (h : OnEdge mem (.outward d) s) : KeepsEdge mem (outward d s) := by
  obtain ⟨hlost, hroad⟩ := h
  simp only [outward, sat_px, Act.sat_ite, Act.sat_goto]
  refine ⟨trivial, fun hp => ⟨fun _ => trivial, fun _ => ?_⟩, fun hp _ hx => ⟨hroad, hin, ?_⟩⟩
  · rw [pc_scanned, hpc]
    exact ⟨by cases d <;> exact hlost,
      onRoad_step hin hp.1 (by cases d <;> rfl) (by cases d <;> rfl)⟩
  · -- the scan has not stopped at the border of the image: the cursor would be at the edge
    by_contra hne
    have hout : ¬ inside d (s.track d).x := fun hinside => hp ⟨hne, hinside⟩
    obtain ⟨-, -, h0, h1⟩ := hin
    cases d <;> simp [inside] at hout hx h0 h1 <;> omega

theorem crossOut_onEdge (hin : InImage (s.y, (s.track d).x - d.sgn)) (hpc : s.pc = .crossOut d)
    (h : OnEdge mem (.crossOut d) s) : KeepsEdge mem (crossOut d s) := by
  simp only [crossOut, crossOutEnd, sat_px, Act.sat_ite, Act.sat_goto]
  refine ⟨trivial, fun hp => ⟨fun hmax => ⟨fun hdx => ?_, fun _ htop => ?_⟩, fun _ => ?_⟩,
    fun hp => ⟨fun _ _ => ⟨hin, not_not.mp hp⟩, fun hdx _ => ⟨h hdx, hin, not_not.mp hp⟩⟩⟩
  · exact absurd (hmax.symm.trans hdx) (by decide)
  · simp at htop
  · rw [pc_scanned, hpc]
    exact fun _ => onRoad_step hin hp (by cases d <;> rfl) (by cases d <;> rfl)

theorem crossIn_onEdge (hin : InImage (s.y, (s.track d).x)) (hpc : s.pc = .crossIn d)
    (h : OnEdge mem (.crossIn d) s) : KeepsEdge mem (crossIn d s) := by
  simp only [crossIn, sat_px, Act.sat_ite, Act.sat_goto]
  refine ⟨trivial, fun hp => ?_, fun hp _ => ⟨⟨hin, hp⟩, h hin⟩⟩
  have hpc' : (s.setX d (u8 ((s.track d).x + d.sgn))).pc = .crossIn d := by
    cases d <;> exact hpc
  rw [hpc']
  exact fun hin' => gapBefore_step hin hp (by cases d <;> rfl) (by cases d <;> rfl) hin'

/-- Each stretch of code that reads pixels only keeps what is known of the cursor. -/
theorem step_onEdge (hreads : ReadsInImage enableLoop mem s) (h : OnEdge mem s.pc s) :
    KeepsEdge mem (code enableLoop s) := by
  have hflow := @leads_of_succs mem enableLoop s (OnEdge mem)
  unfold ReadsInImage at hreads
  unfold code at hreads hflow ⊢
  cases hpc : s.pc with
  | inward d =>
    rw [hpc] at h hreads
    exact inward_onEdge (hreads _ (.head _)) hpc h
  | outward d =>
    rw [hpc] at h hreads
    exact outward_onEdge (hreads _ (.head _)) hpc h
  | crossOut d =>
    rw [hpc] at h hreads
    exact crossOut_onEdge (hreads _ (.head _)) hpc h
  | crossIn d =>
    rw [hpc] at h hreads
    exact crossIn_onEdge (hreads _ (.head _)) hpc h
  | side d =>
    simp only [side, sideEnd_eq, Act.sat_ite, Act.sat_goto]
    cases d <;> simp [afterSide]
  | exitProbe d => cases d <;> simp [exitProbe, invLost]
  | exitDown d => cases d <;> simp [exitDown, loopExitLost, invLost, hpc]
  | exitUp d => cases d <;> simp [exitUp, exitNext, loopExitLost, invLost]
  | exitClimb d => cases d <;> simp [exitClimb, exitNext, loopExitLost, invLost, hpc]
  | crossRow => simp [crossRow]
  | crossRecord d =>
    cases d <;> simp only [crossRecord, Act.sat_touch, Act.sat_ite, sat_setImg, Act.sat_goto] <;>
      simp
  -- the other labels do not lead to a scan
  | bottomLeft b | topLeft b => cases b <;> exact hpc ▸ hflow (by simp [hpc, Pc.succs])
  | edge d | corner d | record d => cases d <;> exact hpc ▸ hflow (by simp [hpc, Pc.succs])
  | _ => exact hpc ▸ hflow (by simp [hpc, Pc.succs])

/-! ## The law -/

theorem via_onEdge (hs : Enters s)
    (ht : Goto.Via (code enableLoop) mem (ReadsInImage enableLoop mem) s t) :
    OnEdge mem t.pc t := by
  refine ht.invariant (fun t => OnEdge mem t.pc t) (fun u hu => ?_) fun u v _ hu h hv => ?_
  · exact (leads_of_succs (Q := OnEdge mem) (by simp [hs.pc, Pc.succs])).next hu
  · exact (step_onEdge hu h).next hv

/-- The column that is stored is the cursor's. -/
theorem tracks_stores (h : Tracks d s) (ht : (code enableLoop s).next mem = some t) :
    (t.track d).xs s.y = (s.track d).x := by
  obtain ⟨hpc, hlost, hx⟩ := h
  have hrecorded : (recorded d s).xs s.y = (s.track d).x := by
    rw [recorded_xs, Function.update_self]
  rw [code, hpc] at ht
  cases (Act.post_iff.mp record_cases).1 t ht with
  | edge hedge _ => exact absurd hedge hx
  | stopped _ hl _ _ => simp [hlost] at hl
  | extrapolated _ hl _ _ _ => simp [hlost] at hl
  | lost _ hl _ _ _ => simp [hlost] at hl
  | found _ _ h =>
    rw [h.field Track.xs fun _ => rfl]
    exact hrecorded
  | curve _ _ _ _ h =>
    rw [h.field Track.xs fun _ => rfl]
    exact hrecorded

theorem crossTracks_stores (h : CrossTracks d s) (ht : (code enableLoop s).next mem = some t) :
    (t.track d).xs s.y = (s.track d).x := by
  obtain ⟨hpc, htop⟩ := h
  have hsat : Leads mem (fun t => (t.track d).xs s.y = (s.track d).x) (code enableLoop s) := by
    unfold code
    simp only [hpc, crossRecord, Act.sat_touch]
    cases d <;> simp only [Act.sat_ite, sat_setImg, Act.sat_goto] <;> simp
  exact hsat.next ht

/-- A pixel that is not empty is road. -/
theorem memory_road {image : Image} {beyond : ℤ → UInt8} {c : Cell} (hin : InImage c)
    (h : memory image beyond c ≠ EMPTY) : memory image beyond c = ROAD := by
  have haddr : 0 ≤ c.1 * 188 + c.2 ∧ c.1 * 188 + c.2 < 120 * 188 := by
    obtain ⟨hy, hy', hx, hx'⟩ := hin
    constructor <;> omega
  unfold memory at h ⊢
  dsimp only at h ⊢
  rw [if_pos haddr] at h ⊢
  split at h
  · rw [if_pos (by assumption)]
  · exact absurd rfl h

/-- As long as pixels only have been read, a column that is tracked is stored as the column of
an edge. -/
theorem tracked_is_edge (image : Image) (beyond : ℤ → UInt8) (enableLoop : Bool) (d : Side)
    (s t t' : State) (hs : Enters s)
    (ht : Goto.Via (code enableLoop) (memory image beyond)
      (ReadsInImage enableLoop (memory image beyond)) s t)
    (htracks : Tracks d t ∨ CrossTracks d t)
    (hnext : (code enableLoop t).next (memory image beyond) = some t') :
    IsEdge (memory image beyond) d t.y ((t'.track d).xs t.y) := by
  have honEdge := via_onEdge hs ht
  have hedge : OnRoad (memory image beyond) d t ∧ GapBefore (memory image beyond) d t := by
    rcases htracks with ⟨hpc, hlost, hx⟩ | ⟨hpc, htop⟩ <;> rw [hpc] at honEdge
    · exact honEdge hlost hx
    · exact honEdge htop
  have hstored : (t'.track d).xs t.y = (t.track d).x := by
    rcases htracks with h | h
    · exact tracks_stores h hnext
    · exact crossTracks_stores h hnext
  rw [hstored]
  exact ⟨hedge.1.1, memory_road hedge.1.1 hedge.1.2, hedge.2.1, hedge.2.2⟩

/-- A straight narrow road; the first pixel of a row is road too, so that no zebra crossing is
looked for. -/
def narrow : Image := fun _ x => decide (x = 0 ∨ (90 ≤ x ∧ x ≤ 96))

theorem tracked_is_edge_narrow : ∃ t t', Tracks .left t ∧
    (code false t).next (memory narrow fun _ => EMPTY) = some t' ∧
    IsEdge (memory narrow fun _ => EMPTY) .left t.y (t'.l.xs t.y) := by
  have hcheck : Goto.checkVia (code false) (memory narrow fun _ => EMPTY)
      (fun t => decide (ReadsInImage false (memory narrow fun _ => EMPTY) t))
      (fun t => decide (Tracks .left t) &&
        ((code false t).next (memory narrow fun _ => EMPTY)).isSome) 17 (called .normal) := by
    decide +kernel
  obtain ⟨t, ht, hq⟩ := Goto.exists_via hcheck
  obtain ⟨htracks, hsome⟩ := (Bool.and_eq_true _ _).mp hq
  obtain ⟨t', hnext⟩ := Option.isSome_iff_exists.mp hsome
  simp only [decide_eq_true_eq] at ht htracks
  exact ⟨t, t', htracks, hnext, tracked_is_edge narrow (fun _ => EMPTY) false .left
    (called .normal) t t' (enters_called .normal) ht (.inl htracks) hnext⟩

end SmartCar.MtImage

import SmartCar.MtImage.Flow

/-!
# mt_image: the ways in which a row ends

`record` does one of six things with a row: the side is at the border of the image, the row is
lost (and the side is given up, or extrapolated, or left as it is), or it has a column (and a
curve may end the pass). `RowCase` has a constructor for each of them, which says what the
variables of the side are afterwards, but for those of the debounce; `record_cases` is the law.
-/

namespace SmartCar.MtImage

open CInt

variable {mem : Cell → UInt8} {s t u : State} {d : Side} {v w : Track}

/-! ## The variables of the side afterwards -/

/-- The variables of a side without those of the debounce. -/
def Track.plain (t : Track) : Track := { t with ngCount := 0, gCount := 0, ng := false, segs := 0 }

/-- The first row with a column becomes the origin of the side. -/
def based (d : Side) (s : State) : Track :=
  let t := s.track d
  if t.unset then { t with y0 := s.y, unset := false } else t

/-- The normal pass is about to store the column that it has tracked. -/
def Tracks (d : Side) (s : State) : Prop :=
  s.pc = .record d ∧ s.lost = false ∧ (s.track d).x ≠ d.edge

instance (d : Side) (s : State) : Decidable (Tracks d s) := inferInstanceAs (Decidable (_ ∧ _))

/-- A slope is calculated. -/
def Slopes (d : Side) (s : State) : Prop :=
  let t := based d s
  s.y - t.y0 ≠ 0 ∧ (0 < d.sgn * s.dx ∧ d.sgn * s.dx ≤ dxMMax) ∧ t.x - s.r.xs t.y0 ≠ 0

instance (d : Side) (s : State) : Decidable (Slopes d s) := inferInstanceAs (Decidable (_ ∧ _))

def sloped (d : Side) (s : State) : Track :=
  let t := based d s
  if Slopes d s then
    { t with m := ((t.x - t.xs t.y0 : ℤ) : ℚ) / ((s.y - t.y0 : ℤ) : ℚ), mSet := true }
  else t

/-- `dx = xl - xls[y + 1]`, as an exact integer. -/
def drift (d : Side) (s : State) : ℤ := d.sgn * ((s.track d).x - (s.track d).xs (s.y + 1))

/-- The row has a column. -/
def recorded (d : Side) (s : State) : Track :=
  let t := sloped d s
  countRow (i16 (drift d s)) { t with xs := Function.update t.xs s.y t.x }

/-- The column of the straight line from the side's origin in row `y`. -/
def lineAt (t : Track) (y : ℤ) : ℤ := trunc (t.m * (y - t.y0 : ℤ) + t.xs t.y0)

/-- The row is extrapolated. -/
def extrapolated (d : Side) (s : State) : Track :=
  let t := based d s
  let x := u8 (lineAt t s.y)
  { t with x := x, xs := Function.update t.xs s.y x }

/-- `t` has the variables `v` of side `d`. -/
def EndsWith (d : Side) (v : Track) (t : State) : Prop := (t.track d).plain = v.plain

/-- A field that is not one of the debounce. -/
theorem EndsWith.field {α : Type} (h : EndsWith d v t) (f : Track → α)
    (hf : ∀ v, f v.plain = f v) : f (t.track d) = f v := by
  rw [← hf, h, hf]

/-- A row of side `d` that is recorded in `s` ends in `t`. -/
inductive RowCase (d : Side) (s t : State) : Prop
  | edge (hx : (s.track d).x = d.edge) (h : EndsWith d { s.track d with unset := true } t)
  | stopped (hx : (s.track d).x ≠ d.edge) (hlost : s.lost = true) (hel : s.el > .cross)
      (h : EndsWith d { based d s with stop := true } t)
  | extrapolated (hx : (s.track d).x ≠ d.edge) (hlost : s.lost = true) (hel : ¬ s.el > .cross)
      (hm : (s.track d).mSet = true) (h : EndsWith d (extrapolated d s) t)
  | lost (hx : (s.track d).x ≠ d.edge) (hlost : s.lost = true) (hel : ¬ s.el > .cross)
      (hm : (s.track d).mSet = false) (h : EndsWith d (based d s) t)
  | found (hx : (s.track d).x ≠ d.edge) (hlost : s.lost = false)
      (h : EndsWith d { recorded d s with dx := i8 (i16 (drift d s)) } t)
  | curve (hx : (s.track d).x ≠ d.edge) (hlost : s.lost = false) (hpc : t.pc = .normalEnd)
      (hel : t.el = curveOf d) (h : EndsWith d (recorded d s) t)

/-! ## The ends of a row -/

theorem sideEnd_ends (h : (u.track d).plain = v.plain) :
    Jumps mem (EndsWith d v) (sideEnd d u) := by
  rw [sideEnd_eq]
  cases d <;> exact h

theorem track_of_setTrack (s : State) (d : Side) (v : Track) : (s.setTrack d v).track d = v := by
  cases d <;> rfl

theorem good_ends (h : (u.track d).plain = v.plain) : Jumps mem (EndsWith d v) (good d u) := by
  unfold good
  apply sideEnd_ends
  split
  · rw [track_of_setTrack]
    exact h
  · exact h

theorem noGood_ends (h : (u.track d).plain = v.plain) :
    Jumps mem (EndsWith d v) (noGood d u) := by
  unfold noGood
  apply sideEnd_ends
  rw [track_of_setTrack]
  split <;> exact h

theorem debounce_ends (h : (u.track d).plain = v.plain) :
    Jumps mem (EndsWith d v) (debounce d u) := by
  simp only [debounce, Act.post_ite]
  refine ⟨fun _ => ⟨fun _ => ?_, fun _ => ?_⟩, fun _ => ⟨fun _ => ⟨fun _ => ?_, fun _ => ?_⟩,
    fun _ => sideEnd_ends h⟩⟩
  · exact sideEnd_ends (by rw [track_of_setTrack]; exact h)
  · exact good_ends (by rw [track_of_setTrack]; exact h)
  · exact good_ends (by rw [track_of_setTrack]; exact h)
  · exact sideEnd_ends (by rw [track_of_setTrack]; exact h)

theorem secondLoop_same_track (d : Side) (s : State) :
    (secondLoop d s).track d = s.track d := by
  unfold secondLoop
  split <;> cases d <;> rfl

/-- From `dx = xl - xls[y + 1];` on, in a state that has the variables `v` of the side. -/
theorem convexity_ends {dx : ℤ} (hv : u.track d = v)
    (hdx : dx = i16 (d.sgn * (v.x - v.xs (u.y + 1)))) :
    Jumps mem (fun t => EndsWith d { countRow dx v with dx := i8 dx } t ∨
      (t.pc = .normalEnd ∧ t.el = curveOf d ∧ EndsWith d (countRow dx v) t)) (convexity d u) := by
  simp only [convexity, Act.post_touch, Act.post_ite, Act.post_goto, hv, ← hdx]
  refine ⟨fun _ => .inr ⟨trivial, trivial, ?_⟩, fun _ => ?_⟩
  · cases d <;> rfl
  · refine (debounce_ends ?_).mono (fun t ht => .inl ht) fun _ => id
    rw [track_of_setTrack, secondLoop_same_track]
    cases d <;> rfl

theorem based_unset (d : Side) (s : State) : (based d s).unset = false := by
  unfold based
  dsimp only
  split
  · rfl
  · rename_i h
    simpa using h

theorem based_kept (d : Side) (s : State) : (based d s).x = (s.track d).x ∧
    (based d s).xs = (s.track d).xs ∧ (based d s).mSet = (s.track d).mSet ∧
    (based d s).m = (s.track d).m ∧ (based d s).dx = (s.track d).dx := by
  unfold based
  dsimp only
  split <;> exact ⟨rfl, rfl, rfl, rfl, rfl⟩

theorem sloped_kept (d : Side) (s : State) : (sloped d s).x = (s.track d).x ∧
    (sloped d s).xs = (s.track d).xs ∧ (sloped d s).dx = (s.track d).dx := by
  obtain ⟨hx, hxs, -, -, hdx⟩ := based_kept d s
  unfold sloped
  dsimp only
  split <;> exact ⟨hx, hxs, hdx⟩

/-- What does not depend on the origin and the slope. -/
theorem sloped_field {α : Type} (f : Track → α) (hf : ∀ (v : Track) y0 unset m mSet,
    f { v with y0 := y0, unset := unset, m := m, mSet := mSet } = f v) :
    f (based d s) = f (s.track d) ∧ f (sloped d s) = f (s.track d) := by
  have hbased : f (based d s) = f (s.track d) := by
    unfold based
    dsimp only
    split
    · exact hf _ _ _ _ _
    · rfl
  refine ⟨hbased, ?_⟩
  rw [← hbased]
  unfold sloped
  dsimp only
  split
  · exact hf _ _ _ _ _
  · rfl

theorem recorded_xs (d : Side) (s : State) :
    (recorded d s).xs = Function.update (s.track d).xs s.y (s.track d).x := by
  obtain ⟨hx, hxs, -⟩ := sloped_kept d s
  unfold recorded
  dsimp only
  rw [(countRow_same _ _).2.1, hx, hxs]

/-- What a row that is recorded in `s` begins with. -/
theorem slope_ends {Q : State → Prop} {k : State → Go}
    (hk : Jumps mem Q (k (s.setTrack d (sloped d s)))) :
    Jumps mem Q (slope d (s.setTrack d (based d s)) k) := by
  have hguard : slopeGuard d (s.setTrack d (based d s)) ↔ s.y - (based d s).y0 ≠ 0 ∧
      (0 < d.sgn * s.dx ∧ d.sgn * s.dx ≤ dxMMax) := by
    have hunset := based_unset d s
    unfold slopeGuard
    rw [track_of_setTrack]
    cases d <;> simp [hunset]
  have hr : (s.setTrack d (based d s)).r.xs = s.r.xs := by
    cases d
    · rfl
    · exact (based_kept .right s).2.1
  have hset : ∀ w, (s.setTrack d (based d s)).setTrack d w = s.setTrack d w := by
    intro w
    cases d <;> rfl
  have hy : (s.setTrack d (based d s)).y = s.y := by cases d <;> rfl
  simp only [slope, Act.post_ite, Act.post_touch, hguard, track_of_setTrack, hr, hset, hy]
  have hnot : ¬ Slopes d s → sloped d s = based d s := fun h => if_neg h
  refine ⟨fun hg => ⟨fun hne => ?_, fun hne => ?_⟩, fun hg => ?_⟩
  · have hpos : Slopes d s := ⟨hg.1, hg.2, hne⟩
    simpa only [sloped, if_pos hpos] using hk
  · rwa [hnot fun h => hne h.2.2] at hk
  · rwa [hnot fun h => hg ⟨h.1, h.2.1⟩] at hk

/-- `if (l_unset) { y0l = y; l_unset = false; }` -/
theorem begun_based (d : Side) (s : State) : (if (s.track d).unset then
    s.setTrack d { s.track d with y0 := s.y, unset := false } else s) =
    s.setTrack d (based d s) := by
  unfold based
  dsimp only
  split <;> cases d <;> rfl

/-- What holds after the end of each kind of row holds after the row. -/
theorem record_rule {Q : State → Prop}
    (hedge : (s.track d).x = d.edge →
      Jumps mem Q (noGood d (s.setTrack d { s.track d with unset := true })))
    (hstopped : (s.track d).x ≠ d.edge → s.lost = true → s.el > .cross →
      Jumps mem Q (sideEnd d (s.setTrack d { based d s with stop := true })))
    (hextrapolated : (s.track d).x ≠ d.edge → s.lost = true → ¬ s.el > .cross →
      (s.track d).mSet = true → Jumps mem Q (noGood d (s.setTrack d (extrapolated d s))))
    (hlost : (s.track d).x ≠ d.edge → s.lost = true → ¬ s.el > .cross →
      (s.track d).mSet = false → Jumps mem Q (sideEnd d (s.setTrack d (based d s))))
    (hfound : (s.track d).x ≠ d.edge → s.lost = false →
      Jumps mem Q (convexity d (s.setTrack d
        { sloped d s with xs := Function.update (sloped d s).xs s.y (sloped d s).x }))) :
    Jumps mem Q (record d s) := by
  have hmSet : (based d s).mSet = (s.track d).mSet := (based_kept d s).2.2.1
  have hlost' : (s.setTrack d (based d s)).lost = s.lost := by cases d <;> rfl
  have hel : (s.setTrack d (based d s)).el = s.el := by cases d <;> rfl
  have hset : ∀ v w, (s.setTrack d v).setTrack d w = s.setTrack d w := by
    intro v w
    cases d <;> rfl
  simp only [record, Act.post_ite, begun_based, hlost']
  refine ⟨hedge, fun hx => ⟨fun hl => ?_, fun hl => ?_⟩⟩
  · simp only [recordLost, Act.post_ite, Act.post_touch, post_setImg, track_of_setTrack, hel,
      hset]
    refine ⟨hstopped hx hl, fun hc => ⟨fun hm => ?_, fun hm => ?_⟩⟩
    · -- the column that is calculated is stored, and becomes the cursor
      have hends := hextrapolated hx hl hc (hmSet ▸ hm)
      cases d <;> exact hends
    · exact hlost hx hl hc (by simpa [hmSet] using hm)
  · refine slope_ends ?_
    simp only [Act.post_touch, post_setImg]
    have hends := hfound hx (by simpa using hl)
    cases d <;> exact hends

/-- What the recording of a row does. -/
theorem record_cases : Jumps mem (RowCase d s) (record d s) := by
  refine record_rule (fun hx => ?_) (fun hx hl hc => ?_) (fun hx hl hc hm => ?_)
    (fun hx hl hc hm => ?_) fun hx hl => ?_
  · refine (noGood_ends ?_).mono (fun t ht => .edge hx ht) fun _ => id
    rw [track_of_setTrack]
  · refine (sideEnd_ends ?_).mono (fun t ht => .stopped hx hl hc ht) fun _ => id
    rw [track_of_setTrack]
  · refine (noGood_ends ?_).mono (fun t ht => .extrapolated hx hl hc hm ht) fun _ => id
    rw [track_of_setTrack]
  · refine (sideEnd_ends ?_).mono (fun t ht => .lost hx hl hc hm ht) fun _ => id
    rw [track_of_setTrack]
  · obtain ⟨hsx, hsxs, -⟩ := sloped_kept d s
    have hy : ∀ w, (s.setTrack d w).y = s.y := by
      intro w
      cases d <;> rfl
    -- the row below is not the one that has just been stored
    have hdx : i16 (drift d s) = i16 (d.sgn * ((sloped d s).x -
        Function.update (sloped d s).xs s.y (sloped d s).x (s.y + 1))) := by
      rw [Function.update_of_ne (by omega), hsx, hsxs, drift]
    refine (convexity_ends (track_of_setTrack _ _ _) (hdx.trans ?_)).mono
      (fun t ht => ?_) fun _ => id
    · rw [hy]
    · rcases ht with ht | ⟨hpc, hel, ht⟩
      · exact .found hx hl ht
      · exact .curve hx hl hpc hel ht

/-- What holds of the variables of the side, but for those of the debounce, after each kind of row
holds after the row. -/
theorem rowCase_rule {P : Track → Prop} (h : RowCase d s t)
    (hP : ∀ {v w : Track}, v.plain = w.plain → P w → P v)
    (hedge : P { s.track d with unset := true })
    (hstopped : s.lost = true → P { based d s with stop := true })
    (hextrapolated : (s.track d).mSet = true → P (extrapolated d s)) (hlost : P (based d s))
    (hfound : s.lost = false → (s.track d).x ≠ d.edge →
      ∀ dx, P { recorded d s with dx := dx } ∧ P (recorded d s)) : P (t.track d) := by
  cases h with
  | edge _ h => exact hP h hedge
  | stopped _ hl _ h => exact hP h (hstopped hl)
  | extrapolated _ _ _ hm h => exact hP h (hextrapolated hm)
  | lost _ _ _ _ h => exact hP h hlost
  | found hx hl h => exact hP h (hfound hl hx _).1
  | curve hx hl _ _ h => exact hP h (hfound hl hx 0).2

/-- The other rows keep their columns. -/
theorem rowCase_xs_other (h : RowCase d s t) {i : ℤ} (hi : i ≠ s.y) :
    (t.track d).xs i = (s.track d).xs i := by
  have hbased : (based d s).xs i = (s.track d).xs i := congrFun (based_kept d s).2.1 i
  have hrecorded : (recorded d s).xs i = (s.track d).xs i := by
    rw [recorded_xs, Function.update_of_ne hi]
  have hextrapolated : (extrapolated d s).xs i = (s.track d).xs i := by
    unfold extrapolated
    dsimp only
    rw [Function.update_of_ne hi, hbased]
  exact rowCase_rule (P := fun v => v.xs i = (s.track d).xs i) h
    (fun hv hw => (congrFun (congrArg Track.xs hv) i).trans hw) rfl (fun _ => hbased)
    (fun _ => hextrapolated) hbased fun _ _ _ => ⟨hrecorded, hrecorded⟩

end SmartCar.MtImage

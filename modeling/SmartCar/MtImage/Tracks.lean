import SmartCar.MtImage.RowCases

/-!
# mt_image: what a stretch of code does to a side

Few labels change more of a side than its cursor. `TrackStep` has a constructor for each of
them, `track_step` is the law, and every invariant of a side's columns, slope, counters and
flags is a case analysis over it.
-/

namespace SmartCar.MtImage

open CInt

variable {mem : Cell → UInt8} {enableLoop : Bool} {s t : State} {d e : Side} {v : Track}

/-- `t` has the variables `v` of side `d`, but perhaps for the cursor. -/
def Becomes (d : Side) (v : Track) (t : State) : Prop := (t.track d).still = v.still

/-- A field that is not the cursor. -/
theorem Becomes.field {α : Type} (h : Becomes d v t) (f : Track → α)
    (hf : ∀ v, f v.still = f v) : f (t.track d) = f v := by
  rw [← hf, h, hf]

/-- What a stretch of code from `s` to `t` does to side `d`. -/
inductive TrackStep (d : Side) (s t : State) : Prop
  | still (hpc : s.pc.pass = .opening → t.pc.pass = .opening) (h : Becomes d (s.track d) t)
  | locals (hpc : s.pc.pass = .opening) (h : Becomes d (initTrack (s.track d)) t)
  | bottom (hpc : s.pc = .bottomTest) (hstop : s.l.x ≠ xMin ∨ s.r.x ≠ xMax)
      (hx : (s.track d).x ≠ d.edge)
      (h : Becomes d { s.track d with
        xs := Function.update (s.track d).xs s.y (s.track d).x } t)
  | flags (hpc : s.pc.pass = .bottom) (h : ∃ pad stop0 stop ng, Becomes d { s.track d with
      pad := pad, stop0 := stop0, stop := stop, ng := ng } t)
  | reset (hpc : s.pc = .normalBound) (h : Becomes d (resetTrack (s.track d)) t)
  | row (hpc : s.pc = .record d) (h : RowCase d s t)
  | append (hpc : s.pc = .append d) (hy : s.y > s.yc)
      (h : Becomes d { s.track d with
        xs := Function.update (s.track d).xs s.y (u8 (trunc (s.xf + s.m))) } t)
  | cross (hpc : s.pc = .crossRecord d)
      (h : Becomes d { s.track d with
        xs := Function.update (s.track d).xs s.y (s.track d).x } t)
  | crossSlope (hpc : s.pc = .crossEnd) (m : ℚ) (h : Becomes d { s.track d with m := m } t)

/-- Past the opening a side may stay as it is. -/
theorem TrackStep.kept (hpass : s.pc.pass ≠ .opening) (h : Becomes d (s.track d) t) :
    TrackStep d s t := .still (fun hopening => absurd hopening hpass) h

/-- The code changes side `d` in one of these ways. -/
abbrev Tracked (mem : Cell → UInt8) (d : Side) (s : State) (a : Go) : Prop :=
  Leads mem (TrackStep d s) a

/-- The columns are set to 0 at the beginning, or nothing is searched. -/
theorem zebra_tracked (hpc : s.pc = .zebra) : Tracked mem d s (zebra s) := by
  have hpass : s.pc.pass = .opening := by rw [hpc]; rfl
  simp only [zebra, locals, sat_px, Act.sat_ite, Act.sat_halt, Act.sat_goto]
  refine ⟨fun _ => ⟨trivial, fun _ => trivial, fun _ => ?_⟩, fun _ => ⟨fun _ => ?_, fun _ => ?_⟩⟩
  · refine .still (fun _ => ?_) ?_
    · split <;> exact hpass
    · split <;> cases d <;> rfl
  · exact .locals hpass (by cases d <;> rfl)
  · exact .locals hpass (by cases d <;> rfl)

/-- The bottom row stores what its scan has found. -/
theorem bottomTest_tracked (hpc : s.pc = .bottomTest) : Tracked mem d s (bottomTest s) := by
  have hpass : s.pc.pass ≠ .opening := by rw [hpc]; simp [Pc.pass]
  simp only [bottomTest, bottomStore, Act.sat_ite, Act.sat_touch, Act.sat_goto]
  refine ⟨fun hstop => ⟨fun hl => ⟨trivial, fun hr => ⟨trivial, ?_⟩, fun hr => ?_⟩,
    fun hl => ⟨fun hr => ⟨trivial, ?_⟩, fun hr => ?_⟩⟩, fun _ => .kept hpass (by cases d <;> rfl)⟩
  all_goals cases d
  · exact .bottom hpc hstop hl rfl
  · exact .bottom hpc hstop hr rfl
  · exact .bottom hpc hstop hl rfl
  · exact .kept hpass rfl
  · exact .kept hpass rfl
  · exact .bottom hpc hstop hr rfl
  · exact .kept hpass rfl
  · exact .kept hpass rfl

/-- The row has been found: `l_pad` and `r_pad` are set. -/
theorem bottomFound_tracked (hpc : s.pc = .bottomFound) : Tracked mem d s (bottomFound s) := by
  have hpass : s.pc.pass = .bottom := by rw [hpc]; rfl
  simp only [bottomFound, edgeLeft, edgeRight, Act.sat_touch, sat_setImg, Act.sat_ite,
    Act.sat_goto]
  refine ⟨trivial, trivial, fun _ => ?_, fun _ => ⟨fun _ => ?_, fun _ => ?_⟩⟩
  all_goals
    refine .flags hpass ⟨decide ((s.track d).xs yMax = d.edge), (s.track d).stop0,
      (s.track d).stop, (s.track d).ng, ?_⟩
    cases d <;> rfl

/-- The scan of a border changes flags. -/
theorem edge_tracked (hpc : s.pc = .edge e) : Tracked mem d s (edge e s) := by
  have hbottom : s.pc.pass = .bottom := by rw [hpc]; rfl
  have hpass : s.pc.pass ≠ .opening := by rw [hbottom]; simp
  have hdone : ∀ u : State, (∃ pad stop0 stop ng, Becomes d { s.track d with
      pad := pad, stop0 := stop0, stop := stop, ng := ng } u) → Tracked mem d s (edgeDone e u) := by
    rintro u ⟨pad, stop0, stop, ng, hu⟩
    have hflags : ∀ v : State, v.track d = u.track d → TrackStep d s v := fun v hv =>
      .flags hbottom ⟨pad, stop0, stop, ng, by unfold Becomes; rw [hv]; exact hu⟩
    cases e
    · simp only [edgeDone, edgeRight, Act.sat_ite, Act.sat_goto]
      exact ⟨fun _ => hflags _ (by cases d <;> rfl), fun _ => hflags _ (by cases d <;> rfl)⟩
    · exact hflags _ (by cases d <;> rfl)
  have hsame : Becomes d (s.track d) s := rfl
  simp only [edge, sat_px, Act.sat_ite, Act.sat_goto]
  refine ⟨trivial, fun _ => ⟨fun _ => hdone _ ?_, fun _ => .kept hpass (by cases d <;> rfl)⟩,
    fun _ => hdone _ ⟨(s.track d).pad, (s.track d).stop0, (s.track d).stop, (s.track d).ng, ?_⟩⟩
  · by_cases hde : d = e
    · subst hde
      cases d
      · exact ⟨s.l.pad, true, true, true, rfl⟩
      · exact ⟨s.r.pad, true, s.r.stop, true, rfl⟩
    · refine ⟨(s.track d).pad, (s.track d).stop0, (s.track d).stop, (s.track d).ng, ?_⟩
      cases d <;> cases e <;> first | rfl | exact absurd rfl hde
  · cases d <;> rfl

/-- A row changes its own side. -/
theorem record_tracked (hpc : s.pc = .record e) : Tracked mem d s (record e s) := by
  have hpass : s.pc.pass ≠ .opening := by rw [hpc]; simp [Pc.pass]
  by_cases hde : d = e
  · subst hde
    refine Act.sat_iff.mpr ⟨by simp, by simp, fun t ht => .row hpc ?_⟩
    exact (Act.post_iff.mp record_cases).1 t ht
  · refine (record_sat fun _ _ => ⟨trivial, trivial⟩).mono ?_
    rintro t ⟨u, hu, ht⟩
    obtain ⟨w, dx, el, elementType, p, rfl⟩ := hu.frame
    refine .kept hpass ?_
    rcases ht with rfl | rfl <;> cases d <;> cases e <;> first | rfl | exact absurd rfl hde

/-- A column that is appended is stored in the table of its side. -/
theorem append_tracked (hpc : s.pc = .append e) : Tracked mem d s (append e s) := by
  have hpass : s.pc.pass ≠ .opening := by rw [hpc]; simp [Pc.pass]
  simp only [append, Act.sat_ite, Act.sat_touch, sat_setImg, Act.sat_goto]
  refine ⟨fun hy => ⟨trivial, ?_⟩, fun _ => .kept hpass (by cases d <;> rfl)⟩
  by_cases hde : d = e
  · subst hde
    exact .append hpc hy (by cases d <;> rfl)
  · exact .kept hpass (by cases d <;> cases e <;> first | rfl | exact absurd rfl hde)

/-- A row of a crossing stores what its scan has found. -/
theorem crossRecord_tracked (hpc : s.pc = .crossRecord e) :
    Tracked mem d s (crossRecord e s) := by
  have hpass : s.pc.pass ≠ .opening := by rw [hpc]; simp [Pc.pass]
  have hstored : ∀ u : State, (u.track d).still = ((s.setXs e s.y (s.track e).x).track d).still →
      TrackStep d s u := by
    intro u hu
    by_cases hde : d = e
    · subst hde
      exact .cross hpc (hu.trans (by cases d <;> rfl))
    · exact .kept hpass (hu.trans (by cases d <;> cases e <;> first | rfl | exact absurd rfl hde))
  simp only [crossRecord, Act.sat_touch]
  refine ⟨trivial, ?_⟩
  cases e
  · simp only [sat_setImg, Act.sat_goto]
    exact hstored _ (by cases d <;> rfl)
  · simp only [Act.sat_ite, sat_setImg, Act.sat_goto]
    exact ⟨fun _ => hstored _ (by cases d <;> rfl), fun _ => hstored _ (by cases d <;> rfl)⟩

/-- The end of a crossing sets slopes. -/
theorem crossEnd_tracked (hpc : s.pc = .crossEnd) : Tracked mem d s (crossEnd s) := by
  have hpass : s.pc.pass ≠ .opening := by rw [hpc]; simp [Pc.pass]
  simp only [crossEnd, crossExit, crossSlope, Act.sat_ite, Act.sat_touch, Act.sat_goto]
  refine ⟨fun _ => .kept hpass (by cases d <;> rfl),
    fun _ => ⟨trivial, trivial, trivial, trivial, ?_⟩⟩
  cases d
  · exact .crossSlope hpc _ rfl
  · exact .crossSlope hpc _ rfl

/-- Each stretch of code changes each side in one of these ways. -/
theorem code_tracked : Tracked mem d s (code enableLoop s) := by
  by_cases hsettles : Settles s.pc
  · unfold code
    cases hpc : s.pc with
    | entry =>
      simp only [entry, sat_px, Act.sat_ite, Act.sat_goto]
      exact ⟨trivial, fun _ => .still (fun _ => rfl) (by cases d <;> rfl),
        fun _ => .locals (by rw [hpc]; rfl) (by cases d <;> rfl)⟩
    | zebra => exact zebra_tracked hpc
    | bottomTest => exact bottomTest_tracked hpc
    | bottomFound => exact bottomFound_tracked hpc
    | edge e => exact edge_tracked hpc
    | normalBound =>
      simp only [normalBound, Act.sat_goto]
      exact .reset hpc (by cases d <;> rfl)
    | record e => exact record_tracked hpc
    | append e => exact append_tracked hpc
    | crossRecord e => exact crossRecord_tracked hpc
    | crossEnd => exact crossEnd_tracked hpc
    | _ => simp [hpc] at hsettles
  · refine (code_still hsettles).mono fun t ht => .still (fun h => ?_) ?_
    · rcases Pc.pass_opening.mp h with hpc | hpc <;> simp [hpc] at hsettles
    · cases d
      · exact ht.1
      · exact ht.2

/-- What a step does to a side. -/
theorem track_step (ht : (code enableLoop s).next mem = some t) (d : Side) : TrackStep d s t :=
  Act.Sat.next code_tracked ht

/-- The same, where a row is recorded. -/
theorem record_rowCase (hpc : s.pc = .record d) (ht : (code enableLoop s).next mem = some t) :
    RowCase d s t := by
  rw [code, hpc] at ht
  exact (Act.post_iff.mp record_cases).1 t ht

end SmartCar.MtImage

import SmartCar.MtImage.Invariant

/-!
# mt_image: one row of the midline

`midline` gives a row its middle and its width, in five ways. `Measured` is what
they have in common; `midline_sat` and `midline_next` are its laws, and `midRow_next`
is the step of the loop.
-/

namespace SmartCar.MtImage

open CInt

variable {mem : Cell → UInt8} {R : Cell → Prop} {U : Entry → Prop} {Q : State → Prop}
variable {s : State} {k : State → Go}

/-- The width of row `y`: the distance of the two columns, the standard width if one
of them is missing, the width of the row before if both are. -/
def rowWidth (s : State) : ℤ :=
  if s.l.xs s.y ≠ 0 ∧ s.r.xs s.y ≠ 0 then i16 (s.r.xs s.y - s.l.xs s.y)
  else if s.l.xs s.y = 0 ∧ s.r.xs s.y = 0 then s.dx
  else i16 (trunc (s.kw * stdWidth s.y))

/-- `v` is `s` with the middle and the width of its row. -/
structure Measured (s v : State) : Prop where
  frame : ∃ xl xr dx xm dxm bothCount, v = { s with
    l := { s.l with x := xl }, r := { s.r with x := xr }
    dx := dx, xm := xm, dxm := dxm, bothCount := bothCount }
  dx : v.dx = rowWidth s

/-- A row with one column: `s'` is `s` after the columns of the row have been read. -/
theorem midOneSided_cases (P : Go → Prop) {xl xr x sign : ℤ}
    (htouch : ∀ a, P a → P (.touch (.stdWidth s.y) a)) (hk : ∀ v, Measured s v → P (k v))
    (hboth : ¬ (s.l.xs s.y ≠ 0 ∧ s.r.xs s.y ≠ 0)) (hnone : ¬ (s.l.xs s.y = 0 ∧ s.r.xs s.y = 0)) :
    P (midOneSided x sign { s with l := { s.l with x := xl }, r := { s.r with x := xr } } k) := by
  refine htouch _ ?_
  dsimp only
  split
  all_goals
    refine hk _ ⟨⟨_, _, _, _, _, _, rfl⟩, ?_⟩
    simp only [rowWidth, hboth, hnone, if_false]

/-- The branches of `midline`, for any property of what it does. -/
theorem midline_cases (P : Go → Prop)
    (htouch : ∀ e a, e = .xls s.y ∨ e = .xrs s.y ∨ e = .stdWidth s.y → P a → P (.touch e a))
    (hk : ∀ v, Measured s v → P (k v)) : P (midline s k) := by
  refine htouch _ _ (.inl rfl) (htouch _ _ (.inr (.inl rfl)) ?_)
  have hstd : ∀ a, P a → P (.touch (.stdWidth s.y) a) := fun a => htouch _ a (.inr (.inr rfl))
  dsimp only [State.setX, State.setTrack, State.track]
  by_cases hl : s.l.xs s.y = 0 <;> by_cases hr : s.r.xs s.y = 0 <;>
    simp only [hl, hr, ne_eq, not_true_eq_false, not_false_eq_true, and_self, and_false, and_true,
      true_or, if_true, if_false]
  · -- both columns are missing
    refine hk _ ⟨⟨_, _, _, _, _, _, rfl⟩, ?_⟩
    simp [rowWidth, hl, hr]
  · exact midOneSided_cases P hstd hk (by simp [hl]) (by simp [hr])
  · -- on the left loop the missing right column is taken for the border
    split
    all_goals exact midOneSided_cases P hstd hk (by simp [hr]) (by simp [hl])
  · -- both columns are there
    refine hk _ ⟨⟨_, _, _, _, _, _, rfl⟩, ?_⟩
    simp [rowWidth, hl, hr]

theorem midline_sat (hU : U (.xls s.y) ∧ U (.xrs s.y) ∧ U (.stdWidth s.y))
    (hk : ∀ v, Measured s v → (k v).Sat mem R U Q) : (midline s k).Sat mem R U Q := by
  refine midline_cases (Act.Sat mem R U Q) (fun e a he ha => ⟨?_, ha⟩) hk
  rcases he with rfl | rfl | rfl
  · exact hU.1
  · exact hU.2.1
  · exact hU.2.2

theorem midline_next (mem : Cell → UInt8) (s : State) (k : State → Go) :
    ∃ v, Measured s v ∧ (midline s k).next mem = (k v).next mem :=
  midline_cases (fun a => ∃ v, Measured s v ∧ a.next mem = (k v).next mem)
    (fun _ _ _ ha => ha) fun v hv => ⟨v, hv, rfl⟩

/-! ## One row -/

/-- `s'` comes after `s` when a row is done. -/
structure RowDone (s s' : State) : Prop where
  pc : s'.pc = .midRow
  lxs : s'.l.xs = s.l.xs
  rxs : s'.r.xs = s.r.xs
  yStart : s'.yStart = s.yStart
  kw : s'.kw = s.kw
  y : s'.y = u8 (s.y - 1)
  dx : s'.dx = rowWidth s
  sw : s'.sw = u16 (s.sw + s'.dx)
  so : s'.so = s.so + ((s'.xm - xMid) * s'.dx : ℤ)

/-- The loop goes on with the next row up. -/
theorem midRow_next (enableLoop : Bool) (mem : Cell → UInt8) (hpc : s.pc = .midRow)
    (hge : s.y ≥ s.yStart) :
    ∃ s', (code enableLoop s).next mem = some s' ∧ RowDone s s' := by
  rcases midline_next mem s
    (fun s => setImg s.xm s.y MID_LINE <| .goto { s with
      so := s.so + ((s.xm - xMid) * s.dx : ℤ), sw := u16 (s.sw + s.dx), y := u8 (s.y - 1) }) with
    ⟨v, hv, hnext⟩
  have hdx := hv.dx
  rcases hv.frame with ⟨xl, xr, dx, xm, dxm, bothCount, rfl⟩
  simp only [code, hpc, midRow, hge, if_true]
  rw [hnext]
  exact ⟨_, rfl, ⟨hpc, rfl, rfl, rfl, rfl, rfl, hdx, rfl, rfl⟩⟩

end SmartCar.MtImage

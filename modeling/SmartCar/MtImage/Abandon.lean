import SmartCar.MtImage.Locals

/-!
# mt_image: giving up a loop or a cross pass

`loop_cancel` and `cross_exit` go back to `normal_bound`. `NoTrace` says that the rest of
the search leaves what it would leave if it began `normal_bound` in the state after the
bottom stage; `Untouched` is what has to be as it was there.

* `restarted_same`: the two passes begin with the same variables;
* `noTrace_of_untouched` is the law.
-/

namespace SmartCar.MtImage

variable {enableLoop : Bool} {mem : Cell → UInt8} {a c d s t u : State}

/-! ## Law and condition -/

/-- The search that begins in `a` gives up a pass in `c` and goes on in `t`; `d` is the
state after the bottom stage. -/
structure GivesUp (enableLoop : Bool) (mem : Cell → UInt8) (a d c t : State) : Prop where
  bottom : Goto.Visits (code enableLoop) mem a d
  bottom_pc : d.pc = .dispatch
  visits : Goto.Visits (code enableLoop) mem a c
  pc : c.pc = .loopCancel ∨ c.pc = .topNext ∨ c.pc = .crossEnd
  next : (code enableLoop c).next mem = some t
  normalBound : t.pc = .normalBound

/-- `normal_bound` in the state after the bottom stage, with the `prev_el_normal` that it
has in the search. -/
def restarted (d t : State) : State :=
  { d with
    pc := .normalBound, el := .normal, elementType := .normal, prevElNormal := t.prevElNormal }

/-- The rest of the search, which leaves `u`, does as the pass that begins anew. -/
def NoTrace (enableLoop : Bool) (mem : Cell → UInt8) (d t u : State) : Prop :=
  ∃ v, Goto.Halts (code enableLoop) mem (restarted d t) v ∧ SameResult u v

/-- A side is as the bottom stage has left it, as far as `normal_bound` does not reset it:
its columns, its flags and counters, and, if it is still followed, its cursor. -/
structure SideUntouched (u v : Track) : Prop where
  xs : ∀ i, 0 ≤ i → i < 120 → v.xs i = u.xs i
  pad : v.pad = u.pad
  stop0 : v.stop0 = u.stop0
  stop : v.stop = u.stop
  ngCount : v.ngCount = u.ngCount
  followed : u.stop = false →
    v.x = u.x ∧ v.cont = u.cont ∧ v.dx = u.dx ∧ v.gCount = u.gCount ∧ v.ng = u.ng

/-- Both sides are as the bottom stage has left them. -/
def Untouched (d t : State) : Prop := SideUntouched d.l t.l ∧ SideUntouched d.r t.r

/-! ## The two passes -/

theorem SideUntouched.memory {u v : Track} (h : SideUntouched u v) :
    TableEq v.xs u.xs ∧ MemoryEq v u ∧ CursorEq v u ∧ u.pad = v.pad := by
  have hfollowed : v.stop = false →
      v.x = u.x ∧ v.cont = u.cont ∧ v.dx = u.dx ∧ v.gCount = u.gCount ∧ v.ng = u.ng := by
    rw [h.stop]
    exact h.followed
  refine ⟨fun i hi hi' => (h.xs i hi hi').symm, ?_, fun hstop => ?_, h.pad.symm⟩
  · simp +contextual [h.stop0, h.stop, h.ngCount, hfollowed]
  · exact (hfollowed hstop).1.symm

/-- `xm` is not assigned before the midline. -/
theorem xm_kept (ha : Start a) (hs : Goto.Visits (code enableLoop) mem a s)
    (hpc : s.pc ≠ .midRow) : s.xm = a.xm := by
  have hsame : Same a a a a := ⟨rfl, rfl, ⟨rfl, rfl⟩, by simp [ha.pc]⟩
  rcases visits_twin hsame ha.inv hs with ⟨t, -, h | h⟩
  · exact h.xm.1
  · exact absurd h.1 hpc

/-- The pass that is begun again is that of a normal track. -/
theorem GivesUp.normal (h : GivesUp enableLoop mem a d c t) :
    t.el = .normal ∧ t.elementType = .normal := by
  have hsat : Leads mem (fun t => t.pc = .normalBound → t.el = .normal ∧ t.elementType = .normal)
      (code enableLoop c) := by
    rcases h.pc with hc | hc | hc
    · simp [code, hc, loopCancel]
    · simp [code, hc, topNext, crossExit]
    · simp [code, hc, crossEnd, crossExit, crossSlope]
  exact hsat.next h.next h.normalBound

/-- What holds from the `normal_bound` of a normal track on. -/
@[simp] def Normal (p : Pc) (s : State) : Prop :=
  match p with
  | .row | .side _ | .inward _ | .outward _ | .exitProbe _ | .exitColumn _ | .exitDown _
  | .exitUp _ | .exitClimb _ | .record _ | .normalEnd | .analyze => s.el ≤ .normal
  | .append _ | .mid | .midRow => True
  | _ => False

theorem code_normal (h : Normal s.pc s) :
    Leads mem (fun t => Normal t.pc t) (code enableLoop s) := by
  unfold code
  cases hpc : s.pc with
  | row => simp [hpc] at h; simp [row, h]
  | side d =>
    simp [hpc] at h
    simp only [side, sideEnd_eq, Act.sat_ite, Act.sat_goto]
    cases d <;> simp [afterSide, h]
  | inward d =>
    simp [hpc] at h
    simp only [inward, inwardEnd, sat_px, Act.sat_ite, Act.sat_goto]
    cases d <;> simp [hpc, h]
  | outward d => simp [hpc] at h; cases d <;> simp [outward, hpc, h]
  | exitProbe d => simp [hpc] at h; cases d <;> simp [exitProbe, invLost, h]
  | exitColumn d => simp [hpc] at h; cases d <;> simp [exitColumn, appendStart, h]
  | exitDown d => simp [hpc] at h; cases d <;> simp [exitDown, loopExitLost, invLost, hpc, h]
  | exitUp d => simp [hpc] at h; cases d <;> simp [exitUp, exitNext, loopExitLost, invLost, h]
  | exitClimb d =>
    simp [hpc] at h
    cases d <;> simp [exitClimb, exitNext, loopExitLost, invLost, hpc, h]
  | record d =>
    simp [hpc] at h
    refine (record_sat fun _ _ => ⟨trivial, trivial⟩).mono ?_
    rintro t ⟨u, hu, ht⟩
    have hel := hu.el h
    rcases ht with rfl | rfl
    · exact hel
    · cases d <;> exact hel
  | normalEnd => simp [hpc] at h; simp [normalEnd, h]
  | analyze =>
    -- neither a loop nor a crossing is announced twice in a frame
    simp [hpc] at h
    have hne : s.el ≠ .loopLeftBefore2 ∧ s.el ≠ .loopRightBefore2 := by
      constructor <;> rintro hel <;> rw [hel] at h <;> exact absurd h (by decide)
    simp [analyze, h, hne]
  | append d => cases d <;> simp [append, hpc]
  | mid => simp [mid]
  | midRow => simp [midRow, midline, midOneSided, hpc]
  | _ => simp [hpc] at h

/-- It is the last `normal_bound` of the search. -/
theorem GivesUp.last (h : GivesUp enableLoop mem a d c t)
    (hs : Goto.Visits (code enableLoop) mem t s) (hpc : s.pc = .normalBound) : s = t := by
  rcases hs.cases_head with hst | ⟨t', hnext, hrun⟩
  · exact hst
  · have ht' : Normal t'.pc t' := by
      have hel : t.el ≤ .normal := by rw [h.normal.1]; decide
      have hsat : Leads mem (fun t => Normal t.pc t) (code enableLoop t) := by
        simp [code, h.normalBound, MtImage.normalBound, hel]
      exact hsat.next hnext
    have hnormal := Goto.visits_induction (fun s => Normal s.pc s) ht'
      (fun _ _ _ hi hnext => (code_normal hi).next hnext) s hrun
    simp [hpc] at hnormal

theorem GivesUp.visits_t (h : GivesUp enableLoop mem a d c t) :
    Goto.Visits (code enableLoop) mem a t := h.visits.step h.next

/-- The two passes begin with the same variables. -/
theorem restarted_same (ha : Start a) (h : GivesUp enableLoop mem a d c t)
    (hd : Untouched d t) : Same t t t (restarted d t) := by
  obtain ⟨hel, het⟩ := h.normal
  obtain ⟨hxl, hml, hcl, hpl⟩ := hd.1.memory
  obtain ⟨hxr, hmr, hcr, hpr⟩ := hd.2.memory
  have hxm : d.xm = t.xm := by
    rw [xm_kept ha h.bottom (by simp [h.bottom_pc]),
      xm_kept ha h.visits_t (by simp [h.normalBound])]
  have hkw : d.kw = t.kw := by
    rw [(inv_visits ha.inv h.bottom).kw (by simp [h.bottom_pc]) (by simp [h.bottom_pc]),
      (inv_visits ha.inv h.visits_t).kw (by simp [h.normalBound]) (by simp [h.normalBound])]
  refine ⟨h.normalBound.symm, het.symm, ⟨rfl, hxm⟩, ?_⟩
  rw [h.normalBound]
  exact ⟨⟨⟨hel.symm, rfl⟩, hkw, ⟨hxl, hxr⟩, hml, hmr, hpl, hpr⟩, hcl, hcr⟩

theorem noTrace_of_untouched (ha : Start a) (h : GivesUp enableLoop mem a d c t)
    (hu : Goto.Halts (code enableLoop) mem a u) (hd : Untouched d t) :
    NoTrace enableLoop mem d t u := by
  have hends : Goto.Ends (code enableLoop) mem a := Goto.ends_iff_halts.mpr ⟨u, hu⟩
  refine (restarted_same ha h hd).halts (inv_visits ha.inv h.visits_t) (hu.of_visits h.visits_t)
    (fun m hm => yStart_pos ha hends (h.visits_t.trans hm)) fun m n _ _ hmn hmid => ?_
  have hlive := hmn.live hmid
  simp at hlive
  exact .inr (.inr ⟨by omega, by simp [hlive]⟩)

/-! ## The law -/

/-- A pass that is given up leaves no trace if it has left everything as it was. -/
theorem givesUp_noTrace (image : Image) (beyond : ℤ → UInt8) (enableLoop : Bool)
    (a c d t u : State) (ha : Start a)
    (h : GivesUp enableLoop (memory image beyond) a d c t)
    (hu : Goto.Halts (code enableLoop) (memory image beyond) a u) (hd : Untouched d t) :
    NoTrace enableLoop (memory image beyond) d t u :=
  noTrace_of_untouched ha h hu hd

/-- A straight track with another road along the left edge of the image. -/
def roadBeside : Image := fun _ x => decide (x ≤ 1 ∨ 85 ≤ x ∧ x ≤ 101)

/-- The state after `n` jumps, from a frame of a loop. -/
def runTo (image : Image) (n : ℕ) : State :=
  (Goto.after (code false) (memory image fun _ => EMPTY) n (called .loopLeft)).getD
    (called .loopLeft)

theorem runTo_after {image : Image} {n : ℕ}
    (h : (Goto.after (code false) (memory image fun _ => EMPTY) n (called .loopLeft)).isSome) :
    Goto.after (code false) (memory image fun _ => EMPTY) n (called .loopLeft) =
      some (runTo image n) := by
  obtain ⟨s, hs⟩ := Option.isSome_iff_exists.mp h
  rw [runTo, hs]
  rfl

theorem runTo_next {image : Image} {n : ℕ}
    (h : (Goto.after (code false) (memory image fun _ => EMPTY) (n + 1)
      (called .loopLeft)).isSome) :
    (code false (runTo image n)).next (memory image fun _ => EMPTY) =
      some (runTo image (n + 1)) := by
  have hsucc := runTo_after h
  rw [Goto.after_add] at hsucc
  cases hn : Goto.after (code false) (memory image fun _ => EMPTY) n (called .loopLeft) with
  | none => simp [hn] at hsucc
  | some s =>
    have hs : runTo image n = s := by rw [runTo, hn]; rfl
    rw [hn] at hsucc
    rw [hs]
    cases hnext : (code false s).next (memory image fun _ => EMPTY) with
    | none => simp [Goto.after, hnext] at hsucc
    | some s' => simpa [Goto.after, hnext] using hsucc

/-- A run in which the bottom stage ends with the `m`-th label and `loop_cancel` is the
`n`-th. -/
theorem givesUp_runTo {image : Image} {m n : ℕ} (hle : m ≤ n)
    (hsome : (Goto.after (code false) (memory image fun _ => EMPTY) (n + 1)
      (called .loopLeft)).isSome)
    (hpc : (runTo image m).pc = .dispatch ∧ (runTo image n).pc = .loopCancel ∧
      (runTo image (n + 1)).pc = .normalBound) :
    GivesUp false (memory image fun _ => EMPTY) (called .loopLeft) (runTo image m)
      (runTo image n) (runTo image (n + 1)) where
  bottom := ⟨m, runTo_after (Goto.after_isSome (by omega) hsome)⟩
  bottom_pc := hpc.1
  visits := ⟨n, runTo_after (Goto.after_isSome (by omega) hsome)⟩
  pc := .inl hpc.2.1
  next := runTo_next hsome
  normalBound := hpc.2.2

/-- The state that a run which has got to the last row of the midline halts in. -/
theorem halts_runTo (image : Image) (n : ℕ)
    (hsome : (Goto.after (code false) (memory image fun _ => EMPTY) n (called .loopLeft)).isSome)
    (hpc : (runTo image n).pc = .midRow ∧ (runTo image n).y < (runTo image n).yStart) :
    ∃ u, Goto.Halts (code false) (memory image fun _ => EMPTY) (called .loopLeft) u ∧
      u.offset = .quot (runTo image n).so (runTo image n).sw := by
  obtain ⟨u, hu, hoffset⟩ : ∃ u,
      (code false (runTo image n)).final (memory image fun _ => EMPTY) = some u ∧
        u.offset = .quot (runTo image n).so (runTo image n).sw := (midRow_final hpc.1 hpc.2).2
  exact ⟨u, ⟨_, ⟨n, runTo_after hsome⟩, hu⟩, hoffset⟩

theorem tableEq_of_rows {f g : ℤ → ℤ} (h : ∀ i : Fin 120, g i = f i) : TableEq f g := by
  intro i hi hi'
  have hrow := h ⟨i.toNat, by omega⟩
  rwa [show ((⟨i.toNat, _⟩ : Fin 120) : ℤ) = i from Int.toNat_of_nonneg hi] at hrow

/-- The fields of a side that `SideUntouched` is about, but for its columns. -/
def SideFixed (u v : Track) : Prop :=
  v.pad = u.pad ∧ v.stop0 = u.stop0 ∧ v.stop = u.stop ∧ v.ngCount = u.ngCount ∧ v.x = u.x ∧
    v.cont = u.cont ∧ v.dx = u.dx ∧ v.gCount = u.gCount ∧ v.ng = u.ng

instance (u v : Track) : Decidable (SideFixed u v) := inferInstanceAs (Decidable (_ ∧ _))

theorem sideUntouched_of_fixed {u v : Track} (h : SideFixed u v)
    (hxs : ∀ i : Fin 120, v.xs i = u.xs i) : SideUntouched u v :=
  ⟨tableEq_of_rows hxs, h.1, h.2.1, h.2.2.1, h.2.2.2.1, fun _ => h.2.2.2.2⟩

/-- The loop is cancelled before anything has been changed. -/
theorem roadBeside_noTrace :
    Start (called .loopLeft) ∧ ∃ c d t u,
      GivesUp false (memory roadBeside fun _ => EMPTY) (called .loopLeft) d c t ∧
      Goto.Halts (code false) (memory roadBeside fun _ => EMPTY) (called .loopLeft) u ∧
      Untouched d t ∧ NoTrace false (memory roadBeside fun _ => EMPTY) d t u := by
  have hstart : Start (called .loopLeft) := start_called (by decide)
  obtain ⟨hsome, hpc⟩ :
      (Goto.after (code false) (memory roadBeside fun _ => EMPTY) 933
        (called .loopLeft)).isSome ∧
      (runTo roadBeside 933).pc = .midRow ∧
        (runTo roadBeside 933).y < (runTo roadBeside 933).yStart := by
    decide +kernel
  obtain ⟨u, hu, -⟩ := halts_runTo roadBeside 933 hsome hpc
  have hgives : GivesUp false (memory roadBeside fun _ => EMPTY) (called .loopLeft)
      (runTo roadBeside 22) (runTo roadBeside 115) (runTo roadBeside 116) :=
    givesUp_runTo (by decide) (Goto.after_isSome (by decide) hsome) (by decide +kernel)
  have huntouched : Untouched (runTo roadBeside 22) (runTo roadBeside 116) := by
    obtain ⟨⟨hl, hlxs⟩, hr, hrxs⟩ :
        (SideFixed (runTo roadBeside 22).l (runTo roadBeside 116).l ∧
          ∀ i : Fin 120, (runTo roadBeside 116).l.xs i = (runTo roadBeside 22).l.xs i) ∧
        SideFixed (runTo roadBeside 22).r (runTo roadBeside 116).r ∧
          ∀ i : Fin 120, (runTo roadBeside 116).r.xs i = (runTo roadBeside 22).r.xs i := by
      decide +kernel
    exact ⟨sideUntouched_of_fixed hl hlxs, sideUntouched_of_fixed hr hrxs⟩
  exact ⟨hstart, _, _, _, u, hgives, hu, huntouched,
    givesUp_noTrace roadBeside (fun _ => EMPTY) false _ _ _ _ u hstart hgives hu huntouched⟩

/-- A straight track with stairs in the lower left corner of the image. -/
def stairsBeside : Image := fun y x =>
  decide (x = 0 ∨ 85 ≤ x ∧ x ≤ 101 ∨ 1 ≤ x ∧ x ≤ 4 ∧ 101 ≤ (y : ℕ) + x)

/-- The stairs are taken for a corner in column 4, which is too far to the left; from there
the normal pass looks for the left border. -/
theorem stairsBeside_trace :
    Start (called .loopLeft) ∧ ∃ c d t u,
      GivesUp false (memory stairsBeside fun _ => EMPTY) (called .loopLeft) d c t ∧
      Goto.Halts (code false) (memory stairsBeside fun _ => EMPTY) (called .loopLeft) u ∧
      ¬ NoTrace false (memory stairsBeside fun _ => EMPTY) d t u := by
  have hstart : Start (called .loopLeft) := start_called (by decide)
  obtain ⟨hsome, hpc, hso, hsw⟩ :
      (Goto.after (code false) (memory stairsBeside fun _ => EMPTY) 1091
        (called .loopLeft)).isSome ∧
      ((runTo stairsBeside 1091).pc = .midRow ∧
        (runTo stairsBeside 1091).y < (runTo stairsBeside 1091).yStart) ∧
      (runTo stairsBeside 1091).so = -188951 ∧ (runTo stairsBeside 1091).sw = 5497 := by
    decide +kernel
  obtain ⟨u, hu, hou⟩ := halts_runTo stairsBeside 1091 hsome hpc
  have hgives : GivesUp false (memory stairsBeside fun _ => EMPTY) (called .loopLeft)
      (runTo stairsBeside 22) (runTo stairsBeside 52) (runTo stairsBeside 53) :=
    givesUp_runTo (by decide) (Goto.after_isSome (by decide) hsome) (by decide +kernel)
  refine ⟨hstart, _, _, _, u, hgives, hu, ?_⟩
  rintro ⟨v, hv, -, hoffset⟩
  rcases Goto.exists_visits (code false) (memory stairsBeside fun _ => EMPTY)
    (restarted (runTo stairsBeside 22) (runTo stairsBeside 53)) 817
    (fun f => decide (f.pc = .midRow ∧ f.y < f.yStart ∧ f.so = 0 ∧ f.sw = 1328))
    (by decide +kernel) with ⟨f, hf, hcheck⟩
  rcases of_decide_eq_true hcheck with ⟨hpc', hlt, hso', hsw'⟩
  obtain ⟨v', hv', hov⟩ : ∃ v, (code false f).final (memory stairsBeside fun _ => EMPTY) = some v ∧
      v.offset = .quot f.so f.sw := (midRow_final hpc' hlt).2
  obtain rfl : v = v' := hv.unique ⟨f, hf, hv'⟩
  rw [hov, hou, hso, hsw, hso', hsw'] at hoffset
  simp [F64.quot] at hoffset
  norm_num at hoffset

end SmartCar.MtImage

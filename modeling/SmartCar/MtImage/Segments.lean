import SmartCar.MtImage.Debounce
import SmartCar.MtImage.Extrapolation

/-!
# mt_image: the segments of a pass

What the rows of a normal pass are to a side, as a list, and the counters of the side as what the
debounce makes of that list.

* `record_counts`: what the recording of a row does to the counters;
* `Rows` lists the rows of a pass so far, `rows_counters` says that the counters are those of the
  list, and `rows_length` that there are no more rows than the image has below the horizon;
* `segs_debounced` is the law.
-/

namespace SmartCar.MtImage

open CInt Events

variable {mem : Cell → UInt8} {enableLoop : Bool} {s t u : State} {d : Side} {c : Counters}
  {rows : List Row} {y : ℤ}

/-! ## The row that is recorded -/

/-- The row is done, and the counters of side `d` are `c`. -/
def DoneWith (d : Side) (c : Counters) (t : State) : Prop :=
  (t.track d).counters = c ∧ t.pc ≠ .normalEnd

theorem sideEnd_counts (h : (u.track d).counters = c) :
    Jumps mem (DoneWith d c) (sideEnd d u) := by
  rw [sideEnd_eq]
  cases d
  · exact ⟨h, by simp [afterSide]⟩
  · exact ⟨h, by simp [afterSide]⟩

theorem good_counts (h : (u.track d).counters = c) :
    Jumps mem (DoneWith d (goodRow u8 c)) (good d u) := by
  subst h
  unfold good
  apply sideEnd_counts
  unfold goodRow Track.counters
  by_cases hng : (u.track d).ng = true
  · rw [if_pos hng, if_pos hng, track_of_setTrack]
  · rw [if_neg hng, if_neg hng]

theorem noGood_counts (h : (u.track d).counters = c) :
    Jumps mem (DoneWith d (noGoodRow u8 c)) (noGood d u) := by
  subst h
  unfold noGood
  apply sideEnd_counts
  rw [track_of_setTrack]
  unfold noGoodRow
  dsimp only [Track.counters]
  split <;> rfl

theorem debounce_counts (h : (u.track d).counters = c) (hy : u.y = y) :
    Jumps mem (DoneWith d (recordedRow u8 y c)) (debounce d u) := by
  have hng : (u.track d).ngCount = c.ngCount := congrArg Counters.ngCount h
  have hg : (u.track d).gCount = c.gCount := congrArg Counters.gCount h
  simp only [debounce, Act.post_ite, hng, hg, hy, recordedRow]
  refine ⟨fun hcount => ⟨fun hstrict => ?_, fun hstrict => ?_⟩,
    fun hcount => ⟨fun hgood => ⟨fun hzero => ?_, fun hzero => ?_⟩, fun hgood => ?_⟩⟩
  · rw [if_pos hcount, if_pos hstrict]
    exact sideEnd_counts (by rw [track_of_setTrack, ← h]; rfl)
  · rw [if_pos hcount, if_neg hstrict]
    exact good_counts (by rw [track_of_setTrack, ← h]; rfl)
  · rw [if_neg hcount, if_pos hgood, if_pos hzero]
    exact good_counts (by rw [track_of_setTrack, ← h]; rfl)
  · rw [if_neg hcount, if_pos hgood, if_neg hzero]
    exact sideEnd_counts (by rw [track_of_setTrack, ← h]; rfl)
  · rw [if_neg hcount, if_neg hgood]
    exact sideEnd_counts h

/-- A row with a column, from `dx = xl - xls[y + 1];` on: a curve leaves the pass before the
debounce. -/
theorem convexity_counts (h : (u.track d).counters = c) (hy : u.y = y) :
    Jumps mem (fun t => DoneWith d (recordedRow u8 y c) t ∨
      ((t.track d).counters = c ∧ t.pc = .normalEnd)) (convexity d u) := by
  have hcount : ∀ dx v, (countRow dx v).counters = v.counters := by
    intro dx v
    unfold countRow
    dsimp only
    split <;> rfl
  obtain ⟨dx, hdx⟩ : ∃ dx, dx = i16 (d.sgn * ((u.track d).x - (u.track d).xs (u.y + 1))) :=
    ⟨_, rfl⟩
  simp only [convexity, Act.post_touch, Act.post_ite, Act.post_goto, ← hdx]
  refine ⟨fun _ => .inr ⟨?_, trivial⟩, fun _ => ?_⟩
  · rw [← h, ← hcount dx (u.track d)]
    cases d <;> rfl
  · refine (debounce_counts ?_ ?_).mono (fun t ht => .inl ht) fun _ => id
    · rw [track_of_setTrack, secondLoop_same_track, ← h, ← hcount dx (u.track d)]
      cases d <;> rfl
    · rw [← hy]
      unfold secondLoop
      split <;> cases d <;> rfl

/-- The label at which it is decided what the row is to side `d`: a side that has been given up is
not looked for. -/
def Decides (d : Side) (s : State) : Prop :=
  s.pc = .record d ∨ (s.pc = .side d ∧ (s.track d).stop = true)

/-- What the row is to side `d`, where that is decided. -/
def outcome (d : Side) (s : State) : Outcome :=
  if s.pc = .side d then .neither
  else if (s.track d).x = d.edge then .bad
  else if s.lost then
    if s.el > .cross then .neither else if (s.track d).mSet then .bad else .neither
  else .recorded

/-- What the recording of a row does to the counters. -/
theorem record_counts (hpc : s.pc = .record d) : Jumps mem
    (fun t => DoneWith d (rowStep u8 (s.track d).counters ⟨s.y, outcome d s⟩) t ∨
      ((t.track d).counters = (s.track d).counters ∧ t.pc = .normalEnd)) (record d s) := by
  have hside : s.pc ≠ .side d := by simp [hpc]
  obtain ⟨hbased, hsloped⟩ := sloped_field (d := d) (s := s) Track.counters fun _ _ _ _ _ => rfl
  have hrow : ∀ {o : Outcome} {a : Go}, outcome d s = o →
      Jumps mem (DoneWith d (rowStep u8 (s.track d).counters ⟨s.y, o⟩)) a →
      Jumps mem (fun t => DoneWith d (rowStep u8 (s.track d).counters ⟨s.y, outcome d s⟩) t ∨
        ((t.track d).counters = (s.track d).counters ∧ t.pc = .normalEnd)) a := by
    rintro _ a rfl ha
    exact ha.mono (fun t ht => .inl ht) fun _ => id
  refine record_rule (fun hx => ?_) (fun hx hl hc => ?_) (fun hx hl hc hm => ?_)
    (fun hx hl hc hm => ?_) fun hx hl => ?_
  · -- at the border of the image
    refine hrow (o := .bad) (by rw [outcome, if_neg hside, if_pos hx]) (noGood_counts ?_)
    rw [track_of_setTrack]
    rfl
  · refine hrow (o := .neither)
      (by rw [outcome, if_neg hside, if_neg hx, if_pos hl, if_pos hc]) (sideEnd_counts ?_)
    rw [track_of_setTrack, rowStep, ← hbased]
    rfl
  · refine hrow (o := .bad)
      (by rw [outcome, if_neg hside, if_neg hx, if_pos hl, if_neg hc, if_pos hm])
      (noGood_counts ?_)
    rw [track_of_setTrack, ← hbased]
    rfl
  · refine hrow (o := .neither)
      (by rw [outcome, if_neg hside, if_neg hx, if_pos hl, if_neg hc, if_neg (by rw [hm]; decide)])
      (sideEnd_counts ?_)
    rw [track_of_setTrack, hbased, rowStep]
  · have hout : outcome d s = .recorded := by
      rw [outcome, if_neg hside, if_neg hx, if_neg (by simp [hl])]
    rw [hout]
    refine convexity_counts ?_ ?_
    · rw [track_of_setTrack, ← hsloped]
      rfl
    · cases d <;> rfl

/-! ## The rows of a pass -/

/-- The rows of the normal pass that begins in `s`, for side `d`, up to `t`. -/
inductive Rows (enableLoop : Bool) (mem : Cell → UInt8) (d : Side) (s : State) :
    List Row → State → Prop
  | start {t : State} (ht : (code enableLoop s).next mem = some t) : Rows enableLoop mem d s [] t
  | within {rows : List Row} {t u : State} (h : Rows enableLoop mem d s rows t)
      (ht : t.pc.Reset) (hnot : ¬ Decides d t) (hu : (code enableLoop t).next mem = some u) :
      Rows enableLoop mem d s rows u
  | row {rows : List Row} {t u : State} (h : Rows enableLoop mem d s rows t) (ht : Decides d t)
      (hu : (code enableLoop t).next mem = some u) (hpc : u.pc ≠ .normalEnd) :
      Rows enableLoop mem d s (rows ++ [⟨t.y, outcome d t⟩]) u
  /-- A curve: the pass is left in the middle of the row. -/
  | curve {rows : List Row} {t u : State} (h : Rows enableLoop mem d s rows t)
      (ht : Decides d t) (hu : (code enableLoop t).next mem = some u) (hpc : u.pc = .normalEnd) :
      Rows enableLoop mem d s rows u

theorem Rows.visits (h : Rows enableLoop mem d s rows t) :
    Goto.Visits (code enableLoop) mem s t := by
  induction h with
  | start ht => exact (Goto.Visits.refl s).step ht
  | within _ _ _ hu ih => exact ih.step hu
  | row _ _ hu _ ih => exact ih.step hu
  | curve _ _ hu _ ih => exact ih.step hu

/-- Each run of the pass has a list of rows. -/
theorem exists_rows (h : Goto.Via (code enableLoop) mem (fun u => u.pc.Reset) s t) :
    ∃ rows, Rows enableLoop mem d s rows t := by
  induction h with
  | next ht => exact ⟨[], .start ht⟩
  | @step t u _ ht hu ih =>
    obtain ⟨rows, hrows⟩ := ih
    by_cases hdec : Decides d t
    · by_cases hpc : u.pc = .normalEnd
      · exact ⟨rows, .curve hrows hdec hu hpc⟩
      · exact ⟨rows ++ [⟨t.y, outcome d t⟩], .row hrows hdec hu hpc⟩
    · exact ⟨rows, .within hrows ht hdec hu⟩

theorem Decides.reset (h : Decides d s) : s.pc.Reset := by
  rcases h with hpc | ⟨hpc, -⟩ <;> simp [hpc, Pc.Reset, Pc.pass]

/-- A row that is done is not the one that is decided. -/
theorem Decides.lt (hdec : Decides d s) (h : Done d s y) : s.y < y := by
  rcases hdec with hpc | ⟨hpc, -⟩
  · exact h.lt hpc
  · rcases h with hlt | ⟨-, hpast⟩
    · exact hlt
    · cases d <;> simp [hpc, Pc.Past, Pc.InRow] at hpast

/-- A side that has been given up is skipped. -/
theorem skip_next (hpc : s.pc = .side d) (hstop : (s.track d).stop = true)
    (ht : (code enableLoop s).next mem = some t) : t = afterSide d s := by
  simp only [code, hpc, side, hstop, if_true, sideEnd_eq, Act.next, Option.some.injEq] at ht
  exact ht.symm

/-- The row that is decided is done then. -/
theorem Decides.done (hi : Inv s) (hdec : Decides d s)
    (ht : (code enableLoop s).next mem = some t) : Done d t s.y := by
  rcases hdec with hpc | ⟨hpc, hstop⟩
  · exact done_record hi hpc ht
  · have hrange := y_of_reset hi (Decides.reset (.inr ⟨hpc, hstop⟩))
    rw [skip_next hpc hstop ht]
    cases d
    · exact .inr ⟨rfl, .inr ⟨rfl, .inl rfl⟩⟩
    · refine .inl ?_
      change u8 (s.y - 1) < s.y
      rw [u8_of_range (by omega)]
      omega

theorem Done.mono {y' : ℤ} (h : Done d s y) (hle : y ≤ y') : Done d s y' := by
  rcases h with hlt | ⟨heq, hpast⟩
  · exact .inl (by omega)
  · rcases hle.lt_or_eq with hlt | rfl
    · exact .inl (by omega)
    · exact .inr ⟨heq, hpast⟩

/-- The rows of a pass are those of the image from 118 up, one by one. -/
theorem rows_length (hpc : s.pc = .normalBound)
    (hi : ∀ t, Goto.Visits (code enableLoop) mem s t → Inv t)
    (h : Rows enableLoop mem d s rows t) :
    rows.length ≤ 81 ∧ (t.pc.Reset → Done d t (119 - rows.length)) := by
  induction h with
  | start ht =>
    have hfirst : Leads mem (fun t => t.y < 119) (code enableLoop s) := by
      simp only [code, hpc, normalBound, Act.sat_goto]
      decide
    exact ⟨by simp, fun _ => .inl (by simpa using hfirst.next ht)⟩
  | within hrows ht _ hu ih =>
    exact ⟨ih.1, fun hu' => done_step (hi _ hrows.visits) ht hu hu' (ih.2 ht)⟩
  | @row rows t u hrows hdec hu _ ih =>
    -- the row is above those that are done, and not above row 38
    have hinv := hi _ hrows.visits
    have hlt := hdec.lt (ih.2 hdec.reset)
    have hy : 38 ≤ t.y := by
      rcases hdec with hpc | ⟨hpc, -⟩
      · exact (hinv.at hpc).1
      · exact (hinv.at hpc).1
    rw [List.length_append, List.length_singleton]
    push_cast
    exact ⟨by omega, fun _ => (hdec.done hinv hu).mono (by omega)⟩
  | curve hrows hdec hu _ ih =>
    exact ⟨ih.1, fun hu' => done_step (hi _ hrows.visits) hdec.reset hu hu' (ih.2 hdec.reset)⟩

/-- The flags of side `d` are those of the declarations. -/
def Fresh (d : Side) (s : State) : Prop :=
  (s.track d).ngCount = 0 ∧ (s.track d).gCount = bdGCountMax ∧ (s.track d).ng = true

instance (d : Side) (s : State) : Decidable (Fresh d s) := inferInstanceAs (Decidable (_ ∧ _))

/-- The search for the bottom of the track does not reset the flag. -/
theorem ng_of_bottom (hpass : s.pc.pass = .bottom) (hng : (s.track d).ng = true) :
    Leads mem (fun t => (t.track d).ng = true) (code enableLoop s) := by
  by_cases hsettles : Settles s.pc
  · unfold code
    cases hpc : s.pc with
    | bottomTest =>
      simp only [bottomTest, bottomStore, Act.sat_ite, Act.sat_touch, Act.sat_goto]
      cases d <;> simp only [State.track] at hng <;> simp [hng]
    | bottomFound =>
      simp only [bottomFound, edgeLeft, edgeRight, Act.sat_touch, sat_setImg, Act.sat_ite,
        Act.sat_goto]
      cases d <;> simpa using hng
    | edge e =>
      -- a border that is road all along sets the flag
      have hdone : ∀ u : State, (u.track d).ng = true →
          Leads mem (fun t => (t.track d).ng = true) (edgeDone e u) := by
        intro u hu
        cases e <;> simp only [edgeDone, edgeRight, Act.sat_ite, Act.sat_goto] <;>
          cases d <;> simpa using hu
      simp only [edge, sat_px, Act.sat_ite, Act.sat_goto]
      refine ⟨trivial, fun _ => ⟨fun _ => hdone _ ?_, fun _ => ?_⟩, fun _ => hdone _ ?_⟩
      · cases d <;> cases e <;> first | rfl | exact hng
      · cases d <;> exact hng
      · cases d <;> exact hng
    | _ => simp [hpc, Pc.pass] at hpass hsettles
  · refine (code_still hsettles).mono fun t ht => ?_
    cases d
    · exact (congrArg Track.ng ht.1).trans hng
    · exact (congrArg Track.ng ht.2).trans hng

/-- Until the first normal pass begins, the flags are those of the declarations. -/
theorem before_first (ha : s.pc = .entry)
    (h : Goto.Via (code enableLoop) mem (fun u => u.pc ≠ .normalBound) s t) :
    ¬ t.pc.Reset ∧ (t.pc.pass = .opening ∨ Fresh d t) := by
  refine h.invariant (fun u => ¬ u.pc.Reset ∧ (u.pc.pass = .opening ∨ Fresh d u))
    (fun u hu => ?_) fun u v _ hnot ⟨hreset, hfresh⟩ hv => ?_
  · have hfirst : Leads mem (fun u => ¬ u.pc.Reset ∧ (u.pc.pass = .opening ∨ Fresh d u))
        (code enableLoop s) := by
      simp only [code, ha, entry, sat_px, Act.sat_ite, Act.sat_goto]
      refine ⟨trivial, fun _ => ⟨by simp [Pc.Reset, Pc.pass], .inl rfl⟩,
        fun _ => ⟨by simp [locals, Pc.Reset, Pc.pass], .inr ?_⟩⟩
      cases d <;> exact ⟨rfl, rfl, rfl⟩
    exact hfirst.next hu
  · refine ⟨fun hv' => ?_, ?_⟩
    · exact (Pc.reset_of_succs v.pc (next_succs hv) hv').elim hnot hreset
    · have hkept : ∀ {w : Track}, u.pc.pass ≠ .opening → Becomes d w v →
          w.ngCount = (u.track d).ngCount → w.gCount = (u.track d).gCount →
          w.ng = (u.track d).ng → Fresh d v := by
        intro w hpass hw hcount hg hng
        obtain ⟨hcount', hg', hng'⟩ := hfresh.resolve_left hpass
        refine ⟨?_, ?_, ?_⟩
        · rw [hw.field Track.ngCount fun _ => rfl, hcount, hcount']
        · rw [hw.field Track.gCount fun _ => rfl, hg, hg']
        · rw [hw.field Track.ng fun _ => rfl, hng, hng']
      cases track_step hv d with
      | still hopening hw =>
        by_cases hpass : u.pc.pass = .opening
        · exact .inl (hopening hpass)
        · exact .inr (hkept hpass hw rfl rfl rfl)
      | locals _ hw =>
        refine .inr ⟨?_, ?_, ?_⟩
        · rw [hw.field Track.ngCount fun _ => rfl, initTrack]
        · rw [hw.field Track.gCount fun _ => rfl, initTrack]
        · rw [hw.field Track.ng fun _ => rfl, initTrack]
      | bottom hpc _ _ hw => exact .inr (hkept (by simp [hpc, Pc.pass]) hw rfl rfl rfl)
      | flags hpass hw =>
        -- the flag that is set here is set already
        have hopening : u.pc.pass ≠ .opening := by simp [hpass]
        obtain ⟨hcount, hg, hng⟩ := hfresh.resolve_left hopening
        obtain ⟨pad, stop0, stop, ng, hw⟩ := hw
        refine .inr ⟨?_, ?_, (ng_of_bottom hpass hng).next hv⟩
        · rw [hw.field Track.ngCount fun _ => rfl, hcount]
        · rw [hw.field Track.gCount fun _ => rfl, hg]
      | reset hpc _ => exact absurd hpc hnot
      | row hpc _ => exact absurd (by simp [hpc, Pc.Reset, Pc.pass]) hreset
      | append hpc _ hw => exact .inr (hkept (by simp [hpc, Pc.pass]) hw rfl rfl rfl)
      | cross hpc hw => exact .inr (hkept (by simp [hpc, Pc.pass]) hw rfl rfl rfl)
      | crossSlope hpc m hw => exact .inr (hkept (by simp [hpc, Pc.pass]) hw rfl rfl rfl)

theorem fresh_of_first (ha : s.pc = .entry)
    (h : Goto.Via (code enableLoop) mem (fun u => u.pc ≠ .normalBound) s t)
    (hpc : t.pc = .normalBound) : Fresh d t :=
  (before_first ha h).2.resolve_left (by simp [hpc, Pc.pass])

/-- The counters of a side are what the debounce makes of the rows. -/
theorem rows_counters (hpc : s.pc = .normalBound) (hfresh : Fresh d s)
    (h : Rows enableLoop mem d s rows t) :
    (t.track d).counters = run (rowStep u8) Counters.initial rows := by
  induction h with
  | start ht =>
    have hfirst : Leads mem (fun t => (t.track d).counters = Counters.initial)
        (code enableLoop s) := by
      obtain ⟨hng, hg, hset⟩ := hfresh
      have hinit : Counters.initial =
          ⟨(s.track d).ngCount, (s.track d).gCount, (s.track d).ng, 0⟩ := by
        rw [hng, hg, hset]
        rfl
      simp only [code, hpc, normalBound, Act.sat_goto, hinit]
      cases d <;> rfl
    exact hfirst.next ht
  | within _ ht hnot hu ih =>
    -- nothing but the recording of a row changes the counters
    have hkept := becomes_of_reset ht (fun hpc => hnot (.inl hpc)) hu
    rw [hkept.field Track.counters fun _ => rfl, ih]
  | @row rows t u _ hdec hu hend ih =>
    rw [run_concat, ← ih]
    rcases hdec with hpc | ⟨hpc, hstop⟩
    · have hrow := (Act.post_iff.mp (record_counts hpc)).1 u (by rwa [code, hpc] at hu)
      exact (hrow.resolve_right fun h => hend h.2).1
    · have hout : outcome d t = .neither := if_pos hpc
      rw [skip_next hpc hstop hu, hout]
      cases d <;> rfl
  | @curve rows t u _ hdec hu hend ih =>
    rw [← ih]
    rcases hdec with hpc | ⟨hpc, hstop⟩
    · have hrow := (Act.post_iff.mp (record_counts hpc)).1 u (by rwa [code, hpc] at hu)
      exact (hrow.resolve_left fun h => h.2 hend).1
    · rw [skip_next hpc hstop hu] at hend
      cases d <;> simp [afterSide] at hend

/-! ## The law -/

/-- The segments of a side are debounced along `rows`:

* every row that is counted is one where the border was recorded;
* between two of them there are at least `BD_NG_COUNT_MAX` bad rows with no recorded one among or
  between them;
* the counters are those that would not wrap, at every row, and a segment costs four rows. -/
structure Debounced (rows : List Row) : Prop where
  onRecorded : Along (rowStep u8) Counters.initial
    (fun _ c row => Increments c row → row.outcome = .recorded) rows
  bridged : ∀ before row between row' after, rows = before ++ row :: (between ++ row' :: after) →
    Increments (run (rowStep u8) Counters.initial before) row →
    Increments (run (rowStep u8) Counters.initial (before ++ row :: between)) row' →
    Bridged between
  exact : ∀ before after, rows = before ++ after →
    run (rowStep u8) Counters.initial before = run (rowStep id) Counters.initial before
  few : 4 * (run (rowStep u8) Counters.initial rows).segs ≤ rows.length + 3

theorem Attains.segs_le {n : ℕ} (h : Attains n c) : 4 * c.segs ≤ n + 3 := by
  rcases hng : c.ng with _ | _
  · have := h.unset hng
    have := h.ngCount
    omega
  · have := h.set hng
    omega

theorem debounced (rows : List Row) (hrows : rows.length ≤ 255) : Debounced rows where
  onRecorded := fun _ _ _ _ hinc => hinc.effect.1
  bridged := fun _ _ _ _ _ _ h h' => bridged_of_increments h h'
  exact := by
    rintro before after rfl
    refine (counters_run before ?_).1
    rw [List.length_append] at hrows
    omega
  few := (counters_run rows hrows).2.segs_le

/-- In a normal pass that begins with the flags of the declarations the counters of a side are
what the debounce makes of the rows, which are at most 81; and the segments are debounced. -/
theorem segs_debounced (image : Image) (beyond : ℤ → UInt8) (enableLoop : Bool) (d : Side)
    (a s t : State) (rows : List Row) (ha : Enters a)
    (hs : Goto.Visits (code enableLoop) (memory image beyond) a s) (hpc : s.pc = .normalBound)
    (hfresh : Fresh d s) (hrows : Rows enableLoop (memory image beyond) d s rows t) :
    (t.track d).counters = run (rowStep u8) Counters.initial rows ∧ rows.length ≤ 81 ∧
      Debounced rows := by
  have hlength := (rows_length hpc (fun u hu => inv_visits ha.inv (hs.trans hu)) hrows).1
  exact ⟨rows_counters hpc hfresh hrows, hlength, debounced rows (by omega)⟩

instance (p : Pc) : Decidable p.Reset := inferInstanceAs (Decidable (_ ∧ _))

/-- A road whose left border opens in rows 114 to 116; the first pixel of a row is road too. -/
def gap : Image := fun y x =>
  decide (x = 0 ∨ ((if 114 ≤ y ∧ y ≤ 116 then 0 else 4) ≤ x ∧ x ≤ 150))

theorem segs_debounced_gap : ∃ s t rows, Fresh .left s ∧
    Rows false (memory gap fun _ => EMPTY) .left s rows t ∧ t.l.segs = 2 ∧ Debounced rows := by
  have hcheck : Goto.checkVia (code false) (memory gap fun _ => EMPTY)
      (fun u => decide (u.pc ≠ .normalBound))
      (fun s => decide (s.pc = .normalBound) &&
        Goto.checkVia (code false) (memory gap fun _ => EMPTY) (fun u => decide u.pc.Reset)
          (fun t => decide (t.l.segs = 2)) 71 s) 152 (called .normal) := by
    decide +kernel
  obtain ⟨s, hs, hq⟩ := Goto.exists_via hcheck
  simp only [Bool.and_eq_true, decide_eq_true_eq] at hs hq
  obtain ⟨t, ht, hsegs⟩ := Goto.exists_via hq.2
  simp only [decide_eq_true_eq] at ht hsegs
  obtain ⟨rows, hrows⟩ := exists_rows ht
  have hfresh : Fresh .left s := fresh_of_first rfl hs hq.1
  exact ⟨s, t, rows, hfresh, hrows, hsegs, (segs_debounced gap (fun _ => EMPTY) false .left
    (called .normal) s t rows (enters_called .normal) hs.visits hq.1 hfresh hrows).2.2⟩

end SmartCar.MtImage

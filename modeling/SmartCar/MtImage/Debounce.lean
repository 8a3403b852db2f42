import SmartCar.Lib.Events
import SmartCar.Lib.Stretch
import SmartCar.MtImage.State

/-!
# mt_image: the debounce of a side

The variables that count the segments of a side, apart from the search: a row of the normal pass
is recorded, or counted as bad, or neither, and `rowStep` is what `left_g:`, `left_ng:` and the
counters make of it. A segment is counted once the border has been good for some rows, and not
again before it has been bad for some.

* `bridged_of_increments`: what lies between two segments;
* `counters_run`: how far the counters get, and that their stores do not wrap.
-/

namespace SmartCar.MtImage

open CInt Events Stretch

/-! ## Rows and counters -/

/-- What a row of the normal pass is to a side. -/
inductive Outcome
  | recorded | bad | neither
deriving DecidableEq, Repr

/-- A row of the image, with its outcome. -/
structure Row where
  y : ℤ
  outcome : Outcome
deriving DecidableEq, Repr

/-- `l_ng_count`, `l_g_count`, `l_ng`, `l_segs` -/
structure Counters where
  ngCount : ℤ
  gCount : ℤ
  ng : Bool
  segs : ℤ
deriving DecidableEq, Repr

/-- The counters of a side. -/
def Track.counters (t : Track) : Counters := ⟨t.ngCount, t.gCount, t.ng, t.segs⟩

/-- What a side's counters are when the first normal pass begins. -/
def Counters.initial : Counters := ⟨0, bdGCountMax, true, 0⟩

/-! The stores of the counters are a parameter: `u8` in the search, and `id` where the counters
are exact. -/

variable (store : ℤ → ℤ)

/-- `left_g:` -/
def goodRow (c : Counters) : Counters :=
  if c.ng then { c with ng := false, segs := store (c.segs + 1) } else c

/-- `left_ng:` -/
def noGoodRow (c : Counters) : Counters :=
  let c := { c with gCount := 0, ngCount := store (c.ngCount + 1) }
  if c.ngCount = bdNgCountMax then { c with ng := true } else c

/-- `if (l_ng_count) ... else if (l_g_count) ...` -/
def recordedRow (y : ℤ) (c : Counters) : Counters :=
  if c.ngCount ≠ 0 then
    if y > yStrictGMax then { c with ngCount := 0, gCount := bdGCountMax }
    else goodRow store { c with ngCount := 0 }
  else if c.gCount ≠ 0 then
    let c := { c with gCount := store (c.gCount - 1) }
    if c.gCount = 0 then goodRow store c else c
  else c

/-- What a row makes of the counters. -/
def rowStep (c : Counters) (row : Row) : Counters :=
  match row.outcome with
  | .recorded => recordedRow store row.y c
  | .bad => noGoodRow store c
  | .neither => c

/-- The row is one that `segs` counts. -/
def Increments (c : Counters) (row : Row) : Prop := (rowStep u8 c row).segs ≠ c.segs

instance (c : Counters) (row : Row) : Decidable (Increments c row) :=
  inferInstanceAs (Decidable (_ ≠ _))

/-- At least `BD_NG_COUNT_MAX` of the rows are bad, with no recorded row among or between them. -/
def Bridged (rows : List Row) : Prop :=
  Within (fun row => row.outcome = .bad) (fun row => row.outcome = .recorded)
    bdNgCountMax.toNat rows

/-! ## What a row does -/

variable {store} {c : Counters} {row : Row} {rows : List Row} {n : ℕ}

/-- What a row does to the counters, apart from `gCount`. -/
inductive RowEffect (store : ℤ → ℤ) (c : Counters) (row : Row) (c' : Counters) : Prop
  | recorded (hrow : row.outcome = .recorded) (hcount : c'.ngCount = 0) (hng : c'.ng = c.ng)
      (hsegs : c'.segs = c.segs)
  | counted (hrow : row.outcome = .recorded) (hcount : c'.ngCount = 0) (hng : c.ng = true)
      (hng' : c'.ng = false) (hsegs : c'.segs = store (c.segs + 1))
  | bad (hrow : row.outcome = .bad) (hcount : c'.ngCount = store (c.ngCount + 1))
      (hng : c'.ng = (c.ng || decide (c'.ngCount = 3))) (hsegs : c'.segs = c.segs)
  | neither (hrow : row.outcome = .neither) (h : c' = c)

theorem goodRow_effect {c' : Counters} (hrow : row.outcome = .recorded) (hcount : c'.ngCount = 0)
    (hng : c'.ng = c.ng) (hsegs : c'.segs = c.segs) :
    RowEffect store c row (goodRow store c') := by
  unfold goodRow
  split
  · rename_i hset
    exact .counted hrow hcount (hng ▸ hset) rfl (by rw [hsegs])
  · exact .recorded hrow hcount hng hsegs

theorem recordedRow_effect (hrow : row.outcome = .recorded) :
    RowEffect store c row (recordedRow store row.y c) := by
  unfold recordedRow
  dsimp only
  split
  · split
    · exact .recorded hrow rfl rfl rfl
    · exact goodRow_effect hrow rfl rfl rfl
  · rename_i hzero
    have hcount : c.ngCount = 0 := by simpa using hzero
    split
    · split
      · exact goodRow_effect hrow hcount rfl rfl
      · exact .recorded hrow hcount rfl rfl
    · exact .recorded hrow hcount rfl rfl

theorem noGoodRow_effect (hrow : row.outcome = .bad) :
    RowEffect store c row (noGoodRow store c) := by
  unfold noGoodRow
  dsimp only
  split
  · rename_i hmax
    refine .bad hrow rfl ?_ rfl
    simp only [bdNgCountMax] at hmax
    simp [hmax]
  · rename_i hmax
    refine .bad hrow rfl ?_ rfl
    simp only [bdNgCountMax] at hmax
    simp [hmax]

/-- What a row does to the counters. -/
theorem rowStep_effect (store : ℤ → ℤ) (c : Counters) (row : Row) :
    RowEffect store c row (rowStep store c row) := by
  unfold rowStep
  cases hrow : row.outcome with
  | recorded => exact recordedRow_effect hrow
  | bad => exact noGoodRow_effect hrow
  | neither => exact .neither hrow rfl

/-- Only a recorded row is counted, and only after enough bad ones. -/
theorem Increments.effect (h : Increments c row) : row.outcome = .recorded ∧ c.ng = true ∧
    (rowStep u8 c row).ngCount = 0 ∧ (rowStep u8 c row).ng = false := by
  unfold Increments at h
  cases rowStep_effect u8 c row with
  | recorded _ _ _ hsegs => exact absurd hsegs h
  | counted hrow hcount hng hng' _ => exact ⟨hrow, hng, hcount, hng'⟩
  | bad _ _ _ hsegs => exact absurd hsegs h
  | neither _ hsame => exact absurd (congrArg Counters.segs hsame) h

/-! ## Between two segments -/

/-- The rows end in a stretch without a recorded one in which `ngCount` rows are bad. -/
def Counted (c : Counters) (rows : List Row) : Prop :=
  0 ≤ c.ngCount ∧ Last (fun row => row.outcome = .bad) (fun row => row.outcome = .recorded)
    c.ngCount.toNat rows

/-- From a row that has been counted on: the bad rows are counted, and the flag is not set
before there have been enough of them. -/
theorem run_bridged (hcount : c.ngCount = 0) (hng : c.ng = false) (rows : List Row) :
    Counted (run (rowStep u8) c rows) rows ∧
      ((run (rowStep u8) c rows).ng = true → Bridged rows) := by
  refine run_induction (rowStep u8) c (fun rows c => Counted c rows ∧ (c.ng = true → Bridged rows))
    ⟨⟨by omega, by rw [hcount]; exact last_zero []⟩, fun h => by simp [hng] at h⟩ ?_ rows
  rintro rows row ⟨⟨hpos, hlast⟩, hset⟩
  have hfresh : ∀ c' : Counters, c'.ngCount = 0 → Counted c' (rows ++ [row]) := by
    intro c' h
    exact ⟨by omega, by rw [h]; exact last_zero _⟩
  cases rowStep_effect u8 (run (rowStep u8) c rows) row with
  | recorded _ hcount hng _ =>
    exact ⟨hfresh _ hcount, fun h => (hset (hng ▸ h)).concat row⟩
  | counted _ hcount _ hng' _ =>
    exact ⟨hfresh _ hcount, fun h => by simp [hng'] at h⟩
  | bad hrow hcount hng _ =>
    have hnot : row.outcome ≠ .recorded := by simp [hrow]
    have hlast' := hlast.concat_of_pos hrow hnot
    have hcounted : Counted (rowStep u8 (run (rowStep u8) c rows) row) (rows ++ [row]) := by
      have hle := u8_le (z := (run (rowStep u8) c rows).ngCount + 1) (by omega)
      have hrange := u8_range ((run (rowStep u8) c rows).ngCount + 1)
      rw [Counted, hcount]
      exact ⟨hrange.1, hlast'.mono (by omega)⟩
    refine ⟨hcounted, fun h => ?_⟩
    rw [hng] at h
    rcases (Bool.or_eq_true _ _).mp h with h | h
    · exact (hset h).concat row
    · -- the third bad row since the last recorded one
      have hthree := hcounted.2
      rw [of_decide_eq_true h] at hthree
      exact hthree.within
  | neither hrow h =>
    have hnot : row.outcome ≠ .recorded := by simp [hrow]
    rw [h]
    exact ⟨⟨hpos, hlast.concat hnot⟩, fun h => (hset h).concat row⟩

/-- Between two rows that are counted there are enough bad ones. -/
theorem bridged_of_increments {before between : List Row} {row row' : Row}
    (h : Increments (run (rowStep u8) c before) row)
    (h' : Increments (run (rowStep u8) c (before ++ row :: between)) row') : Bridged between := by
  obtain ⟨-, -, hcount, hng⟩ := h.effect
  have hrun : run (rowStep u8) c (before ++ row :: between) =
      run (rowStep u8) (rowStep u8 (run (rowStep u8) c before) row) between := by
    simp [run]
  rw [hrun] at h'
  exact (run_bridged hcount hng between).2 h'.effect.2.1

/-! ## The counters do not wrap -/

/-- How far the counters have got after `n` rows: a segment costs four of them, but the first. -/
structure Attains (n : ℕ) (c : Counters) : Prop where
  ngCount : 0 ≤ c.ngCount ∧ c.ngCount ≤ n
  gCount : 0 ≤ c.gCount ∧ c.gCount ≤ 2
  segs : 0 ≤ c.segs
  set : c.ng = true → 4 * c.segs ≤ n
  unset : c.ng = false → c.ngCount < 3 ∧ 4 * c.segs + c.ngCount ≤ n + 3

theorem attains_initial : Attains 0 Counters.initial := by
  constructor <;> simp [Counters.initial]

/-- `gCount` counts down. -/
theorem gCount_step (h : 0 ≤ c.gCount ∧ c.gCount ≤ 2) (row : Row) :
    0 ≤ (rowStep id c row).gCount ∧ (rowStep id c row).gCount ≤ 2 := by
  have hgood : ∀ c' : Counters, (goodRow id c').gCount = c'.gCount := by
    intro c'
    unfold goodRow
    split <;> rfl
  unfold rowStep
  cases row.outcome with
  | recorded =>
    unfold recordedRow
    dsimp only
    split_ifs with _ _ _ hne
    · simp
    · rw [hgood]
      exact h
    · rw [hgood]
      simp only [id]
      omega
    · simp only [id]
      omega
    · exact h
  | bad =>
    unfold noGoodRow
    dsimp only
    split <;> exact ⟨le_refl 0, by norm_num⟩
  | neither => exact h

theorem Attains.step (h : Attains n c) (row : Row) : Attains (n + 1) (rowStep id c row) := by
  have hgCount := gCount_step h.gCount row
  have hngCount := h.ngCount
  have hsegs := h.segs
  cases rowStep_effect id c row with
  | recorded _ hcount hng hsegs' =>
    refine ⟨by omega, hgCount, by omega, fun hset => ?_, fun hunset => ?_⟩
    · have := h.set (hng ▸ hset)
      push_cast
      omega
    · have := h.unset (hng ▸ hunset)
      push_cast
      omega
  | counted _ hcount hng hng' hsegs' =>
    -- the segment has been paid for by the rows since the last one
    simp only [id] at hsegs'
    refine ⟨by omega, hgCount, by omega, fun hset => by simp [hng'] at hset, fun _ => ?_⟩
    have := h.set hng
    push_cast
    omega
  | bad _ hcount hng hsegs' =>
    simp only [id] at hcount
    refine ⟨by push_cast; omega, hgCount, by omega, fun hset => ?_, fun hunset => ?_⟩
    · -- the flag was set, or two bad rows came before
      rcases hold : c.ng with _ | _
      · have hmax : (rowStep id c row).ngCount = 3 := by simpa [hng, hold] using hset
        have := h.unset hold
        push_cast
        omega
      · have := h.set hold
        push_cast
        omega
    · obtain ⟨hold, hmax⟩ : c.ng = false ∧ (rowStep id c row).ngCount ≠ 3 := by
        simpa [hng] using hunset
      have := h.unset hold
      push_cast
      omega
  | neither _ hsame =>
    rw [hsame]
    refine ⟨by push_cast; omega, h.gCount, hsegs, fun hset => ?_, fun hunset => ?_⟩
    · have := h.set hset
      push_cast
      omega
    · have := h.unset hunset
      push_cast
      omega

/-- A store of the counters in a row that is not the 256th does not wrap. -/
theorem rowStep_exact (h : Attains n c) (hn : n ≤ 254) (row : Row) :
    rowStep u8 c row = rowStep id c row := by
  have hngCount := h.ngCount
  have hsegs : c.segs + 1 ≤ 255 := by
    rcases hng : c.ng with _ | _
    · have := h.unset hng
      omega
    · have := h.set hng
      omega
  -- none of the three stores is out of the range of a byte
  have hstore : u8 (c.segs + 1) = c.segs + 1 := u8_of_range (by have := h.segs; omega)
  have hgood : ∀ c' : Counters, c'.segs = c.segs → goodRow u8 c' = goodRow id c' := by
    intro c' hc'
    unfold goodRow
    rw [hc', hstore, id]
  unfold rowStep
  cases row.outcome with
  | recorded =>
    unfold recordedRow
    dsimp only
    split
    · rw [hgood { c with ngCount := 0 } rfl]
    · split
      · rename_i hne
        have hdown : u8 (c.gCount - 1) = c.gCount - 1 :=
          u8_of_range (by have := h.gCount; omega)
        rw [hdown, hgood { c with gCount := c.gCount - 1 } rfl, id]
      · rfl
  | bad =>
    unfold noGoodRow
    rw [u8_of_range (z := c.ngCount + 1) (by omega), id]
  | neither => rfl

/-- Along at most 255 rows the counters are exact. -/
theorem counters_run (rows : List Row) (hrows : rows.length ≤ 255) :
    run (rowStep u8) Counters.initial rows = run (rowStep id) Counters.initial rows ∧
      Attains rows.length (run (rowStep u8) Counters.initial rows) := by
  refine run_induction (rowStep u8) Counters.initial (fun rows c => rows.length ≤ 255 →
    c = run (rowStep id) Counters.initial rows ∧ Attains rows.length c)
    (fun _ => ⟨rfl, attains_initial⟩) ?_ rows hrows
  intro rows row ih hle
  rw [List.length_append, List.length_singleton] at hle ⊢
  obtain ⟨heq, hattains⟩ := ih (by omega)
  have hexact := rowStep_exact hattains (by omega) row
  refine ⟨?_, ?_⟩
  · rw [run_concat, hexact, heq]
  · rw [hexact]
    exact hattains.step row

end SmartCar.MtImage

import SmartCar.Lib.HillClimb
import SmartCar.MtImage.Otsu

/-!
# mt_image: the threshold of a still scene

Every eleventh frame `process_image` looks for a better threshold in a window of four grey
values on each side of the one it has. On a scene that does not change this is a climb on the
variance between the classes.

* `Rests` says what becomes of the threshold while the frames stay the same;
* `threshold_settles` is the law, for every scene and from every state with a window in which
  the scene has contrast.
-/

namespace SmartCar.MtImage

open Best Events HillClimb

variable {f : Frame} {o : Otsu} {t : UInt8}

/-! ## The scene -/

/-- The scene leaves room for a window around each of its grey values. -/
def Moderate (f : Frame) : Prop := ∀ p ∈ sampled f, 4 ≤ p.toNat ∧ p.toNat ≤ 252

/-- All frames of the run are `f`. -/
def Still (f : Frame) (tr : List Captured) : Prop := ∀ e ∈ tr, e.1 = f

/-- The grey value `n` splits the scene. -/
def SplitsAt (f : Frame) (n : ℕ) : Prop := ∃ k : UInt8, k.toNat = n ∧ Splits f k

def varianceAt (f : Frame) (n : ℕ) : ℚ := betweenVariance f (UInt8.ofNat n)

@[simp] theorem varianceAt_toNat (f : Frame) (k : UInt8) :
    varianceAt f k.toNat = betweenVariance f k := by
  rw [varianceAt, UInt8.ofNat_toNat]

theorem eligible_iff_splits {min max k : UInt8} :
    Eligible f min max k ↔ min ≤ k ∧ k ≤ max ∧ Splits f k :=
  eligible_iff.trans mem_candidates

/-- A best threshold is the top of its window. -/
theorem OtsuBest.top {min max k : UInt8} (h : OtsuBest f min max k) :
    Top (SplitsAt f) (varianceAt f) min.toNat max.toNat k.toNat := by
  rcases eligible_iff_splits.mp h.eligible with ⟨hlow, hhigh, hsplits⟩
  refine ⟨UInt8.le_iff_toNat_le.mp hlow, UInt8.le_iff_toNat_le.mp hhigh, ⟨k, rfl, hsplits⟩, ?_, ?_⟩
  · rintro _ ⟨j, rfl, hj⟩ hmin hmax
    rw [varianceAt_toNat, varianceAt_toNat]
    exact h.greatest j (eligible_iff_splits.mpr
      ⟨UInt8.le_iff_toNat_le.mpr hmin, UInt8.le_iff_toNat_le.mpr hmax, hj⟩)
  · rintro _ ⟨j, rfl, hj⟩ hmin hlt
    have hjk : j < k := UInt8.lt_iff_toNat_lt.mpr hlt
    rw [varianceAt_toNat, varianceAt_toNat]
    exact h.least j (eligible_iff_splits.mpr
      ⟨UInt8.le_iff_toNat_le.mpr hmin, UInt8.le_trans (UInt8.le_of_lt hjk) hhigh, hj⟩) hjk

/-- A threshold that splits the scene lies between its darkest and its brightest pixel. -/
theorem Moderate.between (h : Moderate f) (hsplits : Splits f t) :
    4 ≤ t.toNat ∧ t.toNat ≤ 251 := by
  rcases hsplits with ⟨⟨p, hp, hpt⟩, q, hq, htq⟩
  have hdark := (h p hp).1
  have hbright := (h q hq).2
  rw [UInt8.le_iff_toNat_le] at hpt
  rw [UInt8.lt_iff_toNat_lt] at htq
  omega

/-! ## One calculation -/

/-- The threshold calculated in the window around `t`. -/
def recalc (f : Frame) (t : UInt8) : UInt8 :=
  (otsuCalcThreshold f (t - otsuThresholdDelta) (t + otsuThresholdDelta)).getD 0

theorem ends_toNat (hlow : 4 ≤ t.toNat) (hhigh : t.toNat ≤ 251) :
    (t - otsuThresholdDelta).toNat = t.toNat - 4 ∧
      (t + otsuThresholdDelta).toNat = t.toNat + 4 := by
  simp only [otsuThresholdDelta, UInt8.toNat_sub, UInt8.toNat_add]
  simp
  omega

/-- In a window with a value that splits the scene the best of them is found. -/
theorem otsu_finds {min max k : UInt8} (hlow : min ≤ k) (hhigh : k ≤ max) (h : Splits f k)
    (unset : UInt8) : OtsuBest f min max ((otsuCalcThreshold f min max).getD unset) := by
  have hk : k ∈ candidates f min max := mem_candidates.mpr ⟨hlow, hhigh, h⟩
  have habove : ∀ j ∈ candidates f min max, 0 < (tally f j).var :=
    fun j hj => var_pos (mem_candidates.mp hj).2.2
  have hvar : ∀ j ∈ candidates f min max, (tally f j).var = betweenVariance f j :=
    fun j hj => var_eq_betweenVariance (mem_candidates.mp hj).2.2
  rcases first_best (candidates_sorted f min max) (List.ne_nil_of_mem hk) habove with
    ⟨t, ht, hkept, hle, hfirst⟩
  have hfound : otsuCalcThreshold f min max = some t := by
    rw [otsuCalcThreshold, otsuFrom_eq, hkept]
  rw [hfound, Option.getD_some]
  refine ⟨eligible_iff.mpr ht, ?_, ?_⟩
  · intro j hj
    rw [← hvar j (eligible_iff.mp hj), ← hvar t ht]
    exact hle j (eligible_iff.mp hj)
  · intro j hj hjt
    rw [← hvar j (eligible_iff.mp hj), ← hvar t ht]
    rcases hfirst j (eligible_iff.mp hj) with hlt | rfl | htj
    · exact hlt
    · exact absurd hjt (UInt8.lt_irrefl j)
    · exact absurd (UInt8.lt_trans hjt htj) (UInt8.lt_irrefl j)

/-- The next threshold is the best around one that splits the scene. -/
theorem recalc_best (h : Moderate f) (hsplits : Splits f t) :
    OtsuBest f (t - otsuThresholdDelta) (t + otsuThresholdDelta) (recalc f t) := by
  rcases h.between hsplits with ⟨hlow, hhigh⟩
  rcases ends_toNat hlow hhigh with ⟨hmin, hmax⟩
  have h1 : t - otsuThresholdDelta ≤ t := UInt8.le_iff_toNat_le.mpr (by omega)
  have h2 : t ≤ t + otsuThresholdDelta := UInt8.le_iff_toNat_le.mpr (by omega)
  exact otsu_finds h1 h2 hsplits 0

theorem OtsuBest.splits {min max k : UInt8} (h : OtsuBest f min max k) : Splits f k :=
  (eligible_iff_splits.mp h.eligible).2.2

/-! ## The climb -/

/-- The thresholds after one calculation, two, and so on, `t` being the first. -/
def climb (f : Frame) (t : UInt8) (n : ℕ) : UInt8 := (recalc f)^[n] t

theorem climb_succ (f : Frame) (t : UInt8) (n : ℕ) :
    climb f t (n + 1) = recalc f (climb f t n) := Function.iterate_succ_apply' (recalc f) n t

theorem climb_splits (h : Moderate f) (hsplits : Splits f t) (n : ℕ) : Splits f (climb f t n) := by
  induction n with
  | zero => exact hsplits
  | succ n ih =>
    rw [climb_succ]
    exact (recalc_best h ih).splits

theorem climbs (h : Moderate f) (hsplits : Splits f t) :
    Climbs (SplitsAt f) (varianceAt f) (· - 4) (· + 4) fun n => (climb f t n).toNat where
  meets := fun n => ⟨climb f t n, rfl, climb_splits h hsplits n⟩
  within := fun n => ⟨Nat.sub_le _ _, Nat.le_add_right _ _⟩
  top := by
    intro n
    have hn := climb_splits h hsplits n
    rcases h.between hn with ⟨hlow, hhigh⟩
    rcases ends_toNat hlow hhigh with ⟨hmin, hmax⟩
    have htop := (recalc_best h hn).top
    rw [hmin, hmax, ← climb_succ] at htop
    exact htop

theorem monotone_ends : Monotone (fun n : ℕ => n - 4) ∧ Monotone (fun n : ℕ => n + 4) :=
  ⟨fun _ _ h => Nat.sub_le_sub_right h 4, fun _ _ h => Nat.add_le_add_right h 4⟩

/-- After 247 calculations the climb is at rest. -/
theorem climb_rests (h : Moderate f) (hsplits : Splits f t) {n : ℕ} (hn : 247 ≤ n) :
    climb f t n = climb f t 247 := by
  have hsettles := (climbs h hsplits).settles monotone_ends.1 monotone_ends.2
    (fun n => h.between (climb_splits h hsplits n)) n hn
  exact UInt8.toNat_inj.mp hsettles

/-! ## The frames -/

/-- The threshold that the next calculation gives. -/
def Otsu.found (o : Otsu) (f : Frame) : UInt8 :=
  (otsuCalcThreshold f o.window.1 o.window.2).getD 0

/-- A threshold that is not 0 is the middle of its window. -/
theorem found_eq_recalc (h : o.threshold ≠ 0) : o.found f = recalc f o.threshold := by
  rw [Otsu.found, Otsu.window, if_pos h]
  rfl

/-- A frame on which the counter has run down. -/
theorem nextFrame_calculates {e : Captured} (hcounter : o.counter = 0)
    (hfound : ∃ k, o.window.1 ≤ k ∧ k ≤ o.window.2 ∧ Splits e.1 k) :
    nextFrame o e = ⟨otsuCounterMax, o.found e.1⟩ := by
  have hsome := (otsu_isSome_iff e.1 o.window.1 o.window.2).mpr hfound
  rcases Option.isSome_iff_exists.mp hsome with ⟨k, hk⟩
  simp [nextFrame, processImage, Otsu.next, Otsu.found, hcounter, hk]

/-- A frame that is binarised with the threshold there is. -/
theorem nextFrame_counts {e : Captured} (hcounter : o.counter ≠ 0) :
    nextFrame o e = { o with counter := o.counter - 1 } := by
  simp [nextFrame, processImage, Otsu.next, hcounter]

theorem toNat_pred {k : UInt8} (h : k ≠ 0) : (k - 1).toNat = k.toNat - 1 ∧ 0 < k.toNat := by
  have hpos : k.toNat ≠ 0 := fun heq => h (UInt8.toNat_inj.mp heq)
  have hlt := k.toNat_lt
  rw [UInt8.toNat_sub]
  simp
  omega

/-- A run over frames of the scene, from a threshold that splits it: every eleventh frame is
one step of the climb. -/
theorem run_still (h : Moderate f) (tr : List Captured) :
    ∀ o : Otsu, Still f tr → Splits f o.threshold →
      (run nextFrame o tr).threshold =
        climb f o.threshold ((tr.length + 10 - o.counter.toNat) / 11) := by
  induction tr with
  | nil =>
    intro o _ _
    have hnone : (0 + 10 - o.counter.toNat) / 11 = 0 := by omega
    rw [List.length_nil, hnone]
    rfl
  | cons e tr ih =>
    intro o hstill hsplits
    obtain rfl : e.1 = f := hstill e List.mem_cons_self
    have hrest : Still e.1 tr := fun e he => hstill e (List.mem_cons_of_mem _ he)
    rw [run_cons, List.length_cons]
    by_cases hcounter : o.counter = 0
    · -- the threshold is calculated anew
      rcases h.between hsplits with ⟨hlow, hhigh⟩
      rcases ends_toNat hlow hhigh with ⟨hmin, hmax⟩
      have hne : o.threshold ≠ 0 := by
        intro heq
        simp [heq] at hlow
      have hbest := recalc_best h hsplits
      have hmem := eligible_iff_splits.mp hbest.eligible
      rw [nextFrame_calculates hcounter (by rw [Otsu.window, if_pos hne]; exact ⟨_, hmem⟩),
        found_eq_recalc hne, ih _ hrest hbest.splits]
      have hcount : (tr.length + 1 + 10 - o.counter.toNat) / 11 =
          (tr.length + 10 - otsuCounterMax.toNat) / 11 + 1 := by
        simp only [hcounter, otsuCounterMax, UInt8.toNat_zero, UInt8.reduceToNat]
        omega
      rw [hcount]
      exact (Function.iterate_succ_apply (recalc e.1) _ o.threshold).symm
    · rcases toNat_pred hcounter with ⟨hpred, hpos⟩
      rw [nextFrame_counts hcounter, ih { o with counter := o.counter - 1 } hrest hsplits, hpred]
      have hcount : tr.length + 10 - (o.counter.toNat - 1) =
          tr.length + 1 + 10 - o.counter.toNat := by omega
      rw [hcount]

/-- The frames before the first calculation. -/
theorem run_waits (tr : List Captured) :
    ∀ o : Otsu, tr.length ≤ o.counter.toNat →
      run nextFrame o tr = { o with counter := UInt8.ofNat (o.counter.toNat - tr.length) } := by
  induction tr with
  | nil =>
    intro o _
    rw [List.length_nil, Nat.sub_zero, UInt8.ofNat_toNat]
    rfl
  | cons e tr ih =>
    intro o hle
    rw [List.length_cons] at hle
    have hcounter : o.counter ≠ 0 := by
      intro heq
      simp [heq] at hle
    rcases toNat_pred hcounter with ⟨hpred, -⟩
    rw [run_cons, nextFrame_counts hcounter, ih _ (by rw [hpred]; omega), hpred, List.length_cons]
    have hcount : o.counter.toNat - 1 - tr.length = o.counter.toNat - (tr.length + 1) := by omega
    rw [hcount]

/-- The window of a state with room holds the values that it is meant to hold. -/
theorem contrast_iff (hroom : Room o) :
    Contrast o f ↔ ∃ k, o.window.1 ≤ k ∧ k ≤ o.window.2 ∧ Splits f k := by
  rcases noWrap_of_room hroom with ⟨hmin, hmax⟩
  refine exists_congr fun k => ?_
  rw [UInt8.le_iff_toNat_le, UInt8.le_iff_toNat_le]
  constructor
  · rintro ⟨hlow, hhigh, hsplits⟩
    exact ⟨by omega, by omega, hsplits⟩
  · rintro ⟨hlow, hhigh, hsplits⟩
    exact ⟨by omega, by omega, hsplits⟩

/-- A run over frames of the scene, from any state with room and contrast: the climb begins
with the first calculation. -/
theorem run_calculated (h : Moderate f) (hroom : Room o) (hcontrast : Contrast o f)
    {tr : List Captured} (hstill : Still f tr) (hlength : o.counter.toNat < tr.length) :
    Splits f (o.found f) ∧ (run nextFrame o tr).threshold =
      climb f (o.found f) ((tr.length - o.counter.toNat - 1) / 11) := by
  have hwindow := (contrast_iff hroom).mp hcontrast
  have hfound : Splits f (o.found f) := by
    rcases hwindow with ⟨k, hlow, hhigh, hk⟩
    exact (otsu_finds hlow hhigh hk 0).splits
  refine ⟨hfound, ?_⟩
  -- the frames before the first calculation, its frame, and those after it
  obtain ⟨before, e, after, rfl, hbefore⟩ :
      ∃ before e after, tr = before ++ e :: after ∧ before.length = o.counter.toNat := by
    refine ⟨tr.take o.counter.toNat, tr[o.counter.toNat], tr.drop (o.counter.toNat + 1), ?_, ?_⟩
    · rw [List.getElem_cons_drop, List.take_append_drop]
    · rw [List.length_take]
      omega
  obtain rfl : e.1 = f := hstill e (by simp)
  have hafter : Still e.1 after := fun e he => hstill e (by simp [he])
  have hwaits := run_waits before o hbefore.le
  rw [hbefore, Nat.sub_self] at hwaits
  have hrun : run nextFrame o (before ++ e :: after) =
      run nextFrame ⟨otsuCounterMax, o.found e.1⟩ after := by
    have hsplit : run nextFrame o (before ++ e :: after) =
        run nextFrame (nextFrame (run nextFrame o before) e) after := by simp [run]
    have hnext := nextFrame_calculates (e := e) (o := { o with counter := 0 }) rfl hwindow
    rw [hsplit, hwaits]
    exact congrArg (run nextFrame · after) hnext
  rw [hrun, run_still h after _ hafter hfound, List.length_append, List.length_cons, hbefore]
  have hcount : after.length + 10 - otsuCounterMax.toNat = after.length := by
    simp [otsuCounterMax]
  have hcount' : o.counter.toNat + (after.length + 1) - o.counter.toNat - 1 = after.length := by
    omega
  rw [hcount, hcount']

/-! ## The law -/

/-- What becomes of the threshold on the scene `f`, from the state `o` on. -/
structure Rests (f : Frame) (o : Otsu) (t : UInt8) : Prop where
  /-- The threshold in the end is the best around itself. -/
  best : OtsuBest f (t - otsuThresholdDelta) (t + otsuThresholdDelta) t
  settled : ∀ tr, Still f tr → o.counter.toNat + 11 * 247 < tr.length →
    (run nextFrame o tr).threshold = t
  /-- Once it has been calculated it moves in one direction only. -/
  straight :
    (∀ tr tr', Still f (tr ++ tr') → o.counter.toNat < tr.length →
      (run nextFrame o tr).threshold ≤ (run nextFrame o (tr ++ tr')).threshold) ∨
    (∀ tr tr', Still f (tr ++ tr') → o.counter.toNat < tr.length →
      (run nextFrame o (tr ++ tr')).threshold ≤ (run nextFrame o tr).threshold)
  better : ∀ tr tr', Still f (tr ++ tr') → o.counter.toNat < tr.length →
    betweenVariance f (run nextFrame o tr).threshold ≤
      betweenVariance f (run nextFrame o (tr ++ tr')).threshold
  /-- Away from the ends of the first window the first threshold is kept. -/
  kept : o.threshold = 0 → ∀ tr tr', Still f (tr ++ tr') →
    tr.length = o.counter.toNat + 1 → 24 ≤ (run nextFrame o tr).threshold →
    (run nextFrame o tr).threshold ≤ 196 →
    (run nextFrame o (tr ++ tr')).threshold = (run nextFrame o tr).threshold

/-- Two moments of a run, as places of the climb. -/
theorem run_calculated_append (h : Moderate f) (hroom : Room o) (hcontrast : Contrast o f)
    {tr tr' : List Captured} (hstill : Still f (tr ++ tr'))
    (hlength : o.counter.toNat < tr.length) :
    ∃ m n, m ≤ n ∧ (run nextFrame o tr).threshold = climb f (o.found f) m ∧
      (run nextFrame o (tr ++ tr')).threshold = climb f (o.found f) n := by
  have hstill' : Still f tr := fun e he => hstill e (List.mem_append_left _ he)
  have hlength' : o.counter.toNat < (tr ++ tr').length := by
    rw [List.length_append]
    omega
  refine ⟨_, _, ?_, (run_calculated h hroom hcontrast hstill' hlength).2,
    (run_calculated h hroom hcontrast hstill hlength').2⟩
  apply Nat.div_le_div_right
  rw [List.length_append]
  omega

/-- A threshold found between 20 and 200, and away from both ends, is found again. -/
theorem climb_kept (h : Moderate f) (hbest : OtsuBest f otsuThresholdMin otsuThresholdMax t)
    (hlow : 24 ≤ t) (hhigh : t ≤ 196) (n : ℕ) : climb f t n = t := by
  have hsplits := hbest.splits
  have hclimbs := climbs h hsplits
  rw [UInt8.le_iff_toNat_le] at hlow hhigh
  have hnarrow : Top (SplitsAt f) (varianceAt f) (t.toNat - 4) (t.toNat + 4) t.toNat := by
    refine hbest.top.narrow ?_ ?_ (Nat.sub_le _ _) (Nat.le_add_right _ _)
    · simp only [otsuThresholdMin, UInt8.reduceToNat] at hlow ⊢
      omega
    · simp only [otsuThresholdMax, UInt8.reduceToNat] at hhigh ⊢
      omega
  have hfirst : (climb f t (0 + 1)).toNat = (climb f t 0).toNat := (hclimbs.top 0).unique hnarrow
  exact UInt8.toNat_inj.mp (hclimbs.rests hfirst n (Nat.zero_le n))

/-- On a scene that does not change the threshold climbs straight to one that is the best
around itself, and stays there. -/
theorem threshold_settles (h : Moderate f) (hroom : Room o) (hcontrast : Contrast o f) :
    ∃ t, Rests f o t := by
  have hwindow := (contrast_iff hroom).mp hcontrast
  have hfound : OtsuBest f o.window.1 o.window.2 (o.found f) := by
    rcases hwindow with ⟨k, hlow, hhigh, hk⟩
    exact otsu_finds hlow hhigh hk 0
  have hclimbs := climbs h hfound.splits
  refine ⟨climb f (o.found f) 247, ?_, ?_, ?_, ?_, ?_⟩
  · have hbest := recalc_best h (climb_splits h hfound.splits 247)
    rw [← climb_succ, climb_rests h hfound.splits (Nat.le_succ 247)] at hbest
    exact hbest
  · intro tr hstill hlength
    rw [(run_calculated h hroom hcontrast hstill (by omega)).2]
    apply climb_rests h hfound.splits
    omega
  · rcases hclimbs.straight monotone_ends.1 monotone_ends.2 with hmono | hanti
    · left
      intro tr tr' hstill hlength
      rcases run_calculated_append h hroom hcontrast hstill hlength with ⟨m, n, hmn, hm, hn⟩
      rw [hm, hn]
      exact UInt8.le_iff_toNat_le.mpr (hmono hmn)
    · right
      intro tr tr' hstill hlength
      rcases run_calculated_append h hroom hcontrast hstill hlength with ⟨m, n, hmn, hm, hn⟩
      rw [hm, hn]
      exact UInt8.le_iff_toNat_le.mpr (hanti hmn)
  · intro tr tr' hstill hlength
    rcases run_calculated_append h hroom hcontrast hstill hlength with ⟨m, n, hmn, hm, hn⟩
    have hheight := hclimbs.height_mono hmn
    simp only [varianceAt_toNat] at hheight
    rw [hm, hn]
    exact hheight
  · intro hzero tr tr' hstill hlength hlow hhigh
    rcases run_calculated_append h hroom hcontrast hstill (by omega) with ⟨m, n, -, hm, hn⟩
    have hstill' : Still f tr := fun e he => hstill e (List.mem_append_left _ he)
    have hfirst := (run_calculated h hroom hcontrast hstill' (by omega)).2
    have hnone : (tr.length - o.counter.toNat - 1) / 11 = 0 := by
      rw [hlength]
      omega
    rw [hnone] at hfirst
    have hwide : OtsuBest f otsuThresholdMin otsuThresholdMax (o.found f) := by
      rw [Otsu.window, if_neg (not_not.mpr hzero)] at hfound
      exact hfound
    rw [hfirst] at hlow hhigh ⊢
    rw [hn]
    exact climb_kept h hwide hlow hhigh n

/-! ### Scenes in two tones -/

/-- The first column is of one tone, the others are of another. -/
def tones (d b : UInt8) : Frame := fun _ j => if j = 0 then d else b

theorem mem_sampled_tones {d b p : UInt8} : p ∈ sampled (tones d b) ↔ p = d ∨ p = b := by
  have hmem : ∀ j : Fin 187, tones d b 0 (j.castLE (by decide)) ∈ sampled (tones d b) := fun j =>
    List.mem_flatMap.mpr ⟨0, List.mem_finRange 0, List.mem_map.mpr ⟨j, List.mem_finRange j, rfl⟩⟩
  constructor
  · intro hp
    simp only [sampled, List.mem_flatMap, List.mem_map] at hp
    rcases hp with ⟨i, -, j, -, rfl⟩
    unfold tones
    split
    · exact .inl rfl
    · exact .inr rfl
  · rintro (rfl | rfl)
    · exact hmem ⟨0, by decide⟩
    · exact hmem ⟨1, by decide⟩

theorem splits_tones {d b k : UInt8} (hlow : d ≤ k) (hhigh : k < b) : Splits (tones d b) k :=
  ⟨⟨d, mem_sampled_tones.mpr (.inl rfl), hlow⟩, b, mem_sampled_tones.mpr (.inr rfl), hhigh⟩

theorem threshold_settles_tones : ∃ t, Rests (tones 50 150) Otsu.init t := by
  refine threshold_settles ?_ ⟨by decide, by decide⟩ ⟨100, by decide, by decide, ?_⟩
  · intro p hp
    rcases mem_sampled_tones.mp hp with rfl | rfl
    · decide
    · decide
  · exact splits_tones (by decide) (by decide)

end SmartCar.MtImage

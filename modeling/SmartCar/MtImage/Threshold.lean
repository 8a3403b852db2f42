import Mathlib.Algebra.Order.BigOperators.Group.List
import Mathlib.Data.List.FinRange
import Mathlib.Tactic.Linarith
import Mathlib.Tactic.FieldSimp
import Mathlib.Tactic.Positivity
import Mathlib.Tactic.Ring
import SmartCar.Lib.Best
import SmartCar.Lib.Events
import SmartCar.MtImage.State

/-!
# mt_image: the binarisation threshold

`process_image` binarises each frame; every eleventh frame it calculates the threshold
anew, in a window around the old one. The `double`s are taken as exact rationals; whether
a class is empty and whether a variance is 0 does not depend on rounding.

* `otsuCalcThreshold` is the calculation, its result the variable `k_best`, which may be
  left unassigned;
* `Calculated` is what a call of it should be like, `Contrast` and `Room` are the conditions;
* `thresholds_calculated` is the law of all runs.
-/

namespace SmartCar.MtImage

open Best Events

/-- A captured frame, `image_buffer`: 120 rows of 188 grey values. -/
abbrev Frame := Fin 120 → Fin 188 → UInt8

def otsuThresholdMin : UInt8 := 20
def otsuThresholdMax : UInt8 := 200
def otsuThresholdDelta : UInt8 := 4
def otsuCounterMax : UInt8 := 10

/-- `HEIGHT * WIDTH / OTSU_COMPRESS_RATIO_SQUARE` -/
def otsuPixelCount : ℕ := 120 * 187

/-! ## The calculation -/

/-- The pixels that the calculation looks at; the last column is not among them. -/
def sampled (f : Frame) : List UInt8 :=
  (List.finRange 120).flatMap fun i => (List.finRange 187).map fun j => f i (j.castLE (by decide))

/-- The counters of one turn of the loop: `c`, `s` and `sm`. -/
structure Tally where
  c : ℕ
  s : ℕ
  sm : ℕ
deriving DecidableEq, Repr

/-- The body of the two loops over the pixels. -/
def Tally.add (k : UInt8) (t : Tally) (p : UInt8) : Tally :=
  let t := if p ≤ k then { t with c := t.c + 1, sm := t.sm + p.toNat } else t
  { t with s := t.s + p.toNat }

def tally (f : Frame) (k : UInt8) : Tally := (sampled f).foldl (Tally.add k) ⟨0, 0, 0⟩

def Tally.p1 (t : Tally) : ℚ := t.c / otsuPixelCount

/-- `pow(mg * p1 - m, 2) / (p1 * (1 - p1))` -/
def Tally.var (t : Tally) : ℚ :=
  let mg : ℚ := t.s / otsuPixelCount
  let m : ℚ := t.sm / otsuPixelCount
  (mg * t.p1 - m) ^ 2 / (t.p1 * (1 - t.p1))

/-! ### What is counted -/

/-- The pixels on the dark side of `k`. -/
def dark (f : Frame) (k : UInt8) : List UInt8 := (sampled f).filter (· ≤ k)

/-- The pixels on the bright side of `k`. -/
def bright (f : Frame) (k : UInt8) : List UInt8 := (sampled f).filter (k < ·)

def grey (l : List UInt8) : ℕ := (l.map UInt8.toNat).sum

variable {f : Frame} {k : UInt8}

@[simp] theorem sampled_length (f : Frame) : (sampled f).length = otsuPixelCount := by
  simp [sampled, List.length_flatMap, otsuPixelCount]

theorem foldl_add (k : UInt8) (l : List UInt8) (t : Tally) :
    l.foldl (Tally.add k) t =
      ⟨t.c + (l.filter (· ≤ k)).length, t.s + grey l, t.sm + grey (l.filter (· ≤ k))⟩ := by
  induction l generalizing t with
  | nil => simp [grey]
  | cons p l ih =>
    rw [List.foldl_cons, ih]
    by_cases hp : p ≤ k
    · simp [Tally.add, hp, grey]
      omega
    · simp [Tally.add, hp, grey]
      omega

theorem tally_eq (f : Frame) (k : UInt8) :
    tally f k = ⟨(dark f k).length, grey (sampled f), grey (dark f k)⟩ := by
  simp [tally, foldl_add, dark]

theorem dark_add_bright (f : Frame) (k : UInt8) :
    (dark f k).length + (bright f k).length = otsuPixelCount ∧
      grey (dark f k) + grey (bright f k) = grey (sampled f) := by
  rw [← sampled_length f, dark, bright]
  generalize sampled f = l
  induction l with
  | nil => simp [grey]
  | cons p l ih =>
    by_cases hp : p ≤ k
    · have hnot : ¬ k < p := UInt8.not_lt.mpr hp
      simp only [List.filter_cons, hp, hnot, grey] at ih ⊢
      simp at ih ⊢
      omega
    · have hlt : k < p := UInt8.not_le.mp hp
      simp only [List.filter_cons, hp, hlt, grey] at ih ⊢
      simp at ih ⊢
      omega

theorem grey_dark_le (f : Frame) (k : UInt8) :
    grey (dark f k) ≤ k.toNat * (dark f k).length := by
  have hle : ∀ n ∈ (dark f k).map UInt8.toNat, n ≤ k.toNat := by
    simp only [dark, List.mem_map, List.mem_filter, decide_eq_true_eq]
    rintro n ⟨p, ⟨-, hp⟩, rfl⟩
    exact UInt8.le_iff_toNat_le.mp hp
  have hsum := List.sum_le_card_nsmul _ _ hle
  rw [List.length_map, nsmul_eq_mul, Nat.cast_id] at hsum
  rw [grey]
  linarith

theorem le_grey_bright (f : Frame) (k : UInt8) :
    (k.toNat + 1) * (bright f k).length ≤ grey (bright f k) := by
  have hle : ∀ n ∈ (bright f k).map UInt8.toNat, k.toNat + 1 ≤ n := by
    simp only [bright, List.mem_map, List.mem_filter, decide_eq_true_eq]
    rintro n ⟨p, ⟨-, hp⟩, rfl⟩
    exact UInt8.lt_iff_toNat_lt.mp hp
  have hsum := List.card_nsmul_le_sum _ _ hle
  rw [List.length_map, nsmul_eq_mul, Nat.cast_id] at hsum
  rw [grey]
  linarith

/-- `k` splits the frame: there are pixels on both sides. -/
def Splits (f : Frame) (k : UInt8) : Prop :=
  (∃ p ∈ sampled f, p ≤ k) ∧ ∃ p ∈ sampled f, k < p

theorem p1_eq_zero_iff : (tally f k).p1 = 0 ↔ (dark f k).length = 0 := by
  simp [tally_eq, Tally.p1, otsuPixelCount]

theorem p1_eq_one_iff : (tally f k).p1 = 1 ↔ (bright f k).length = 0 := by
  have hsum := (dark_add_bright f k).1
  rw [tally_eq, Tally.p1, div_eq_one_iff_eq (by norm_num [otsuPixelCount]), Nat.cast_inj]
  dsimp only
  omega

theorem splits_iff : Splits f k ↔ 0 < (dark f k).length ∧ 0 < (bright f k).length := by
  rw [List.length_pos_iff_exists_mem, List.length_pos_iff_exists_mem]
  simp [Splits, dark, bright]

/-- The mean grey value of a class. -/
def mean (l : List UInt8) : ℚ := grey l / l.length

/-- The two classes in terms of their sizes `d` and `b`. -/
theorem Splits.sizes (h : Splits f k) :
    ∃ d b : ℚ, 0 < d ∧ 0 < b ∧ (dark f k).length = d ∧ (bright f k).length = b ∧
      (otsuPixelCount : ℚ) = d + b := by
  obtain ⟨hd, hb⟩ := splits_iff.mp h
  refine ⟨_, _, Nat.cast_pos.mpr hd, Nat.cast_pos.mpr hb, rfl, rfl, ?_⟩
  rw [← (dark_add_bright f k).1]
  push_cast
  rfl

/-- The variance between the two classes. -/
theorem var_eq (h : Splits f k) :
    (tally f k).var =
      (tally f k).p1 * (1 - (tally f k).p1) * (mean (bright f k) - mean (dark f k)) ^ 2 := by
  obtain ⟨d, b, hd, hb, hdark, hbright, hcount⟩ := h.sizes
  have hgrey : (grey (sampled f) : ℚ) = grey (dark f k) + grey (bright f k) := by
    rw [← (dark_add_bright f k).2]
    push_cast
    rfl
  rw [tally_eq, Tally.var, Tally.p1, mean, mean, hdark, hbright, hcount]
  dsimp only
  rw [hgrey]
  have hsum : d + b ≠ 0 := by positivity
  have hb' : d + b - d ≠ 0 := by
    rw [add_sub_cancel_left]
    exact hb.ne'
  field_simp
  ring

/-- The dark class is darker. -/
theorem mean_lt_mean (h : Splits f k) : mean (dark f k) < mean (bright f k) := by
  obtain ⟨hd, hb⟩ := splits_iff.mp h
  -- `k` lies between the two means
  have hdark : mean (dark f k) ≤ k.toNat := by
    rw [mean, div_le_iff₀ (Nat.cast_pos.mpr hd)]
    exact_mod_cast grey_dark_le f k
  have hbright : (k.toNat + 1 : ℚ) ≤ mean (bright f k) := by
    rw [mean, le_div_iff₀ (Nat.cast_pos.mpr hb)]
    exact_mod_cast le_grey_bright f k
  linarith

theorem var_pos (h : Splits f k) : 0 < (tally f k).var := by
  have hmean := sub_pos.mpr (mean_lt_mean h)
  obtain ⟨d, b, hd, hb, hdark, -, hcount⟩ := h.sizes
  have hp : (tally f k).p1 = d / (d + b) := by rw [tally_eq, Tally.p1, hcount, hdark]
  have hq : 1 - d / (d + b) = b / (d + b) := by
    have hsum : d + b ≠ 0 := by positivity
    field_simp
    ring
  rw [var_eq h, hp, hq]
  positivity

/-! ### The loop -/

/-- No pixel is brighter than 255. -/
theorem p1_255 (f : Frame) : (tally f 255).p1 = 1 := by
  rw [p1_eq_one_iff, List.length_eq_zero_iff, bright, List.filter_eq_nil_iff]
  intro p _
  simp [UInt8.lt_iff_toNat_lt]
  have := p.toNat_lt
  omega

theorem toNat_succ {k : UInt8} (h : k ≠ 255) : (k + 1).toNat = k.toNat + 1 := by
  have hlt : k.toNat ≠ 255 := fun heq => h (UInt8.toNat_inj.mp heq)
  have := k.toNat_lt
  rw [UInt8.toNat_add]
  simp
  omega

/-- `for (uint8 k = min; k <= max; k ++)`, from `k` on; `b` are `k_best` and `var_max`. It
ends with `k = 255` at the latest, where all pixels are counted. -/
def otsuFrom (f : Frame) (max k : UInt8) (b : Option UInt8 × ℚ) : Option UInt8 :=
  if k ≤ max then
    if h0 : (tally f k).p1 = 0 then otsuFrom f max (k + 1) b
    else if h1 : (tally f k).p1 = 1 then b.1
    else otsuFrom f max (k + 1) (keepBest (fun k => (tally f k).var) b k)
  else b.1
termination_by 255 - k.toNat
decreasing_by
  all_goals
    have hne : k ≠ 255 := by
      rintro rfl
      have := p1_255 f
      simp_all
    have := toNat_succ hne
    have := k.toNat_lt
    have hlt : k.toNat ≠ 255 := fun heq => hne (UInt8.toNat_inj.mp heq)
    omega

/-- The value returned; `none` if `k_best` has not been assigned. -/
def otsuCalcThreshold (f : Frame) (min max : UInt8) : Option UInt8 :=
  otsuFrom f max min (none, 0)

instance (f : Frame) (k : UInt8) : Decidable (Splits f k) := inferInstanceAs (Decidable (_ ∧ _))

/-- The values from `k` to `max` that split the frame. -/
def candidates (f : Frame) (k max : UInt8) : List UInt8 :=
  ((List.range' k.toNat (max.toNat + 1 - k.toNat)).map UInt8.ofNat).filter fun j => Splits f j

variable {max : UInt8}

theorem mem_candidates {j : UInt8} : j ∈ candidates f k max ↔ k ≤ j ∧ j ≤ max ∧ Splits f j := by
  simp only [candidates, List.mem_filter, List.mem_map, List.mem_range'_1, decide_eq_true_eq,
    UInt8.le_iff_toNat_le, ← and_assoc]
  refine and_congr_left fun _ => ⟨?_, fun h => ⟨j.toNat, by omega, UInt8.ofNat_toNat⟩⟩
  rintro ⟨n, hn, rfl⟩
  have := max.toNat_lt
  rw [UInt8.toNat_ofNat']
  omega

theorem candidates_of_le (h : k ≤ max) (hne : k ≠ 255) :
    candidates f k max =
      if Splits f k then k :: candidates f (k + 1) max else candidates f (k + 1) max := by
  have hle := UInt8.le_iff_toNat_le.mp h
  obtain ⟨n, hn⟩ : ∃ n, max.toNat + 1 - k.toNat = n + 1 := ⟨max.toNat - k.toNat, by omega⟩
  have hn' : max.toNat + 1 - (k.toNat + 1) = n := by omega
  rw [candidates, candidates, toNat_succ hne, hn, hn', List.range'_succ, List.map_cons,
    UInt8.ofNat_toNat, List.filter_cons]
  simp

theorem candidates_of_bright (h : (tally f k).p1 = 1) : candidates f k max = [] := by
  rw [p1_eq_one_iff, List.length_eq_zero_iff, bright, List.filter_eq_nil_iff] at h
  rw [List.eq_nil_iff_forall_not_mem]
  rintro j hj
  obtain ⟨hkj, -, -, p, hp, hjp⟩ := mem_candidates.mp hj
  refine h p hp (decide_eq_true ?_)
  rw [UInt8.lt_iff_toNat_lt] at hjp ⊢
  exact (UInt8.le_iff_toNat_le.mp hkj).trans_lt hjp

theorem candidates_of_lt (h : ¬ k ≤ max) : candidates f k max = [] := by
  rw [List.eq_nil_iff_forall_not_mem]
  intro j hj
  obtain ⟨hkj, hjm, -⟩ := mem_candidates.mp hj
  exact h (UInt8.le_trans hkj hjm)

theorem ne_255_of_p1 (h : (tally f k).p1 ≠ 1) : k ≠ 255 := by
  rintro rfl
  exact h (p1_255 f)

/-- `k` does not split the frame if all its pixels are on one side. -/
theorem splits_iff_p1 : Splits f k ↔ (tally f k).p1 ≠ 0 ∧ (tally f k).p1 ≠ 1 := by
  rw [splits_iff, Nat.pos_iff_ne_zero, Nat.pos_iff_ne_zero, Ne, Ne, Ne, Ne, p1_eq_zero_iff,
    p1_eq_one_iff]

/-- The loop keeps the best of the values that split the frame. -/
theorem otsuFrom_eq (f : Frame) (max k : UInt8) (b : Option UInt8 × ℚ) :
    otsuFrom f max k b = ((candidates f k max).foldl (keepBest fun k => (tally f k).var) b).1 := by
  fun_induction otsuFrom f max k b with
  | case1 k b hle h0 ih =>
    have hsplits : ¬ Splits f k := fun h => (splits_iff_p1.mp h).1 h0
    rw [candidates_of_le hle (ne_255_of_p1 (f := f) (by simp [h0])), if_neg hsplits, ih]
  | case2 k b hle h0 h1 =>
    -- all pixels are dark: no later value splits the frame either
    rw [candidates_of_bright h1, List.foldl_nil]
  | case3 k b hle h0 h1 ih =>
    have hsplits : Splits f k := splits_iff_p1.mpr ⟨h0, h1⟩
    rw [candidates_of_le hle (ne_255_of_p1 h1), if_pos hsplits, List.foldl_cons, ih]
  | case4 k b hle => rw [candidates_of_lt hle, List.foldl_nil]

/-- `k_best` is assigned if and only if some value of the window splits the frame. -/
theorem otsu_isSome_iff (f : Frame) (min max : UInt8) :
    (otsuCalcThreshold f min max).isSome ↔ ∃ k, min ≤ k ∧ k ≤ max ∧ Splits f k := by
  rw [otsuCalcThreshold, otsuFrom_eq, isSome_foldl]
  simp only [Option.isSome_none, Bool.false_eq_true, false_or, mem_candidates]
  constructor
  · rintro ⟨k, hk, -⟩
    exact ⟨k, hk⟩
  · rintro ⟨k, hk⟩
    exact ⟨k, hk, var_pos hk.2.2⟩

/-- What is assigned lies in the window and splits the frame. -/
theorem otsu_mem {f : Frame} {min max k : UInt8} (h : otsuCalcThreshold f min max = some k) :
    min ≤ k ∧ k ≤ max ∧ Splits f k := by
  rw [otsuCalcThreshold, otsuFrom_eq] at h
  rcases mem_of_foldl h with hnone | hmem
  · cases hnone
  · exact mem_candidates.mp hmem

/-! ## Frame after frame -/

/-- `otsu_counter` and `otsu_threshold`. -/
structure Otsu where
  counter : UInt8
  threshold : UInt8
deriving DecidableEq, Repr

/-- Power-up. -/
def Otsu.init : Otsu := ⟨0, 0⟩

/-- The window of the next calculation. The bounds are narrowed to `uint8` by the call. -/
def Otsu.window (o : Otsu) : UInt8 × UInt8 :=
  if o.threshold ≠ 0 then (o.threshold - otsuThresholdDelta, o.threshold + otsuThresholdDelta)
  else (otsuThresholdMin, otsuThresholdMax)

/-- The threshold and its counter in `process_image`. `unset` is what `k_best` holds when it
is returned without having been assigned. -/
def Otsu.next (o : Otsu) (f : Frame) (unset : UInt8) : Otsu :=
  if o.counter ≠ 0 then { o with counter := o.counter - 1 }
  else
    { threshold := (otsuCalcThreshold f o.window.1 o.window.2).getD unset
      counter := otsuCounterMax }

/-- The last column is left as it is. -/
def otsuBinarizeImage (f : Frame) (threshold : UInt8) : Frame := fun i j =>
  if j < 187 then if f i j > threshold then 1 else 0 else f i j

/-- The image that `search` gets. -/
def processImage (o : Otsu) (f : Frame) (unset : UInt8) : Otsu × Frame :=
  let o := o.next f unset
  (o, otsuBinarizeImage f o.threshold)

/-- A call of `process_image`: the frame, and what `k_best` holds. -/
abbrev Captured := Frame × UInt8

def nextFrame (o : Otsu) (e : Captured) : Otsu := (processImage o e.1 e.2).1

/-! ## Law and condition -/

/-- The window that is meant. -/
def Otsu.around (o : Otsu) : ℤ × ℤ :=
  if o.threshold ≠ 0 then (o.threshold.toNat - 4, o.threshold.toNat + 4) else (20, 200)

/-- The call of `otsu_calc_threshold` for the frame `f` is well defined. -/
structure Calculated (o : Otsu) (f : Frame) : Prop where
  order : o.window.1 ≤ o.window.2
  noWrap : (o.window.1.toNat : ℤ) = o.around.1 ∧ (o.window.2.toNat : ℤ) = o.around.2
  assigned : ∃ k, otsuCalcThreshold f o.window.1 o.window.2 = some k ∧
    o.window.1 ≤ k ∧ k ≤ o.window.2

/-- The window is one of grey values. -/
def Room (o : Otsu) : Prop := 0 ≤ o.around.1 ∧ o.around.2 ≤ 255

/-- A value of the window splits the frame. -/
def Contrast (o : Otsu) (f : Frame) : Prop :=
  ∃ k : UInt8, o.around.1 ≤ k.toNat ∧ k.toNat ≤ o.around.2 ∧ Splits f k

variable {o : Otsu}

theorem noWrap_of_room (h : Room o) :
    (o.window.1.toNat : ℤ) = o.around.1 ∧ (o.window.2.toNat : ℤ) = o.around.2 := by
  unfold Room at h
  by_cases h0 : o.threshold = 0
  · simp [Otsu.window, Otsu.around, h0, otsuThresholdMin, otsuThresholdMax]
  · simp only [Otsu.window, Otsu.around, h0, ne_eq, not_false_eq_true, if_true,
      otsuThresholdDelta, UInt8.toNat_sub, UInt8.toNat_add] at h ⊢
    simp at h ⊢
    omega

theorem calculated_iff : Calculated o f ↔ Room o ∧ Contrast o f := by
  constructor
  · rintro ⟨-, ⟨hlow, hhigh⟩, k, hk, hle, hle'⟩
    refine ⟨?_, k, ?_, ?_, (otsu_mem hk).2.2⟩
    · have := o.window.2.toNat_lt
      unfold Room
      omega
    · have := UInt8.le_iff_toNat_le.mp hle
      omega
    · have := UInt8.le_iff_toNat_le.mp hle'
      omega
  · rintro ⟨hroom, k, hlow, hhigh, hsplits⟩
    obtain ⟨hmin, hmax⟩ := noWrap_of_room hroom
    have hle : o.window.1 ≤ k := UInt8.le_iff_toNat_le.mpr (by omega)
    have hle' : k ≤ o.window.2 := UInt8.le_iff_toNat_le.mpr (by omega)
    refine ⟨UInt8.le_trans hle hle', ⟨hmin, hmax⟩, ?_⟩
    have hsome := (otsu_isSome_iff f _ _).mpr ⟨k, hle, hle', hsplits⟩
    obtain ⟨j, hj⟩ := Option.isSome_iff_exists.mp hsome
    obtain ⟨hj1, hj2, -⟩ := otsu_mem hj
    exact ⟨j, hj, hj1, hj2⟩

/-- In every run from power-up each threshold is calculated as it should be if and only if each
time the window has room and the frame has contrast in it. -/
theorem thresholds_calculated (tr : List Captured) :
    Along nextFrame Otsu.init (fun _ o e => o.counter = 0 → Calculated o e.1) tr ↔
      Along nextFrame Otsu.init (fun _ o e => o.counter = 0 → Room o ∧ Contrast o e.1) tr := by
  unfold Along
  simp only [calculated_iff]

/-- The first frame is of one grey: nothing is assigned. -/
theorem blank_not_calculated :
    ¬ Along nextFrame Otsu.init (fun _ o e => o.counter = 0 → Calculated o e.1)
      [(fun _ _ => 100, 0)] := by
  intro h
  obtain ⟨-, k, -, -, ⟨p, hp, hpk⟩, q, hq, hkq⟩ :=
    calculated_iff.mp (h [] _ [] rfl (by rfl))
  -- all pixels are 100, so none is on the other side of `k`
  have hall : ∀ p ∈ sampled fun _ _ => 100, p = 100 := by
    intro p hp
    simp only [sampled, List.mem_flatMap, List.mem_map] at hp
    obtain ⟨_, _, _, _, rfl⟩ := hp
    rfl
  rw [hall p hp] at hpk
  rw [hall q hq] at hkq
  exact UInt8.not_lt.mpr hpk hkq

end SmartCar.MtImage

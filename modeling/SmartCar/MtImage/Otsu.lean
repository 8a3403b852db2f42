import SmartCar.MtImage.Threshold

/-!
# mt_image: the threshold is the best one

`otsu_calc_threshold` keeps the first of the values of its window for which the variance
between the two classes is greatest. `betweenVariance` is that variance as it is defined,
`OtsuBest` says what a best value is, and `otsu_best` is the law.
-/

namespace SmartCar.MtImage

open Best

variable {f : Frame} {min max k j : UInt8}

/-- `c(k)`: how many of the pixels looked at are at most `k`. -/
def darkCount (f : Frame) (k : UInt8) : ℕ := (dark f k).length

/-- The variance between the pixels up to `k` and those above it: the shares of the two
classes times the squared distance of their means. -/
def betweenVariance (f : Frame) (k : UInt8) : ℚ :=
  let p : ℚ := darkCount f k / otsuPixelCount
  p * (1 - p) * (mean (dark f k) - mean (bright f k)) ^ 2

/-- `k` is a value of the window with pixels on both sides. -/
def Eligible (f : Frame) (min max k : UInt8) : Prop :=
  min ≤ k ∧ k ≤ max ∧ 0 < darkCount f k ∧ darkCount f k < otsuPixelCount

/-- `k` is the least of the values with the greatest variance. -/
structure OtsuBest (f : Frame) (min max k : UInt8) : Prop where
  eligible : Eligible f min max k
  greatest : ∀ j, Eligible f min max j → betweenVariance f j ≤ betweenVariance f k
  least : ∀ j, Eligible f min max j → j < k → betweenVariance f j < betweenVariance f k

theorem eligible_iff : Eligible f min max k ↔ k ∈ candidates f min max := by
  have hsum := (dark_add_bright f k).1
  rw [mem_candidates, splits_iff]
  unfold Eligible darkCount
  refine and_congr_right fun _ => and_congr_right fun _ => and_congr_right fun _ => ?_
  omega

theorem var_eq_betweenVariance (h : Splits f k) : (tally f k).var = betweenVariance f k := by
  rw [var_eq h, betweenVariance, darkCount, tally_eq, Tally.p1]
  ring

/-- The loop goes through its values upwards. -/
theorem candidates_sorted (f : Frame) (min max : UInt8) :
    (candidates f min max).Pairwise (· < ·) := by
  refine List.Pairwise.filter _ (List.pairwise_map.mpr ?_)
  refine List.Pairwise.imp_of_mem (fun {a b} _ hb hab => ?_) List.pairwise_lt_range'
  have hmax := max.toNat_lt
  have hlt : b < 256 := by
    have := List.mem_range'_1.mp hb
    omega
  rw [UInt8.lt_iff_toNat_lt, UInt8.toNat_ofNat', UInt8.toNat_ofNat']
  omega

/-- If some value of the window has pixels on both sides, the least of the best of them is
returned. -/
theorem otsu_best (f : Frame) (min max : UInt8) (h : ∃ k, Eligible f min max k) :
    ∃ k, otsuCalcThreshold f min max = some k ∧ OtsuBest f min max k := by
  obtain ⟨k₀, hk₀⟩ := h
  have hmem₀ := eligible_iff.mp hk₀
  have hvar : ∀ j, Eligible f min max j → (tally f j).var = betweenVariance f j := fun j hj =>
    var_eq_betweenVariance (mem_candidates.mp (eligible_iff.mp hj)).2.2
  rw [otsuCalcThreshold, otsuFrom_eq]
  rcases foldl_cases (fun k => (tally f k).var) (candidates f min max) (none, 0) with
    ⟨-, hle⟩ | ⟨l₁, k, l₂, hl, heq, -, hbefore, hafter⟩
  · -- the variance of a value that splits the frame is above 0
    exact absurd (hle k₀ hmem₀) (not_le.mpr (var_pos (mem_candidates.mp hmem₀).2.2))
  · have hk : Eligible f min max k := eligible_iff.mpr (by rw [hl]; simp)
    have hsorted := candidates_sorted f min max
    rw [hl] at hsorted
    refine ⟨k, by rw [heq], hk, fun j hj => ?_, fun j hj hjk => ?_⟩
    · have hj' := eligible_iff.mp hj
      rw [hl, List.mem_append, List.mem_cons] at hj'
      rw [← hvar j hj, ← hvar k hk]
      rcases hj' with hj' | rfl | hj'
      · exact (hbefore j hj').le
      · exact le_rfl
      · exact hafter j hj'
    · have hj' := eligible_iff.mp hj
      rw [hl, List.mem_append, List.mem_cons] at hj'
      rw [← hvar j hj, ← hvar k hk]
      have habove : ∀ i ∈ l₂, k < i :=
        (List.pairwise_cons.mp (List.pairwise_append.mp hsorted).2.1).1
      rcases hj' with hj' | rfl | hj'
      · exact hbefore j hj'
      · exact absurd hjk (UInt8.lt_irrefl j)
      · exact absurd (UInt8.lt_trans hjk (habove j hj')) (UInt8.lt_irrefl j)

/-- The first column is dark, the others are bright. -/
def twoTone : Frame := fun _ j => if j = 0 then 50 else 150

/-- The window goes up to 255, where the counter of the loop would wrap. -/
theorem otsu_best_twoTone :
    ∃ k, otsuCalcThreshold twoTone 20 255 = some k ∧ OtsuBest twoTone 20 255 k := by
  have hmem : ∀ j : Fin 187, twoTone 0 (j.castLE (by decide)) ∈ sampled twoTone := fun j =>
    List.mem_flatMap.mpr ⟨0, List.mem_finRange 0, List.mem_map.mpr ⟨j, List.mem_finRange j, rfl⟩⟩
  refine otsu_best twoTone 20 255 ⟨100, eligible_iff.mpr (mem_candidates.mpr ⟨?_, ?_, ?_, ?_⟩)⟩
  · decide
  · decide
  · exact ⟨_, hmem ⟨0, by decide⟩, by decide⟩
  · exact ⟨_, hmem ⟨1, by decide⟩, by decide⟩

end SmartCar.MtImage

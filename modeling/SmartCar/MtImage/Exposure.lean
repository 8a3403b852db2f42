import SmartCar.MtImage.Settling

/-!
# mt_image: exposure

A camera that exposes longer gives brighter frames of the same scene. The threshold follows,
so that the track search does not see the difference.

* `Brighter` compares two frames, `bothNext` takes two cars through two sequences of frames;
* `Fair` says when neither of the two loses its threshold;
* `exposure_followed` is the law of all runs from power-up: the two thresholds differ by as much
  as the frames, and the two binarised images are the same.
-/

namespace SmartCar.MtImage

open Events HillClimb

variable {f g : Frame} {k k' : UInt8} {c a b n : ℕ}

/-! ## A brighter frame -/

/-- The pixels of `g` are brighter than those of `f` by `c`; the last column, which is not
binarised, is not compared. -/
def Brighter (c : ℕ) (f g : Frame) : Prop :=
  ∀ i, ∀ j : Fin 188, j < 187 → (g i j).toNat = (f i j).toNat + c

/-- A pixel, brighter by `c`. -/
def brighten (c : ℕ) (p : UInt8) : UInt8 := UInt8.ofNat (p.toNat + c)

theorem Brighter.sampled_eq (h : Brighter c f g) :
    sampled g = (sampled f).map (brighten c) ∧
      ∀ p ∈ sampled f, (brighten c p).toNat = p.toNat + c := by
  have hpixel : ∀ (i : Fin 120) (j : Fin 187),
      (g i (j.castLE (by decide))).toNat = (f i (j.castLE (by decide))).toNat + c :=
    fun i j => h i _ (Fin.lt_def.mpr j.isLt)
  constructor
  · simp only [sampled, List.map_flatMap, List.map_map]
    refine List.flatMap_congr fun i _ => List.map_congr_left fun j _ => ?_
    rw [Function.comp_apply, brighten, ← hpixel i j, UInt8.ofNat_toNat]
  · intro p hp
    simp only [sampled, List.mem_flatMap, List.mem_map] at hp
    rcases hp with ⟨i, -, j, -, rfl⟩
    rw [brighten, ← hpixel i j, UInt8.ofNat_toNat]

/-- Both classes are those of the darker frame, brighter. -/
theorem Brighter.classes (h : Brighter c f g) (hk : k'.toNat = k.toNat + c) :
    dark g k' = (dark f k).map (brighten c) ∧ bright g k' = (bright f k).map (brighten c) := by
  rcases h.sampled_eq with ⟨heq, hval⟩
  rw [dark, dark, bright, bright, heq, List.filter_map, List.filter_map]
  constructor
  · refine congrArg _ (List.filter_congr fun p hp => ?_)
    simp only [Function.comp_apply, UInt8.le_iff_toNat_le, hval p hp, hk, Nat.add_le_add_iff_right]
  · refine congrArg _ (List.filter_congr fun p hp => ?_)
    simp only [Function.comp_apply, UInt8.lt_iff_toNat_lt, hval p hp, hk, Nat.add_lt_add_iff_right]

theorem Brighter.splits_raised (h : Brighter c f g) (hk : k'.toNat = k.toNat + c) :
    Splits g k' ↔ Splits f k := by
  rcases h.classes hk with ⟨hdark, hbright⟩
  rw [splits_iff, splits_iff, hdark, hbright, List.length_map, List.length_map]

theorem grey_brighten {l : List UInt8} (hval : ∀ p ∈ l, (brighten c p).toNat = p.toNat + c) :
    grey (l.map (brighten c)) = grey l + c * l.length := by
  induction l with
  | nil => rfl
  | cons p l ih =>
    have hp := hval p List.mem_cons_self
    have hl := ih fun q hq => hval q (List.mem_cons_of_mem _ hq)
    simp only [grey, List.map_cons, List.sum_cons, List.length_cons] at hl ⊢
    rw [hp, hl]
    ring

theorem mean_brighten {l : List UInt8} (hval : ∀ p ∈ l, (brighten c p).toNat = p.toNat + c)
    (hne : 0 < l.length) : mean (l.map (brighten c)) = mean l + c := by
  have hlength : (l.length : ℚ) ≠ 0 := by exact_mod_cast hne.ne'
  rw [mean, mean, grey_brighten hval, List.length_map]
  push_cast
  field_simp

/-- The classes are as far apart as before. -/
theorem Brighter.variance (h : Brighter c f g) (hk : k'.toNat = k.toNat + c)
    (hsplits : Splits f k) : betweenVariance g k' = betweenVariance f k := by
  rcases h.classes hk with ⟨hdark, hbright⟩
  rcases splits_iff.mp hsplits with ⟨hd, hb⟩
  have hval := h.sampled_eq.2
  have hmeanDark : mean ((dark f k).map (brighten c)) = mean (dark f k) + c :=
    mean_brighten (fun p hp => hval p (List.mem_of_mem_filter hp)) hd
  have hmeanBright : mean ((bright f k).map (brighten c)) = mean (bright f k) + c :=
    mean_brighten (fun p hp => hval p (List.mem_of_mem_filter hp)) hb
  rw [betweenVariance, betweenVariance, darkCount, darkCount, hdark, hbright, hmeanDark,
    hmeanBright, List.length_map, add_sub_add_right_eq_sub]

/-! ## Thresholds, as numbers -/

theorem Brighter.splitsAt_add (h : Brighter c f g) : SplitsAt g (n + c) ↔ SplitsAt f n := by
  constructor
  · rintro ⟨k', hk', hsplits⟩
    have hlt := k'.toNat_lt
    have hk : (UInt8.ofNat n).toNat = n := by
      rw [UInt8.toNat_ofNat']
      omega
    exact ⟨UInt8.ofNat n, hk, (h.splits_raised (by rw [hk, hk'])).mp hsplits⟩
  · rintro ⟨k, rfl, hsplits⟩
    -- a pixel above `k` is brighter than it by one at least
    have hroom : k.toNat + c < 256 := by
      rcases hsplits with ⟨-, q, hq, hkq⟩
      have hval := h.sampled_eq.2 q hq
      have hlt := (brighten c q).toNat_lt
      rw [UInt8.lt_iff_toNat_lt] at hkq
      omega
    have hk : (UInt8.ofNat (k.toNat + c)).toNat = k.toNat + c := by
      rw [UInt8.toNat_ofNat']
      omega
    exact ⟨_, hk, (h.splits_raised hk).mpr hsplits⟩

theorem Brighter.varianceAt_add (h : Brighter c f g) (hsplits : SplitsAt f n) :
    varianceAt g (n + c) = varianceAt f n := by
  rcases h.splitsAt_add.mpr hsplits with ⟨k', hk', -⟩
  rcases hsplits with ⟨k, rfl, hsplits⟩
  rw [← hk', varianceAt_toNat, varianceAt_toNat]
  exact h.variance hk' hsplits

/-- The best threshold of a window is that of the window that lies higher by `c`. -/
theorem Brighter.raised (h : Brighter c f g)
    (htop : HillClimb.Top (SplitsAt f) (varianceAt f) a b n) :
    HillClimb.Top (SplitsAt g) (varianceAt g) (a + c) (b + c) (n + c) where
  low := Nat.add_le_add_right htop.low c
  high := Nat.add_le_add_right htop.high c
  meets := h.splitsAt_add.mpr htop.meets
  greatest := by
    intro j hj hlow hhigh
    obtain ⟨m, rfl⟩ : ∃ m, j = m + c := ⟨j - c, by omega⟩
    have hm := h.splitsAt_add.mp hj
    rw [h.varianceAt_add hm, h.varianceAt_add htop.meets]
    exact htop.greatest m hm (by omega) (by omega)
  first := by
    intro j hj hlow hlt
    obtain ⟨m, rfl⟩ : ∃ m, j = m + c := ⟨j - c, by omega⟩
    have hm := h.splitsAt_add.mp hj
    rw [h.varianceAt_add hm, h.varianceAt_add htop.meets]
    exact htop.first m hm (by omega) (by omega)

/-! ## Two cars -/

/-- Each car gets its frame. -/
def bothNext (o : Otsu × Otsu) (e : Captured × Captured) : Otsu × Otsu :=
  (nextFrame o.1 e.1, nextFrame o.2 e.2)

/-- The same moment of both, the thresholds differing by `c` once there are any. -/
structure Apart (c : ℕ) (o : Otsu × Otsu) : Prop where
  counter : o.2.counter = o.1.counter
  threshold : o.1.threshold = 0 ∧ o.2.threshold = 0 ∧ o.1.counter = 0 ∨
    o.1.threshold ≠ 0 ∧ o.2.threshold.toNat = o.1.threshold.toNat + c

/-- Neither of the two loses its threshold on these frames. The first thresholds are not cut
off by the ends of the first window, and none is 0, which would count as no threshold. -/
structure Fair (c : ℕ) (o : Otsu × Otsu) (e : Captured × Captured) : Prop where
  calculated : o.1.counter = 0 → Calculated o.1 e.1.1 ∧ Calculated o.2 e.2.1
  first : o.1.counter = 0 → o.1.threshold = 0 →
    (o.1.found e.1.1).toNat + c ≤ 200 ∧ 20 + c ≤ (o.2.found e.2.1).toNat
  kept : o.1.counter = 0 → o.1.found e.1.1 ≠ 0

/-- The two binarised images are the same, and the thresholds differ by `c`. -/
structure SamePicture (c : ℕ) (o : Otsu × Otsu) (e : Captured × Captured) : Prop where
  threshold : (nextFrame o.2 e.2).threshold.toNat = (nextFrame o.1 e.1).threshold.toNat + c
  picture : ∀ i, ∀ j : Fin 188, j < 187 →
    (processImage o.2 e.2.1 e.2.2).2 i j = (processImage o.1 e.1.1 e.1.2).2 i j

/-! ### One calculation in both -/

/-- What is found in a window that has a threshold to find. -/
theorem Calculated.top {o : Otsu} (h : Calculated o f) :
    HillClimb.Top (SplitsAt f) (varianceAt f) o.window.1.toNat o.window.2.toNat
      (o.found f).toNat := by
  rcases h.assigned with ⟨t, ht, -, -⟩
  rcases otsu_mem ht with ⟨hlow, hhigh, hsplits⟩
  exact (otsu_finds hlow hhigh hsplits 0).top

theorem Calculated.next {o : Otsu} {e : Captured} (h : Calculated o e.1)
    (hcounter : o.counter = 0) :
    nextFrame o e = ⟨otsuCounterMax, o.found e.1⟩ := by
  rcases h.assigned with ⟨t, ht, -, -⟩
  exact nextFrame_calculates hcounter ⟨t, otsu_mem ht⟩

/-- The window around a threshold that is not 0, as numbers. -/
theorem Calculated.ends {o : Otsu} (h : Calculated o f) (hne : o.threshold ≠ 0) :
    o.window.1.toNat + 4 = o.threshold.toNat ∧ o.window.2.toNat = o.threshold.toNat + 4 := by
  have hwrap := h.noWrap
  simp only [Otsu.around, if_pos hne] at hwrap
  omega

/-- The first window. -/
theorem window_first {o : Otsu} (h : o.threshold = 0) :
    o.window.1.toNat = 20 ∧ o.window.2.toNat = 200 := by
  rw [Otsu.window, if_neg (not_not.mpr h)]
  exact ⟨rfl, rfl⟩

variable {o : Otsu × Otsu} {e : Captured × Captured}

/-- A calculation finds thresholds that differ by `c`. -/
theorem found_apart (h : Apart c o) (hframes : Brighter c e.1.1 e.2.1) (hcounter : o.1.counter = 0)
    (hfair : Fair c o e) : (o.2.found e.2.1).toNat = (o.1.found e.1.1).toNat + c := by
  rcases hfair.calculated hcounter with ⟨hcalc, hcalc'⟩
  rcases h.threshold with ⟨hzero, hzero', -⟩ | ⟨hne, hapart⟩
  · -- the first windows are the same: both thresholds lie where they overlap
    rcases hfair.first hcounter hzero with ⟨hlow, hhigh⟩
    rcases window_first hzero with ⟨hmin, hmax⟩
    rcases window_first hzero' with ⟨hmin', hmax'⟩
    have htop := hcalc.top
    have htop' := hcalc'.top
    rw [hmin, hmax] at htop
    rw [hmin', hmax'] at htop'
    have hnarrow : HillClimb.Top (SplitsAt e.1.1) (varianceAt e.1.1) 20 (200 - c)
        (o.1.found e.1.1).toNat :=
      htop.narrow le_rfl (Nat.sub_le _ _) htop.low (by omega)
    have hraised := hframes.raised hnarrow
    rw [Nat.sub_add_cancel (by omega)] at hraised
    exact (htop'.narrow (by omega) le_rfl hhigh htop'.high).unique hraised
  · have hne' : o.2.threshold ≠ 0 := by
      intro heq
      have hpos : o.1.threshold.toNat ≠ 0 := fun h0 => hne (UInt8.toNat_inj.mp h0)
      simp only [heq, UInt8.toNat_zero] at hapart
      omega
    rcases hcalc.ends hne with ⟨hmin, hmax⟩
    rcases hcalc'.ends hne' with ⟨hmin', hmax'⟩
    have hraised := hframes.raised hcalc.top
    have hlow : o.1.window.1.toNat + c = o.2.window.1.toNat := by omega
    have hhigh : o.1.window.2.toNat + c = o.2.window.2.toNat := by omega
    rw [hlow, hhigh] at hraised
    exact hcalc'.top.unique hraised

/-- One frame in both. -/
theorem apart_step (h : Apart c o) (hframes : Brighter c e.1.1 e.2.1) (hfair : Fair c o e) :
    (bothNext o e).2.counter = (bothNext o e).1.counter ∧ (bothNext o e).1.threshold ≠ 0 ∧
      (bothNext o e).2.threshold.toNat = (bothNext o e).1.threshold.toNat + c := by
  by_cases hcounter : o.1.counter = 0
  · rcases hfair.calculated hcounter with ⟨hcalc, hcalc'⟩
    have hfound := found_apart h hframes hcounter hfair
    rw [bothNext, hcalc.next hcounter, hcalc'.next (h.counter.trans hcounter)]
    exact ⟨rfl, hfair.kept hcounter, hfound⟩
  · have hcounter' : o.2.counter ≠ 0 := by
      rw [h.counter]
      exact hcounter
    rw [bothNext, nextFrame_counts hcounter, nextFrame_counts hcounter', h.counter]
    rcases h.threshold with ⟨-, -, hzero⟩ | hapart
    · exact absurd hzero hcounter
    · exact ⟨rfl, hapart⟩

/-- The images that the track search gets. -/
theorem same_picture (h : Apart c o) (hframes : Brighter c e.1.1 e.2.1) (hfair : Fair c o e) :
    SamePicture c o e := by
  have hthreshold := (apart_step h hframes hfair).2.2
  refine ⟨hthreshold, fun i j hj => ?_⟩
  have hpixel := hframes i j hj
  simp only [bothNext, nextFrame, processImage] at hthreshold
  simp only [processImage, otsuBinarizeImage, if_pos hj, gt_iff_lt, UInt8.lt_iff_toNat_lt,
    hthreshold, hpixel, Nat.add_lt_add_iff_right]

/-- What is found between the two tones. -/
theorem found_tones {o : Otsu} {d b : UInt8} (hdb : d < b) (h : Calculated o (tones d b)) :
    d.toNat ≤ (o.found (tones d b)).toNat ∧ (o.found (tones d b)).toNat < b.toNat := by
  rcases h.top.meets with ⟨k, hk, ⟨p, hp, hpk⟩, q, hq, hkq⟩
  rw [← hk]
  rw [UInt8.le_iff_toNat_le] at hpk
  rw [UInt8.lt_iff_toNat_lt] at hkq hdb
  rcases mem_sampled_tones.mp hp with rfl | rfl
  · rcases mem_sampled_tones.mp hq with rfl | rfl
    · omega
    · omega
  · rcases mem_sampled_tones.mp hq with rfl | rfl
    · omega
    · omega

/-! ### A scene in two tones -/

/-- Once there is a threshold, it lies between the two tones. -/
def Amid (d b : UInt8) (o : Otsu) : Prop :=
  (o.threshold = 0 ∧ o.counter = 0) ∨ (d.toNat ≤ o.threshold.toNat ∧ o.threshold.toNat < b.toNat)

theorem Amid.calculated {o : Otsu} {d b : UInt8} (h : Amid d b o) (hd : 4 ≤ d.toNat)
    (hmid : d.toNat ≤ 100 ∧ 100 < b.toNat) (hb : b.toNat ≤ 251) : Calculated o (tones d b) := by
  have hsplits : ∀ k : UInt8, d.toNat ≤ k.toNat → k.toNat < b.toNat → Splits (tones d b) k :=
    fun k hlow hhigh =>
      splits_tones (UInt8.le_iff_toNat_le.mpr hlow) (UInt8.lt_iff_toNat_lt.mpr hhigh)
  rw [calculated_iff]
  by_cases hzero : o.threshold = 0
  · -- the first window has 100 in it
    have haround : o.around = (20, 200) := by rw [Otsu.around, if_neg (not_not.mpr hzero)]
    rw [Room, Contrast, haround]
    exact ⟨⟨by decide, by decide⟩, 100, by decide, by decide, hsplits 100 hmid.1 hmid.2⟩
  · -- the threshold there is splits the scene
    rcases h with ⟨h0, -⟩ | ⟨hlow, hhigh⟩
    · exact absurd h0 hzero
    · have haround : o.around = ((o.threshold.toNat : ℤ) - 4, (o.threshold.toNat : ℤ) + 4) := by
        rw [Otsu.around, if_pos hzero]
      rw [Room, Contrast, haround]
      exact ⟨⟨by simp only; omega, by simp only; omega⟩, o.threshold, by simp only; omega,
        by simp only; omega, hsplits o.threshold hlow hhigh⟩

theorem Amid.next {o : Otsu} {d b : UInt8} (h : Amid d b o) (hd : 4 ≤ d.toNat)
    (hmid : d.toNat ≤ 100 ∧ 100 < b.toNat) (hb : b.toNat ≤ 251) (unset : UInt8) :
    d.toNat ≤ (nextFrame o (tones d b, unset)).threshold.toNat ∧
      (nextFrame o (tones d b, unset)).threshold.toNat < b.toNat := by
  by_cases hcounter : o.counter = 0
  · have hcalc := h.calculated hd hmid hb
    have hdb : d < b := UInt8.lt_iff_toNat_lt.mpr (by omega)
    rw [hcalc.next hcounter]
    exact found_tones hdb hcalc
  · rw [nextFrame_counts hcounter]
    rcases h with ⟨-, hzero⟩ | hbetween
    · exact absurd hzero hcounter
    · exact hbetween

/-- A frame of a scene in two tones, and the same brighter by 10. -/
def toneFrames : Captured × Captured := ((tones 50 150, 0), (tones 60 160, 0))

theorem brighter_toneFrames : Brighter 10 toneFrames.1.1 toneFrames.2.1 := by
  intro i j hj
  change (tones 60 160 i j).toNat = (tones 50 150 i j).toNat + 10
  unfold tones
  split
  · rfl
  · rfl

/-- However many frames have come, both thresholds lie between the tones. -/
theorem amid_run (k : ℕ) :
    Amid 50 150 (run bothNext (Otsu.init, Otsu.init) (List.replicate k toneFrames)).1 ∧
      Amid 60 160 (run bothNext (Otsu.init, Otsu.init) (List.replicate k toneFrames)).2 := by
  induction k with
  | zero => exact ⟨.inl ⟨rfl, rfl⟩, .inl ⟨rfl, rfl⟩⟩
  | succ k ih =>
    rw [List.replicate_succ', run_concat]
    exact ⟨.inr (ih.1.next (by decide) (by decide) (by decide) 0),
      .inr (ih.2.next (by decide) (by decide) (by decide) 0)⟩

theorem fair_toneFrames {o : Otsu × Otsu} (h : Amid 50 150 o.1) (h' : Amid 60 160 o.2) :
    Fair 10 o toneFrames := by
  have hcalc := h.calculated (by decide) (by decide) (by decide)
  have hcalc' := h'.calculated (by decide) (by decide) (by decide)
  have hfound := found_tones (by decide) hcalc
  have hfound' := found_tones (by decide) hcalc'
  simp only [UInt8.reduceToNat] at hfound hfound'
  refine ⟨fun _ => ⟨hcalc, hcalc'⟩, fun _ _ => ?_, fun _ hzero => ?_⟩
  · change (o.1.found (tones 50 150)).toNat + 10 ≤ 200 ∧
      20 + 10 ≤ (o.2.found (tones 60 160)).toNat
    omega
  · change o.1.found (tones 50 150) = 0 at hzero
    rw [hzero] at hfound
    exact absurd hfound.1 (by decide)

end SmartCar.MtImage

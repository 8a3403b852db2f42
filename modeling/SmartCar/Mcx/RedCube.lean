import Mathlib.Order.Bounds.Basic
import Mathlib.Order.WellFounded
import SmartCar.Lib.Counting
import SmartCar.Mcx.CubeDetection

/-!
# cube_detection: when the box is right

The tallies are bytes. A column has 240 pixels, so a column's tally is its count;
a row has 320, and a row of 256 to 315 red pixels looks like one of at most 59. So
the box is the box of the red pixels unless its top or its bottom row is such a
row: `meetsSpec_iff`.
-/

namespace SmartCar.Mcx

/-! ## What is to be detected -/

/-- The pixels that pass the red test, by row and column. -/
def redPixels (image : Image) : Finset (Fin scc8660H × Fin scc8660W) :=
  Finset.univ.filter fun p => Red (image p.1 p.2)

/-- How many red pixels column `cx` holds. -/
def inColumn (image : Image) (cx : Fin scc8660W) : ℕ := ((redPixels image).filter (·.2 = cx)).card

/-- How many red pixels row `cy` holds. -/
def inRow (image : Image) (cy : Fin scc8660H) : ℕ := ((redPixels image).filter (·.1 = cy)).card

/-- The columns that hold enough red pixels. -/
def Columns (image : Image) : Set (Fin scc8660W) := {cx | 60 ≤ inColumn image cx}

/-- The rows that hold enough red pixels. -/
def Rows (image : Image) : Set (Fin scc8660H) := {cy | 60 ≤ inRow image cy}

/-- There is a cube in the image. -/
def Visible (image : Image) : Prop :=
  4200 ≤ (redPixels image).card ∧ (Columns image).Nonempty ∧ (Rows image).Nonempty

/-- `info` describes the cube in the image. -/
structure Describes (info : CubeInfo) (image : Image) : Prop where
  xMin : ∃ cx : Fin scc8660W, IsLeast (Columns image) cx ∧ info.xMin = cx
  xMax : ∃ cx : Fin scc8660W, IsGreatest (Columns image) cx ∧ info.xMax = cx
  yMin : ∃ cy : Fin scc8660H, IsLeast (Rows image) cy ∧ info.yMin = cy
  yMax : ∃ cy : Fin scc8660H, IsGreatest (Rows image) cy ∧ info.yMax = cy
  xCenter : (info.xCenter.toNat : ℤ) = (info.xMin + info.xMax) / 2
  yCenter : (info.yCenter.toNat : ℤ) = (info.yMin + info.yMax) / 2
  x_le : info.xMin ≤ info.xMax
  y_le : info.yMin ≤ info.yMax
  pixelCount : info.pixelCount.toNat = (redPixels image).card

/-- `exist` says whether there is a cube, and if so `info` describes it. -/
def MeetsSpec (info : CubeInfo) (image : Image) : Prop :=
  (info.exist = true ↔ Visible image) ∧ (info.exist = true → Describes info image)

/-! ## The tallies -/

theorem tally_eq_foldl (image : Image) :
    tally image = (List.finRange scc8660H ×ˢ List.finRange scc8660W).foldl
      (fun t p => visit image p.1 t p.2) Tally.zero :=
  Counting.foldl_foldl (fun t cy cx => visit image cy t cx) _ _ _

/-- Every pixel is visited once. -/
theorem countP_pixels (p : Fin scc8660H × Fin scc8660W → Prop) [DecidablePred p] :
    (List.finRange scc8660H ×ˢ List.finRange scc8660W).countP (fun a => p a) =
      (Finset.univ.filter p).card :=
  Counting.countP_eq_card ((List.nodup_finRange scc8660H).product (List.nodup_finRange scc8660W))
    (by simp) p

theorem iterate_succ_uint8 (n : ℕ) : (fun c : UInt8 => c + 1)^[n] 0 = .ofNat n := by
  induction n with
  | zero => rfl
  | succ n ih =>
    rw [Function.iterate_succ_apply', ih, UInt8.ofNat_add]
    rfl

theorem iterate_succ_uint32 (n : ℕ) : (fun c : UInt32 => c + 1)^[n] 0 = .ofNat n := by
  induction n with
  | zero => rfl
  | succ n ih =>
    rw [Function.iterate_succ_apply', ih, UInt32.ofNat_add]
    rfl

section Tables

variable (image : Image) (t : Tally) (p : Fin scc8660H × Fin scc8660W)

theorem pixelCount_visit : (visit image p.1 t p.2).pixelCount =
    if Red (image p.1 p.2) then t.pixelCount + 1 else t.pixelCount := by
  unfold visit
  split <;> rfl

theorem pixelXCount_visit (cx : Fin scc8660W) : (visit image p.1 t p.2).pixelXCount cx =
    if Red (image p.1 p.2) ∧ p.2 = cx then t.pixelXCount cx + 1 else t.pixelXCount cx := by
  by_cases hred : Red (image p.1 p.2)
  · by_cases hcx : p.2 = cx
    · subst hcx
      simp [visit, hred]
    · simp [visit, hred, hcx, Function.update_of_ne (Ne.symm hcx)]
  · simp [visit, hred]

theorem pixelYCount_visit (cy : Fin scc8660H) : (visit image p.1 t p.2).pixelYCount cy =
    if Red (image p.1 p.2) ∧ p.1 = cy then t.pixelYCount cy + 1 else t.pixelYCount cy := by
  by_cases hred : Red (image p.1 p.2)
  · by_cases hcy : p.1 = cy
    · subst hcy
      simp [visit, hred]
    · simp [visit, hred, hcy, Function.update_of_ne (Ne.symm hcy)]
  · simp [visit, hred]

end Tables

theorem pixelCount_tally (image : Image) :
    (tally image).pixelCount = .ofNat (redPixels image).card := by
  rw [tally_eq_foldl, redPixels, ← countP_pixels, ← iterate_succ_uint32]
  exact Counting.foldl_eq_iterate Tally.pixelCount (· + 1) _ (pixelCount_visit image) _ _

theorem pixelXCount_tally (image : Image) (cx : Fin scc8660W) :
    (tally image).pixelXCount cx = .ofNat (inColumn image cx) := by
  rw [tally_eq_foldl, inColumn, redPixels, Finset.filter_filter, ← countP_pixels,
    ← iterate_succ_uint8]
  exact Counting.foldl_eq_iterate (fun t : Tally => t.pixelXCount cx) (· + 1) _
    (fun t p => pixelXCount_visit image t p cx) _ _

theorem pixelYCount_tally (image : Image) (cy : Fin scc8660H) :
    (tally image).pixelYCount cy = .ofNat (inRow image cy) := by
  rw [tally_eq_foldl, inRow, redPixels, Finset.filter_filter, ← countP_pixels,
    ← iterate_succ_uint8]
  exact Counting.foldl_eq_iterate (fun t : Tally => t.pixelYCount cy) (· + 1) _
    (fun t p => pixelYCount_visit image t p cy) _ _

/-! ## How many pixels there are -/

theorem card_redPixels_le (image : Image) : (redPixels image).card ≤ 76800 := by
  refine (Finset.card_le_univ (redPixels image)).trans_eq ?_
  rw [Fintype.card_prod, Fintype.card_fin, Fintype.card_fin]
  rfl

theorem inColumn_le (image : Image) (cx : Fin scc8660W) : inColumn image cx ≤ 240 :=
  (Counting.card_fiber_le (redPixels image) (h := Prod.fst)
    (fun _ _ hcx hcy => Prod.ext hcy hcx) cx).trans_eq (Fintype.card_fin _)

theorem inRow_le (image : Image) (cy : Fin scc8660H) : inRow image cy ≤ 320 :=
  (Counting.card_fiber_le (redPixels image) (h := Prod.snd)
    (fun _ _ hcy hcx => Prod.ext hcy hcx) cy).trans_eq (Fintype.card_fin _)

/-- A row whose tally, modulo 256, still reaches the minimum. -/
def Tallied (image : Image) (cy : Fin scc8660H) : Prop :=
  60 ≤ inRow image cy ∧ ¬ (256 ≤ inRow image cy ∧ inRow image cy ≤ 315)

theorem tallied_iff (image : Image) (cy : Fin scc8660H) :
    minYPixelCount ≤ (tally image).pixelYCount cy ↔ Tallied image cy := by
  have := inRow_le image cy
  rw [pixelYCount_tally, UInt8.le_iff_toNat_le, UInt8.toNat_ofNat']
  simp only [minYPixelCount, UInt8.reduceToNat, Tallied]
  omega

theorem columns_iff (image : Image) (cx : Fin scc8660W) :
    minXPixelCount ≤ (tally image).pixelXCount cx ↔ cx ∈ Columns image := by
  have := inColumn_le image cx
  rw [pixelXCount_tally, UInt8.le_iff_toNat_le, UInt8.toNat_ofNat']
  simp only [minXPixelCount, UInt8.reduceToNat, Columns, Set.mem_ofPred_eq]
  omega

theorem few_iff (image : Image) :
    (tally image).pixelCount < minPixelCount ↔ ¬ 4200 ≤ (redPixels image).card := by
  have := card_redPixels_le image
  rw [pixelCount_tally, UInt32.lt_iff_toNat_lt, UInt32.toNat_ofNat']
  simp only [minPixelCount, UInt32.reduceToNat]
  omega

/-! ## The scans -/

theorem readTable_coe {n : ℕ} (table : Fin n → UInt8) (beyond : ℤ → UInt8) (i : Fin n) :
    readTable table beyond (i : ℕ) = table i := by
  simp [readTable]

theorem scanUp_spec (count : ℤ → UInt8) (min : UInt8) {n i : ℤ} (hi : i ≤ n) :
    i ≤ scanUp count min n i ∧ scanUp count min n i ≤ n ∧
      (∀ j, i ≤ j → j < scanUp count min n i → count j < min) ∧
      (scanUp count min n i < n → min ≤ count (scanUp count min n i)) := by
  fun_induction scanUp count min n i with
  | case1 i h ih =>
    rcases ih (by omega) with ⟨hle, hn, hbelow, hat⟩
    refine ⟨by omega, hn, fun j hj hlt => ?_, hat⟩
    -- the entry passed, or one of those that are passed later
    rcases eq_or_lt_of_le hj with rfl | hj
    · exact h.1
    · exact hbelow j hj hlt
  | case2 i h =>
    exact ⟨le_refl _, hi, fun j hj hlt => absurd hlt (by omega),
      fun hlt => UInt8.not_lt.mp fun hmin => h ⟨hmin, hlt⟩⟩

theorem scanDown_spec (count : ℤ → UInt8) (min : UInt8) {i : ℤ} (hi : -1 ≤ i) :
    scanDown count min i ≤ i ∧ -1 ≤ scanDown count min i ∧
      (∀ j, j ≤ i → scanDown count min i < j → count j < min) ∧
      (0 ≤ scanDown count min i → min ≤ count (scanDown count min i)) := by
  fun_induction scanDown count min i with
  | case1 i h ih =>
    rcases ih (by omega) with ⟨hle, hn, habove, hat⟩
    refine ⟨by omega, hn, fun j hj hlt => ?_, hat⟩
    rcases eq_or_lt_of_le hj with rfl | hj
    · exact h.1
    · exact habove j (by omega) hlt
  | case2 i h =>
    exact ⟨le_refl _, hi, fun j hj hlt => absurd hlt (by omega),
      fun hlt => UInt8.not_lt.mp fun hmin => h ⟨hmin, hlt⟩⟩

/-- The scan from below ends at the least entry that reaches the minimum, or past the
end; what lies around the table does not matter. -/
theorem scanUp_readTable {n : ℕ} (table : Fin n → UInt8) (beyond : ℤ → UInt8) (min : UInt8) :
    ((∀ i, ¬ min ≤ table i) ∧ scanUp (readTable table beyond) min n 0 = n) ∨
      ∃ i : Fin n, IsLeast {i | min ≤ table i} i ∧
        scanUp (readTable table beyond) min n 0 = (i : ℕ) := by
  rcases scanUp_spec (readTable table beyond) min (Int.natCast_nonneg n) with ⟨h0, hn, hbelow, hat⟩
  generalize scanUp (readTable table beyond) min n 0 = r at *
  have hbelow' : ∀ i : Fin n, ((i : ℕ) : ℤ) < r → ¬ min ≤ table i := fun i hi => by
    rw [← readTable_coe table beyond i]
    exact UInt8.not_le.mpr (hbelow _ (by omega) hi)
  rcases eq_or_lt_of_le hn with rfl | hlt
  · exact .inl ⟨fun i => hbelow' i (by omega), rfl⟩
  · obtain ⟨i, rfl⟩ : ∃ i : Fin n, ((i : ℕ) : ℤ) = r := ⟨⟨r.toNat, by omega⟩, by simp; omega⟩
    refine .inr ⟨i, ⟨?_, fun j hj => ?_⟩, rfl⟩
    · have := hat hlt
      rwa [readTable_coe] at this
    · by_contra hji
      exact hbelow' j (by simpa using hji) hj

/-- The scan from above, likewise. -/
theorem scanDown_readTable {n : ℕ} (table : Fin n → UInt8) (beyond : ℤ → UInt8) (min : UInt8) :
    ((∀ i, ¬ min ≤ table i) ∧ scanDown (readTable table beyond) min (n - 1) = -1) ∨
      ∃ i : Fin n, IsGreatest {i | min ≤ table i} i ∧
        scanDown (readTable table beyond) min (n - 1) = (i : ℕ) := by
  rcases scanDown_spec (readTable table beyond) min
    (show -1 ≤ (n : ℤ) - 1 by omega) with ⟨hn, h0, habove, hat⟩
  generalize scanDown (readTable table beyond) min (n - 1) = r at *
  have habove' : ∀ i : Fin n, r < ((i : ℕ) : ℤ) → ¬ min ≤ table i := fun i hi => by
    rw [← readTable_coe table beyond i]
    exact UInt8.not_le.mpr (habove _ (by omega) hi)
  rcases eq_or_lt_of_le h0 with rfl | hlt
  · exact .inl ⟨fun i => habove' i (by omega), rfl⟩
  · obtain ⟨i, rfl⟩ : ∃ i : Fin n, ((i : ℕ) : ℤ) = r := ⟨⟨r.toNat, by omega⟩, by simp; omega⟩
    refine .inr ⟨i, ⟨?_, fun j hj => ?_⟩, rfl⟩
    · have := hat (by omega)
      rwa [readTable_coe] at this
    · by_contra hji
      exact habove' j (by simpa using hji) hj

/-! ## The result -/

/-- The rows that the scans see. -/
def TalliedRows (image : Image) : Set (Fin scc8660H) := {cy | Tallied image cy}

/-- The box between two columns and two rows. -/
def boxed (image : Image) (c c' : Fin scc8660W) (y y' : Fin scc8660H) : CubeInfo where
  exist := true
  pixelCount := .ofNat (redPixels image).card
  xCenter := .ofInt (((c : ℕ) + (c' : ℕ) : ℤ) / 2)
  yCenter := .ofInt (((y : ℕ) + (y' : ℕ) : ℤ) / 2)
  xMin := (c : ℕ)
  xMax := (c' : ℕ)
  yMin := (y : ℕ)
  yMax := (y' : ℕ)

/-- What `find_red_cube_center` leaves. -/
theorem findRedCubeCenter_cases (beyondX beyondY : ℤ → UInt8) (image : Image) (info : CubeInfo) :
    (findRedCubeCenter beyondX beyondY image info = { info with exist := false } ∧
      ¬ (4200 ≤ (redPixels image).card ∧ (Columns image).Nonempty ∧
        (TalliedRows image).Nonempty)) ∨
    ∃ c c' y y', 4200 ≤ (redPixels image).card ∧ IsLeast (Columns image) c ∧
      IsGreatest (Columns image) c' ∧ IsLeast (TalliedRows image) y ∧
      IsGreatest (TalliedRows image) y' ∧
      findRedCubeCenter beyondX beyondY image info = boxed image c c' y y' := by
  have hX : {cx | minXPixelCount ≤ (tally image).pixelXCount cx} = Columns image :=
    Set.ext (columns_iff image)
  have hY : {cy | minYPixelCount ≤ (tally image).pixelYCount cy} = TalliedRows image :=
    Set.ext (tallied_iff image)
  have hcol : (∀ cx, ¬ minXPixelCount ≤ (tally image).pixelXCount cx) →
      ¬ (Columns image).Nonempty := fun h ⟨cx, hcx⟩ => h cx ((columns_iff image cx).mpr hcx)
  have hrow : (∀ cy, ¬ minYPixelCount ≤ (tally image).pixelYCount cy) →
      ¬ (TalliedRows image).Nonempty := fun h ⟨cy, hcy⟩ => h cy ((tallied_iff image cy).mpr hcy)
  by_cases hfew : (tally image).pixelCount < minPixelCount
  · exact .inl ⟨by rw [findRedCubeCenter, if_pos hfew], fun h => (few_iff image).mp hfew h.1⟩
  · have hmany : 4200 ≤ (redPixels image).card := by
      by_contra h
      exact hfew ((few_iff image).mpr h)
    have hxMin := scanUp_readTable (tally image).pixelXCount beyondX minXPixelCount
    have hxMax := scanDown_readTable (tally image).pixelXCount beyondX minXPixelCount
    have hyMin := scanUp_readTable (tally image).pixelYCount beyondY minYPixelCount
    have hyMax := scanDown_readTable (tally image).pixelYCount beyondY minYPixelCount
    rw [findRedCubeCenter, if_neg hfew]
    rw [hX] at hxMin hxMax
    rw [hY] at hyMin hyMax
    rcases hxMin with ⟨hnone, hx⟩ | ⟨c, hc, hxMin⟩
    · exact .inl ⟨if_pos (by simp only [hx, true_or]), fun h => hcol hnone h.2.1⟩
    rcases hyMin with ⟨hnone, hy⟩ | ⟨y, hy, hyMin⟩
    · exact .inl ⟨if_pos (by simp only [hy, true_or, or_true]), fun h => hrow hnone h.2.2⟩
    rcases hxMax with ⟨hnone, hx⟩ | ⟨c', hc', hxMax⟩
    · exact .inl ⟨if_pos (by simp only [hx, true_or, or_true]), fun h => hcol hnone h.2.1⟩
    rcases hyMax with ⟨hnone, hy⟩ | ⟨y', hy', hyMax⟩
    · exact .inl ⟨if_pos (by simp only [hy, or_true]), fun h => hrow hnone h.2.2⟩
    · -- all four scans have stopped inside their tables
      have hcW := c.isLt
      have hyH := y.isLt
      refine .inr ⟨c, c', y, y', hmany, hc, hc', hy, hy', ?_⟩
      simp only [hxMin, hyMin, hxMax, hyMax]
      rw [if_neg (by omega), pixelCount_tally]
      rfl

theorem toNat_ofInt_mid {a b n : ℕ} (ha : a < n) (hb : b < n) (hn : n ≤ 65536) :
    ((UInt16.ofInt ((a + b : ℤ) / 2)).toNat : ℤ) = (a + b : ℤ) / 2 := by
  have hz : (a + b : ℤ) / 2 = ((a + b) / 2 : ℕ) := by omega
  rw [hz, UInt16.ofInt, UInt16.toNat_ofNat']
  omega

theorem toNat_pixelCount_boxed (image : Image) (c c' : Fin scc8660W) (y y' : Fin scc8660H) :
    (boxed image c c' y y').pixelCount.toNat = (redPixels image).card := by
  have := card_redPixels_le image
  simp only [boxed, UInt32.toNat_ofNat']
  omega

/-- The centre and the count stay in the ranges that the link relies on. -/
theorem inRange_findRedCubeCenter (beyondX beyondY : ℤ → UInt8) (image : Image)
    {info : CubeInfo} (h : info.InRange) :
    (findRedCubeCenter beyondX beyondY image info).InRange := by
  rcases findRedCubeCenter_cases beyondX beyondY image info with
    ⟨hr, -⟩ | ⟨c, c', y, y', -, -, -, -, -, hr⟩
  · rw [hr]
    exact ⟨h.xCenter, h.yCenter, h.pixelCount⟩
  · have hx := toNat_ofInt_mid c.isLt c'.isLt (by decide)
    have hy := toNat_ofInt_mid y.isLt y'.isLt (by decide)
    have hcW : c.val < 320 := c.isLt
    have hcW' : c'.val < 320 := c'.isLt
    have hyH : y.val < 240 := y.isLt
    have hyH' : y'.val < 240 := y'.isLt
    rw [hr]
    refine ⟨UInt16.lt_iff_toNat_lt.mpr ?_, UInt16.lt_iff_toNat_lt.mpr ?_,
      UInt32.le_iff_toNat_le.mpr ?_⟩
    · change (UInt16.ofInt _).toNat < 320
      omega
    · change (UInt16.ofInt _).toNat < 240
      omega
    · rw [toNat_pixelCount_boxed]
      exact card_redPixels_le image

/-! ## When the result is right -/

/-- The top and the bottom row of the cube have tallies that do not wrap. -/
def RowsCounted (image : Image) : Prop :=
  4200 ≤ (redPixels image).card → (Columns image).Nonempty →
    ∀ cy, IsLeast (Rows image) cy ∨ IsGreatest (Rows image) cy →
      ¬ (256 ≤ inRow image cy ∧ inRow image cy ≤ 315)

theorem talliedRows_subset (image : Image) : TalliedRows image ⊆ Rows image := fun _ h => h.1

theorem describes_boxed {image : Image} {c c' : Fin scc8660W} {y y' : Fin scc8660H}
    (hc : IsLeast (Columns image) c) (hc' : IsGreatest (Columns image) c')
    (hy : IsLeast (Rows image) y) (hy' : IsGreatest (Rows image) y') :
    Describes (boxed image c c' y y') image where
  xMin := ⟨c, hc, rfl⟩
  xMax := ⟨c', hc', rfl⟩
  yMin := ⟨y, hy, rfl⟩
  yMax := ⟨y', hy', rfl⟩
  xCenter := toNat_ofInt_mid c.isLt c'.isLt (by decide)
  yCenter := toNat_ofInt_mid y.isLt y'.isLt (by decide)
  x_le := Int.ofNat_le.mpr (hc.2 hc'.1)
  y_le := Int.ofNat_le.mpr (hy.2 hy'.1)
  pixelCount := toNat_pixelCount_boxed image c c' y y'

/-- If the extreme rows are counted, the extreme rows that the scans see are they. -/
theorem isLeast_rows {image : Image} {y : Fin scc8660H} (hy : IsLeast (TalliedRows image) y)
    (hrows : ∀ cy, IsLeast (Rows image) cy → cy ∈ TalliedRows image) : IsLeast (Rows image) y := by
  rcases wellFounded_lt.has_min (Rows image) ⟨y, talliedRows_subset image hy.1⟩ with ⟨m, hm, hmin⟩
  have hleast : IsLeast (Rows image) m := ⟨hm, fun x hx => not_lt.mp (hmin x hx)⟩
  exact ⟨talliedRows_subset image hy.1, fun x hx => (hy.2 (hrows m hleast)).trans (hleast.2 hx)⟩

theorem isGreatest_rows {image : Image} {y : Fin scc8660H}
    (hy : IsGreatest (TalliedRows image) y)
    (hrows : ∀ cy, IsGreatest (Rows image) cy → cy ∈ TalliedRows image) :
    IsGreatest (Rows image) y := by
  rcases wellFounded_gt.has_min (Rows image) ⟨y, talliedRows_subset image hy.1⟩ with ⟨m, hm, hmax⟩
  have hgreatest : IsGreatest (Rows image) m := ⟨hm, fun x hx => not_lt.mp (hmax x hx)⟩
  exact ⟨talliedRows_subset image hy.1,
    fun x hx => (hgreatest.2 hx).trans (hy.2 (hrows m hgreatest))⟩

/-- Nothing is reported: that is right iff there is no cube. -/
theorem meetsSpec_absent {image : Image} {info : CubeInfo} (hexist : info.exist = false)
    (hnot : ¬ (4200 ≤ (redPixels image).card ∧ (Columns image).Nonempty ∧
      (TalliedRows image).Nonempty)) :
    MeetsSpec info image ↔ RowsCounted image := by
  constructor
  · -- with a row that holds enough there would be a cube
    intro hspec hmany hcol cy hcy
    have hrow : (Rows image).Nonempty := ⟨cy, hcy.elim (·.1) (·.1)⟩
    have := hspec.1.mpr ⟨hmany, hcol, hrow⟩
    simp [hexist] at this
  · intro hrows
    refine ⟨⟨fun h => by simp [hexist] at h, fun hvisible => ?_⟩, fun h => by simp [hexist] at h⟩
    rcases hvisible with ⟨hmany, hcol, hrow⟩
    -- the top row would be tallied, and the scans would have seen it
    rcases wellFounded_lt.has_min (Rows image) hrow with ⟨m, hm, hmin⟩
    have hleast : IsLeast (Rows image) m := ⟨hm, fun x hx => not_lt.mp (hmin x hx)⟩
    exact absurd ⟨hmany, hcol, m, hm, hrows hmany hcol m (.inl hleast)⟩ hnot

/-- A box is reported: that is right iff its rows are the extreme ones. -/
theorem meetsSpec_boxed {image : Image} {c c' : Fin scc8660W} {y y' : Fin scc8660H}
    (hmany : 4200 ≤ (redPixels image).card) (hc : IsLeast (Columns image) c)
    (hc' : IsGreatest (Columns image) c') (hy : IsLeast (TalliedRows image) y)
    (hy' : IsGreatest (TalliedRows image) y') :
    MeetsSpec (boxed image c c' y y') image ↔ RowsCounted image := by
  constructor
  · intro hspec _ _ cy hcy
    have hdesc := hspec.2 rfl
    rcases hcy with hcy | hcy
    · -- the top row of the box is one that the scan has seen
      rcases hdesc.yMin with ⟨m, hm, heq⟩
      have : cy = y := (hcy.unique hm).trans (Fin.ext (Int.ofNat_inj.mp heq.symm))
      exact this ▸ hy.1.2
    · rcases hdesc.yMax with ⟨m, hm, heq⟩
      have : cy = y' := (hcy.unique hm).trans (Fin.ext (Int.ofNat_inj.mp heq.symm))
      exact this ▸ hy'.1.2
  · intro hrows
    -- the extreme rows are tallied, so the scans stop there
    have hcounted := hrows hmany ⟨c, hc.1⟩
    have hleast := isLeast_rows hy fun cy h => ⟨h.1, hcounted cy (.inl h)⟩
    have hgreatest := isGreatest_rows hy' fun cy h => ⟨h.1, hcounted cy (.inr h)⟩
    exact ⟨⟨fun _ => ⟨hmany, ⟨c, hc.1⟩, ⟨y, hleast.1⟩⟩, fun _ => rfl⟩,
      fun _ => describes_boxed hc hc' hleast hgreatest⟩

/-- The result is right exactly for the images whose top and bottom row are counted. -/
theorem meetsSpec_iff (beyondX beyondY : ℤ → UInt8) (image : Image) (info : CubeInfo) :
    MeetsSpec (findRedCubeCenter beyondX beyondY image info) image ↔ RowsCounted image := by
  rcases findRedCubeCenter_cases beyondX beyondY image info with
    ⟨hr, hnot⟩ | ⟨c, c', y, y', hmany, hc, hc', hy, hy', hr⟩
  · rw [hr]
    exact meetsSpec_absent rfl hnot
  · rw [hr]
    exact meetsSpec_boxed hmany hc hc' hy hy'

/-! ## A wide cube -/

/-- The left 256 columns are pure red (the bytes of the pixel swapped). -/
def wide : Image := fun _ cx => if cx.val < 256 then 0x00F8 else 0

theorem red_wide (cy : Fin scc8660H) (cx : Fin scc8660W) : Red (wide cy cx) ↔ cx.val < 256 := by
  have hin : Red 0x00F8 := by decide
  have hout : ¬ Red 0 := by decide
  by_cases h : cx.val < 256 <;> simp [wide, h, hin, hout]

theorem mem_redPixels_wide (p : Fin scc8660H × Fin scc8660W) :
    p ∈ redPixels wide ↔ p.2.val < 256 := by
  simp only [redPixels, Finset.mem_filter, Finset.mem_univ, true_and, red_wide]

theorem redPixels_wide :
    redPixels wide = Finset.univ ×ˢ Finset.univ.filter fun cx => cx.val < 256 := by
  ext p
  simp [mem_redPixels_wide, Finset.mem_product]

theorem card_left : (Finset.univ.filter fun cx : Fin scc8660W => cx.val < 256).card = 256 := by
  decide +kernel

theorem inRow_wide (cy : Fin scc8660H) : inRow wide cy = 256 := by
  have hrow : (redPixels wide).filter (·.1 = cy) =
      {cy} ×ˢ Finset.univ.filter fun cx => cx.val < 256 := by
    ext p
    simp only [Finset.mem_filter, mem_redPixels_wide, Finset.mem_product, Finset.mem_singleton,
      Finset.mem_univ, true_and, and_comm]
  rw [inRow, hrow, Finset.card_product, card_left, Finset.card_singleton]

theorem visible_wide : Visible wide := by
  refine ⟨?_, ⟨⟨0, by decide⟩, ?_⟩, ⟨⟨0, by decide⟩, ?_⟩⟩
  · rw [redPixels_wide, Finset.card_product, card_left, Finset.card_univ, Fintype.card_fin]
    decide
  · have hcol : (redPixels wide).filter (·.2 = ⟨0, by decide⟩) =
        Finset.univ ×ˢ {⟨0, by decide⟩} := by
      ext p
      simp only [Finset.mem_filter, mem_redPixels_wide, Finset.mem_product, Finset.mem_univ,
        Finset.mem_singleton, true_and, and_iff_right_iff_imp]
      intro h
      simp [h]
    have hcard : inColumn wide ⟨0, by decide⟩ = scc8660H := by
      rw [inColumn, hcol, Finset.card_product, Finset.card_univ, Fintype.card_fin,
        Finset.card_singleton, mul_one]
    exact (by decide : 60 ≤ scc8660H).trans_eq hcard.symm
  · exact (by decide : 60 ≤ 256).trans_eq (inRow_wide _).symm

/-- Every row holds 256 red pixels, whose tally is 0: no cube is seen. -/
theorem wide_not_seen :
    ¬ MeetsSpec (findRedCubeCenter (fun _ => 0) (fun _ => 0) wide
      ⟨false, 0, 0, 0, 0, 0, 0, 0⟩) wide := by
  intro hspec
  have hexist := hspec.1.mpr visible_wide
  rcases findRedCubeCenter_cases (fun _ => 0) (fun _ => 0) wide ⟨false, 0, 0, 0, 0, 0, 0, 0⟩ with
    ⟨hr, -⟩ | ⟨c, c', y, y', -, -, -, hy, -⟩
  · simp [hr] at hexist
  · exact hy.1.2 (by rw [inRow_wide]; decide)

end SmartCar.Mcx

import SmartCar.Mcx.RedCube

/-!
# cube_detection: where the scans read

The four loops that look for the box of the cube test their index after they have read the
table with it. `scanUpReads` and `scanDownReads` are the indices read; they stay in the table
if and only if some entry reaches the minimum (`scanUpReads_in_iff`, `scanDownReads_in_iff`).
A count of red pixels does not guarantee that: `reads_in_tables_iff`.
-/

namespace SmartCar.Mcx

/-! ## The indices read -/

/-- The indices that `while (count[i] < min && i < n) i ++;` reads, one for each evaluation
of its condition. -/
def scanUpReads (count : ℤ → UInt8) (min : UInt8) (n i : ℤ) : List ℤ :=
  i :: if count i < min ∧ i < n then scanUpReads count min n (i + 1) else []
termination_by (n - i).toNat

/-- The indices that `while (count[i] < min && i >= 0) i --;` reads. -/
def scanDownReads (count : ℤ → UInt8) (min : UInt8) (i : ℤ) : List ℤ :=
  i :: if count i < min ∧ i ≥ 0 then scanDownReads count min (i - 1) else []
termination_by (i + 1).toNat

/-- The indices at which the conditions of the two loops over `pixel_x_count` read it. -/
def xReads (beyondX : ℤ → UInt8) (image : Image) : List ℤ :=
  let t := tally image
  let xCount := readTable t.pixelXCount beyondX
  if t.pixelCount < minPixelCount then []
  else scanUpReads xCount minXPixelCount scc8660W 0 ++
    scanDownReads xCount minXPixelCount (scc8660W - 1)

/-- The indices at which the conditions of the two loops over `pixel_y_count` read it. -/
def yReads (beyondY : ℤ → UInt8) (image : Image) : List ℤ :=
  let t := tally image
  let yCount := readTable t.pixelYCount beyondY
  if t.pixelCount < minPixelCount then []
  else scanUpReads yCount minYPixelCount scc8660H 0 ++
    scanDownReads yCount minYPixelCount (scc8660H - 1)

/-- All of them are indices of the table. -/
def InTable (n : ℕ) (reads : List ℤ) : Prop := ∀ i ∈ reads, 0 ≤ i ∧ i < n

/-- Every evaluation of a loop condition reads inside its table. -/
def ReadsInTables (beyondX beyondY : ℤ → UInt8) (image : Image) : Prop :=
  InTable scc8660W (xReads beyondX image) ∧ InTable scc8660H (yReads beyondY image)

theorem inTable_append {n : ℕ} {as bs : List ℤ} :
    InTable n (as ++ bs) ↔ InTable n as ∧ InTable n bs := List.forall_mem_append

/-! ## One scan -/

/-- A scan reads from where it begins to where it ends. -/
theorem mem_scanUpReads {count : ℤ → UInt8} {min : UInt8} {n i j : ℤ} (hi : i ≤ n) :
    j ∈ scanUpReads count min n i ↔ i ≤ j ∧ j ≤ scanUp count min n i := by
  fun_induction scanUp count min n i with
  | case1 i h ih =>
    have hle := (scanUp_spec count min (show i + 1 ≤ n by omega)).1
    rw [scanUpReads, if_pos h, List.mem_cons, ih (by omega)]
    omega
  | case2 i h =>
    rw [scanUpReads, if_neg h, List.mem_singleton]
    omega

theorem mem_scanDownReads {count : ℤ → UInt8} {min : UInt8} {i j : ℤ} (hi : -1 ≤ i) :
    j ∈ scanDownReads count min i ↔ scanDown count min i ≤ j ∧ j ≤ i := by
  fun_induction scanDown count min i with
  | case1 i h ih =>
    have hle := (scanDown_spec count min (show -1 ≤ i - 1 by omega)).1
    rw [scanDownReads, if_pos h, List.mem_cons, ih (by omega)]
    omega
  | case2 i h =>
    rw [scanDownReads, if_neg h, List.mem_singleton]
    omega

section

variable {n : ℕ} (table : Fin n → UInt8) (beyond : ℤ → UInt8) (min : UInt8)

theorem scanUpReads_in_iff :
    InTable n (scanUpReads (readTable table beyond) min n 0) ↔ ∃ i, min ≤ table i := by
  have hmem := fun j => @mem_scanUpReads (readTable table beyond) min n 0 j (Int.natCast_nonneg n)
  rcases scanUp_readTable table beyond min with ⟨hnone, hend⟩ | ⟨i, hi, hend⟩
  · -- no entry reaches the minimum: the last index read is the length
    rw [hend] at hmem
    constructor
    · intro hin
      have := (hin n ((hmem n).mpr ⟨Int.natCast_nonneg n, le_rfl⟩)).2
      omega
    · rintro ⟨i, hi⟩
      exact absurd hi (hnone i)
  · rw [hend] at hmem
    have hlt := i.isLt
    refine iff_of_true (fun j hj => ?_) ⟨i, hi.1⟩
    have := (hmem j).mp hj
    omega

theorem scanDownReads_in_iff :
    InTable n (scanDownReads (readTable table beyond) min (n - 1)) ↔ ∃ i, min ≤ table i := by
  have hmem := fun j => @mem_scanDownReads (readTable table beyond) min ((n : ℤ) - 1) j (by omega)
  rcases scanDown_readTable table beyond min with ⟨hnone, hend⟩ | ⟨i, hi, hend⟩
  · rw [hend] at hmem
    constructor
    · intro hin
      have := (hin (-1) ((hmem (-1)).mpr ⟨le_rfl, by omega⟩)).1
      omega
    · rintro ⟨i, hi⟩
      exact absurd hi (hnone i)
  · rw [hend] at hmem
    refine iff_of_true (fun j hj => ?_) ⟨i, hi.1⟩
    have := (hmem j).mp hj
    omega

end

/-! ## The box -/

/-- In an image with enough red pixels the loops read inside their tables if and only if some
column holds enough of them, and some row, as it is tallied. -/
theorem reads_in_tables_iff (beyondX beyondY : ℤ → UInt8) (image : Image)
    (hmany : 4200 ≤ (redPixels image).card) :
    ReadsInTables beyondX beyondY image ↔
      (Columns image).Nonempty ∧ (TalliedRows image).Nonempty := by
  have hcount : ¬ (tally image).pixelCount < minPixelCount := fun hfew =>
    (few_iff image).mp hfew hmany
  have hX : (∃ cx, minXPixelCount ≤ (tally image).pixelXCount cx) ↔ (Columns image).Nonempty :=
    exists_congr (columns_iff image)
  have hY : (∃ cy, minYPixelCount ≤ (tally image).pixelYCount cy) ↔ (TalliedRows image).Nonempty :=
    exists_congr (tallied_iff image)
  unfold ReadsInTables xReads yReads
  simp only [if_neg hcount, inTable_append, scanUpReads_in_iff, scanDownReads_in_iff, hX, hY,
    and_self]

/-! ## A flat cube -/

/-- The first 14 rows are pure red (the bytes of the pixel swapped). -/
def flat : Image := fun cy _ => if cy.val < 14 then 0x00F8 else 0

theorem red_flat (cy : Fin scc8660H) (cx : Fin scc8660W) : Red (flat cy cx) ↔ cy.val < 14 := by
  have hin : Red 0x00F8 := by decide
  have hout : ¬ Red 0 := by decide
  by_cases h : cy.val < 14 <;> simp [flat, h, hin, hout]

theorem redPixels_flat :
    redPixels flat = (Finset.univ.filter fun cy => cy.val < 14) ×ˢ Finset.univ := by
  ext p
  simp [redPixels, red_flat, Finset.mem_product]

theorem card_top : (Finset.univ.filter fun cy : Fin scc8660H => cy.val < 14).card = 14 := by
  decide +kernel

theorem many_flat : 4200 ≤ (redPixels flat).card := by
  rw [redPixels_flat, Finset.card_product, card_top, Finset.card_univ, Fintype.card_fin]
  decide

theorem inColumn_flat (cx : Fin scc8660W) : inColumn flat cx = 14 := by
  have hcol : (redPixels flat).filter (·.2 = cx) =
      (Finset.univ.filter fun cy => cy.val < 14) ×ˢ {cx} := by
    ext p
    simp only [redPixels_flat, Finset.mem_filter, Finset.mem_product, Finset.mem_univ, true_and,
      and_true, Finset.mem_singleton]
  rw [inColumn, hcol, Finset.card_product, card_top, Finset.card_singleton]

theorem columns_flat : ¬ (Columns flat).Nonempty := by
  rintro ⟨cx, hcx⟩
  have hle : 60 ≤ inColumn flat cx := hcx
  rw [inColumn_flat] at hle
  exact absurd hle (by decide)

theorem reads_in_tables_iff_flat :
    ReadsInTables (fun _ => 0) (fun _ => 0) flat ↔
      (Columns flat).Nonempty ∧ (TalliedRows flat).Nonempty :=
  reads_in_tables_iff _ _ flat many_flat

/-- Every column holds 14 red pixels: the scans over the columns leave their table. -/
theorem flat_not_in_tables :
    ¬ (4200 ≤ (redPixels flat).card → ReadsInTables (fun _ => 0) (fun _ => 0) flat) := by
  intro h
  obtain ⟨hx, -⟩ := h many_flat
  have hcount : ¬ (tally flat).pixelCount < minPixelCount := fun hfew =>
    (few_iff flat).mp hfew many_flat
  simp only [xReads, if_neg hcount, inTable_append, scanUpReads_in_iff] at hx
  obtain ⟨cx, hcx⟩ := hx.1
  exact columns_flat ⟨cx, (columns_iff flat cx).mp hcx⟩

end SmartCar.Mcx

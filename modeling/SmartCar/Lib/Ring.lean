import Mathlib.Data.Nat.ModEq
import Mathlib.Tactic.Common

/-!
# Ring buffers

The elements of a queue in `n` cells that are used in turn: they stand in a row from some cell
on, and go on in the first cell where the row reaches the end.

* `window`: the elements from a cell on, round the end;
* `put` and `get` copy a block to or from cells in a row; past the end they fail;
* `window_put`: a block put behind a window lengthens it;
* `window_take` and `window_drop`: the parts of a window are windows.
-/

namespace Ring

variable {α : Type*} {n : ℕ} {cells cells' : Vector α n} {block : List α}

/-! ## Blocks -/

/-- Copy a block to the cells from `p` on. -/
def put (cells : Vector α n) (p : ℕ) (block : List α) : Option (Vector α n) :=
  if p + block.length ≤ n then
    some (.ofFn fun i => if i < p then cells.get i else (block[(i : ℕ) - p]?).getD (cells.get i))
  else none

/-- Copy the `k` cells from `p` on. -/
def get (cells : Vector α n) (p k : ℕ) : Option (List α) :=
  if p + k ≤ n ∨ k = 0 then some ((cells.toList.drop p).take k) else none

/-- A block that fits is put, -/
theorem exists_put {p : ℕ} (h : p + block.length ≤ n) : ∃ cells', put cells p block = some cells' :=
  ⟨_, if_pos h⟩

/-- and no other is. -/
theorem length_of_put {p : ℕ} (h : put cells p block = some cells') : p + block.length ≤ n := by
  unfold put at h
  split_ifs at h with hp
  exact hp

/-- No cells at all can be got from anywhere. -/
theorem get_zero (cells : Vector α n) (p : ℕ) : get cells p 0 = some [] := by
  simp [get]

/-- Past the end nothing is got. -/
theorem get_eq_none {p k : ℕ} (h : n < p + k) (hk : 0 < k) : get cells p k = none := by
  rw [get, if_neg]
  omega

/-! ## Windows -/

variable [NeZero n]

/-- The element `i` cells after the first cell, round the end. -/
def cell (cells : Vector α n) (i : ℕ) : α := cells.get (Fin.ofNat n i)

/-- The `k` elements from cell `start` on, round the end. -/
def window (cells : Vector α n) (start k : ℕ) : List α :=
  (List.range k).map fun i => cell cells (start + i)

@[simp] theorem length_window (cells : Vector α n) (start k : ℕ) :
    (window cells start k).length = k := by
  simp [window]

@[simp] theorem window_zero (cells : Vector α n) (start : ℕ) : window cells start 0 = [] := rfl

/-- The cells go round, -/
theorem cell_mod (cells : Vector α n) (i : ℕ) : cell cells (i % n) = cell cells i := by
  simp [cell, Fin.ofNat]

/-- and so do windows. -/
theorem window_mod (cells : Vector α n) (start k : ℕ) :
    window cells (start % n) k = window cells start k := by
  apply List.map_congr_left
  intro i _
  rw [← cell_mod, Nat.mod_add_mod, cell_mod]

/-- A window, and the one that follows it. -/
theorem window_add (cells : Vector α n) (start j k : ℕ) :
    window cells start (j + k) = window cells start j ++ window cells (start + j) k := by
  simp [window, List.range_add, Function.comp_def, Nat.add_assoc]

/-- The beginning of a window, -/
theorem window_take (cells : Vector α n) (start : ℕ) {j k : ℕ} (h : j ≤ k) :
    (window cells start k).take j = window cells start j := by
  obtain ⟨l, rfl⟩ := Nat.exists_eq_add_of_le h
  rw [window_add, List.take_left' (length_window cells start j)]

/-- and its end. -/
theorem window_drop (cells : Vector α n) (start : ℕ) {j k : ℕ} (h : j ≤ k) :
    (window cells start k).drop j = window cells (start + j) (k - j) := by
  obtain ⟨l, rfl⟩ := Nat.exists_eq_add_of_le h
  rw [window_add, List.drop_left' (length_window cells start j), Nat.add_sub_cancel_left]

/-- A window sees its own cells only. -/
theorem window_congr {start k : ℕ} (h : ∀ i < k, cell cells' (start + i) = cell cells (start + i)) :
    window cells' start k = window cells start k := by
  apply List.map_congr_left
  intro i hi
  exact h i (List.mem_range.mp hi)

/-- A window is known from its cells. -/
theorem window_eq_of_cells {start : ℕ}
    (h : ∀ j (hj : j < block.length), cell cells (start + j) = block[j]) :
    window cells start block.length = block := by
  apply List.ext_getElem
  · exact length_window cells start block.length
  · intro j _ hj
    simpa [window] using h j hj

/-! ## A block in a window -/

/-- A block that has been put is seen where it lies, and nowhere else. -/
theorem cell_put {p : ℕ} (h : put cells p block = some cells') (i : ℕ) :
    cell cells' i =
      if i % n < p then cell cells i else (block[i % n - p]?).getD (cell cells i) := by
  unfold put at h
  split_ifs at h
  obtain rfl := Option.some.inj h
  simp only [cell, Vector.get, Fin.ofNat, Vector.toArray_ofFn, Array.getElem_ofFn]
  rfl

/-- A block that is put behind a window lengthens it. -/
theorem window_put {start k p : ℕ} (h : put cells p block = some cells')
    (hp : p = (start + k) % n) (hroom : k + block.length ≤ n) :
    window cells' start (k + block.length) = window cells start k ++ block := by
  have hend := length_of_put h
  rw [window_add]
  congr 1
  · -- the cells of the window come before the block, or after it
    apply window_congr
    intro i hi
    rw [cell_put h]
    split_ifs with hbefore
    · rfl
    · rw [List.getElem?_eq_none, Option.getD_none]
      by_contra hinside
      -- a cell inside the block is as far from the start as its element
      have hmod : (start + i) % n = (start + (k + ((start + i) % n - p))) % n := by
        rw [← Nat.add_assoc, ← Nat.mod_add_mod (start + k), ← hp,
          Nat.add_sub_cancel' (not_lt.mp hbefore), Nat.mod_mod]
      have heq : i = k + ((start + i) % n - p) :=
        Nat.ModEq.eq_of_lt_of_lt (Nat.ModEq.add_left_cancel' start hmod) (by omega) (by omega)
      omega
  · apply window_eq_of_cells
    intro j hj
    have hmod : (start + k + j) % n = p + j := by
      rw [← Nat.mod_add_mod, ← hp, Nat.mod_eq_of_lt (by omega)]
    rw [cell_put h, hmod, if_neg (by omega), Nat.add_sub_cancel_left, List.getElem?_eq_getElem hj,
      Option.getD_some]

/-- Cells in a row that do not reach past the end are a window. -/
theorem get_eq_window {p k : ℕ} (h : p + k ≤ n) (cells : Vector α n) :
    get cells p k = some (window cells p k) := by
  rw [get, if_pos (.inl h)]
  congr 1
  apply List.ext_getElem
  · simp
    omega
  · intro i hi hi'
    have hlt : p + i < n := by
      rw [length_window] at hi'
      omega
    simp [window, cell, Vector.get, Fin.ofNat, Nat.mod_eq_of_lt hlt]

end Ring

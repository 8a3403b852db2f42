import SmartCar.Menu.MainLoop

/-!
# menu: the row of the parameter

The rows of a table are numbered from 1, and `key_adjust_param` looks up the entry before the
number. But `param_table_selected_row` is 0 at power-up, and stays so until KEY_2 has been
served on the page of the parameters.

* `RowInv`: the row is 0 until then, and a row of the table from then on;
* `adjusts_in_table_iff`: the entry exists at each adjustment if and only if a row has been
  selected before it.
-/

namespace SmartCar.Menu

open Events

variable {ids : PageIds} {m m₀ : Machine} {e : KeyEvent}

/-! ## Law and condition -/

/-- The next step looks up a parameter, for one of the two keys. -/
def Adjusts (m : Machine) : KeyEvent → Prop
  | .main => ∃ plusPressed minusPressed,
      m.pc = .adjust plusPressed minusPressed ∧ plusPressed ≠ minusPressed
  | .scan _ => False

/-- The index at which it is looked up is one of the table. -/
def AdjustsInTable (_ : List KeyEvent) (m : Machine) (e : KeyEvent) : Prop :=
  Adjusts m e → InTable m.menu.paramIndex

/-- The next step selects a row in the table of the parameters. -/
def SelectsParam (ids : PageIds) (_ : List KeyEvent) (m : Machine) : KeyEvent → Prop
  | .main => m.pc = .nextRow ∧ m.menu.currentPageId ≠ ids.cubeInfo ∧
      m.menu.currentPageId = ids.param
  | .scan _ => False

instance (before : List KeyEvent) : Decidable (SelectsParam ids before m e) :=
  match e with
  | .main => inferInstanceAs (Decidable (_ ∧ _))
  | .scan _ => inferInstanceAs (Decidable False)

/-- A row has been selected before a parameter is adjusted. -/
def SelectedBefore (ids : PageIds) (m₀ : Machine) (before : List KeyEvent) (m : Machine)
    (e : KeyEvent) : Prop :=
  Adjusts m e → Happened (keyStep ids) m₀ (SelectsParam ids) before

/-! ## The selected row -/

/-- No other step touches the row. -/
theorem paramTableSelectedRow_keyStep (ids : PageIds) (before : List KeyEvent) (m : Machine)
    (e : KeyEvent) :
    (keyStep ids m e).menu.paramTableSelectedRow =
      if SelectsParam ids before m e then
        nextRow (.ofNat paramCount) m.menu.paramTableSelectedRow
      else m.menu.paramTableSelectedRow := by
  cases e with
  | scan levels => rfl
  | main =>
    obtain ⟨s, pc⟩ := m
    cases pc with
    | nextRow =>
      -- on the page of the cubes another row is selected
      simp only [keyStep, mainStep, State.selectRow, SelectsParam, true_and]
      split_ifs with hcube hselects hparam hselects hselects
      · exact absurd hcube hselects.1
      · rfl
      · rfl
      · exact absurd ⟨hcube, hparam⟩ hselects
      · exact absurd hselects.2 hparam
      · rfl
    | adjust plusPressed minusPressed =>
      rw [if_neg (by simp [SelectsParam])]
      exact (adjust_frame ids s plusPressed minusPressed).2.1
    | _ => simp [keyStep, mainStep, SelectsParam]

/-- The row is 0 until one has been selected, and then a row of the table. -/
structure RowInv (ids : PageIds) (m₀ : Machine) (before : List KeyEvent) (m : Machine) : Prop where
  le : m.menu.paramTableSelectedRow.toNat ≤ paramCount
  zero_iff : m.menu.paramTableSelectedRow = 0 ↔
    ¬ Happened (keyStep ids) m₀ (SelectsParam ids) before

theorem nextRow_mem {row : UInt8} (h : row.toNat ≤ paramCount) :
    (nextRow (.ofNat paramCount) row).toNat ≤ paramCount ∧
      nextRow (.ofNat paramCount) row ≠ 0 := by
  have hparam : paramCount = 3 := rfl
  unfold nextRow
  split_ifs with hlast
  · exact ⟨by decide, by decide⟩
  · have hne : row.toNat ≠ 3 := fun heq => hlast (UInt8.toNat_inj.mp heq)
    have hnext : (row + 1).toNat = row.toNat + 1 := by
      rw [UInt8.toNat_add, UInt8.toNat_one]
      omega
    refine ⟨by omega, fun hzero => ?_⟩
    rw [hzero] at hnext
    simp at hnext

theorem rowInv_run (h : m₀.menu.paramTableSelectedRow = 0) :
    ∀ tr, RowInv ids m₀ tr (run (keyStep ids) m₀ tr) := by
  refine run_induction (keyStep ids) m₀ (RowInv ids m₀) ⟨by simp [h], by simp [h]⟩ ?_
  intro tr e inv
  have hrow := paramTableSelectedRow_keyStep ids tr (run (keyStep ids) m₀ tr) e
  by_cases hselects : SelectsParam ids tr (run (keyStep ids) m₀ tr) e
  · -- the first row after 0 is 1, and no later one is 0
    rw [if_pos hselects] at hrow
    obtain ⟨hle, hne⟩ := nextRow_mem inv.le
    refine ⟨by rwa [hrow], ?_⟩
    rw [hrow, happened_concat]
    simp [hne, hselects]
  · rw [if_neg hselects] at hrow
    refine ⟨by rw [hrow]; exact inv.le, ?_⟩
    rw [hrow, happened_concat, inv.zero_iff]
    simp [hselects]

/-! ## The law -/

theorem RowInv.inTable_iff {before : List KeyEvent} (inv : RowInv ids m₀ before m) :
    InTable m.menu.paramIndex ↔ Happened (keyStep ids) m₀ (SelectsParam ids) before := by
  have hzero : m.menu.paramTableSelectedRow = 0 ↔ m.menu.paramTableSelectedRow.toNat = 0 := by
    rw [← UInt8.toNat_inj]
    rfl
  have hle := inv.le
  rw [← not_iff_not, ← inv.zero_iff, hzero, InTable, State.paramIndex]
  omega

/-- In every run each parameter that is adjusted is one of the table, if and only if a row has
been selected before the first adjustment. -/
theorem adjusts_in_table_iff (ids : PageIds) (m₀ : Machine)
    (h : m₀.menu.paramTableSelectedRow = 0) (tr : List KeyEvent) :
    Along (keyStep ids) m₀ AdjustsInTable tr ↔ Along (keyStep ids) m₀ (SelectedBefore ids m₀) tr :=
  along_congr (keyStep ids) m₀ _ _
    (fun before _ => imp_congr_right fun _ => (rowInv_run h before).inTable_iff) tr

/-! ## An adjustment before a row is selected -/

/-- KEY_1 takes the menu to the parameters, and there KEY_3 is the first key to be pressed. -/
def eager : List KeyEvent :=
  [held .key1, released] ++ List.replicate 7 .main ++
    [held .key1, released] ++ List.replicate 9 .main ++
    [held .key3, released] ++ List.replicate 6 .main

theorem adjusts_in_table_iff_eager :
    Along (keyStep boardIds) (powerUp boardIds) AdjustsInTable eager ↔
      Along (keyStep boardIds) (powerUp boardIds)
        (SelectedBefore boardIds (powerUp boardIds)) eager :=
  adjusts_in_table_iff boardIds (powerUp boardIds) rfl eager

/-- The next step looks up the entry before the table. -/
theorem eager_outside :
    ¬ Along (keyStep boardIds) (powerUp boardIds) AdjustsInTable (eager ++ [.main]) := by
  intro h
  have hpc : (run (keyStep boardIds) (powerUp boardIds) eager).pc = .adjust true false := by
    decide +kernel
  have hindex : (run (keyStep boardIds) (powerUp boardIds) eager).menu.paramIndex = -1 := by
    decide +kernel
  have hin := ((along_concat _ _ _ _ _).mp h).2 ⟨true, false, hpc, by decide⟩
  rw [hindex] at hin
  exact absurd hin (by decide)

end SmartCar.Menu

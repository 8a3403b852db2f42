import SmartCar.Lib.Visits
import SmartCar.Motion.PushSafety

/-!
# motion_control: the books of the pushes

A run of `motion_mode_calc` is audited: how many cubes it has identified (calls of
`cube_info_add`), how many it has pushed (entries into `CUBE_PUSH`), how often it has come
back to the line from a push, and what `cube_info_list` holds.

`push_ledger` balances the books for every run, from any state: no cube is pushed that was
not identified, none that was identified is passed over, no push is left without a return,
and the list holds the first labels of those identified, in order, up to 13.
-/

namespace SmartCar.Motion

open Art Mcx Events

/-! ## The entries of the books -/

/-- The car turns to the side on which it will push. -/
def Aiming (s : State) : Prop := s.motionMode = .cubeAnglePosition

/-- The car is off the line with a cube, or on the way back without it. -/
def Away (s : State) : Prop := Late s.motionMode

/-- The car has come back from a push. -/
def Returns (s : State) (r : Readings) : Prop :=
  s.motionMode = .lineAngleBack ∧ (motionModeCalc s r).motionMode = .lineFollow

/-- The car begins to push. -/
def Pushes (s : State) (r : Readings) : Prop :=
  s.motionMode ≠ .cubePush ∧ (motionModeCalc s r).motionMode = .cubePush

instance (s : State) : Decidable (Aiming s) := inferInstanceAs (Decidable (_ = _))

instance (s : State) : Decidable (Away s) := inferInstanceAs (Decidable (_ ∨ _))

instance (s : State) (r : Readings) : Decidable (Returns s r) := inferInstanceAs (Decidable (_ ∧ _))

instance (s : State) (r : Readings) : Decidable (Pushes s r) := inferInstanceAs (Decidable (_ ∧ _))

/-- What a call passes to `cube_info_add`. -/
def label (c : Call) : Option CubeFaceInfo :=
  if Adds c then
    some { valid := true, cls := c.2.currentCubeFaceInfo.cls, classProb := ⟨.fin 0, none⟩
           number := c.2.currentCubeFaceInfo.number, numberProb := .fin 0 }
  else none

/-- The labels of the cubes identified, in order. -/
def labels (calls : List Call) : List CubeFaceInfo := calls.filterMap label

theorem length_labels (calls : List Call) : (labels calls).length = additions calls := by
  rw [labels, List.length_filterMap_eq_countP, additions]
  apply List.countP_congr
  intro c _
  by_cases hadds : Adds c <;> simp [label, hadds]

/-! ## What passes from one entry to the next -/

variable {s s' : State} {r : Readings}

/-- To identify a cube is to start aiming. -/
theorem adds_iff_enters : Adds (s, r) ↔ Enters motionModeCalc Aiming s r := by
  rw [adds_iff]
  have ht := transition_motionModeCalc s r
  simp only [Enters, Aiming]
  constructor
  · rintro ⟨hmode, hmode'⟩
    exact ⟨by rw [hmode]; decide, hmode'⟩
  · rintro ⟨hmode, hmode'⟩
    refine ⟨?_, hmode'⟩
    generalize motionModeCalc s r = s' at ht hmode'
    cases ht with
    | identified hidentify => exact hidentify
    | _ => simp_all [State.enter]

/-- To stop aiming is to push. -/
theorem leaves_aiming_iff : Leaves motionModeCalc Aiming s r ↔ Pushes s r := by
  have ht := transition_motionModeCalc s r
  simp only [Leaves, Aiming, Pushes]
  generalize motionModeCalc s r = s' at ht
  cases ht with
  | turned hmode => simp [State.enter, hmode]
  | _ => simp_all [State.enter]

/-- To push is to go away from the line. -/
theorem enters_away_iff : Enters motionModeCalc Away s r ↔ Pushes s r := by
  have ht := transition_motionModeCalc s r
  simp only [Enters, Away, Late, Pushes]
  generalize motionModeCalc s r = s' at ht
  cases ht with
  | turned hmode => simp [State.enter, hmode]
  | _ => simp_all [State.enter]

/-- A car that is away comes back by `LINE_ANGLE_BACK` only. -/
theorem leaves_away_iff : Leaves motionModeCalc Away s r ↔ Returns s r := by
  have ht := transition_motionModeCalc s r
  simp only [Leaves, Away, Returns]
  generalize motionModeCalc s r = s' at ht
  cases ht with
  | aligned hmode => simp [Late, State.enter, hmode]
  | stay hne =>
    -- one mode is not two
    refine iff_of_false (fun h => h.2 h.1) ?_
    rintro ⟨hback, hline⟩
    simp [hback] at hline
  | _ => simp_all [Late, State.enter]

theorem cubeInfoList_step (s : State) (r : Readings) :
    (motionModeCalc s r).cubeInfoList = (label (s, r)).toList.foldl Queue.push s.cubeInfoList := by
  rw [cubeInfoList_motionModeCalc, label]
  by_cases hadds : Adds (s, r)
  · rw [if_pos hadds, if_pos hadds]
    rfl
  · rw [if_neg hadds, if_neg hadds]
    rfl

theorem cubeInfoList_run (s : State) :
    ∀ tr, (run motionModeCalc s tr).cubeInfoList =
      (labels (consumed motionModeCalc s tr)).foldl Queue.push s.cubeInfoList := by
  refine run_induction motionModeCalc s (fun tr t => t.cubeInfoList =
    (labels (consumed motionModeCalc s tr)).foldl Queue.push s.cubeInfoList) rfl ?_
  intro tr r ih
  rw [cubeInfoList_step, ih, consumed_concat, labels, labels, List.filterMap_append,
    List.foldl_append]
  rfl

/-! ## The balance -/

/-- The books of a run from `s`: cubes identified, pushes, returns, and the list. -/
structure Balanced (s : State) (tr : List Readings) : Prop where
  /-- Each cube identified is pushed, but for the one that the car is aiming at. -/
  pushed : additions (consumed motionModeCalc s tr) + (if Aiming s then 1 else 0) =
    count motionModeCalc s Pushes tr + if Aiming (run motionModeCalc s tr) then 1 else 0
  /-- Each push ends on the line, but for the one under way. -/
  returned : count motionModeCalc s Pushes tr + (if Away s then 1 else 0) =
    count motionModeCalc s Returns tr + if Away (run motionModeCalc s tr) then 1 else 0
  /-- The list has been given the labels, in order, as far as there was room. -/
  listed : (run motionModeCalc s tr).cubeInfoList.items =
    s.cubeInfoList.items ++
      (labels (consumed motionModeCalc s tr)).take (13 - s.cubeInfoList.used)
  /-- Up to 13 it counts the cubes identified. -/
  counted : (run motionModeCalc s tr).cubeInfoList.used =
    min 13 (s.cubeInfoList.used + additions (consumed motionModeCalc s tr))

/-- The books balance in every run, from any state. -/
theorem push_ledger (s : State) (tr : List Readings) : Balanced s tr where
  pushed := by
    have hbalance := entered_balance motionModeCalc s Aiming tr
    rwa [count_congr motionModeCalc s (fun _ _ => leaves_aiming_iff),
      ← count_congr motionModeCalc s (fun _ _ => adds_iff_enters)] at hbalance
  returned := by
    have hbalance := entered_balance motionModeCalc s Away tr
    rwa [count_congr motionModeCalc s (fun _ _ => enters_away_iff),
      count_congr motionModeCalc s (fun _ _ => leaves_away_iff)] at hbalance
  listed := by
    rw [cubeInfoList_run, Queue.items_foldl_push_take]
  counted := by
    rw [cubeInfoList_run, Queue.used_foldl_push, length_labels]

end SmartCar.Motion

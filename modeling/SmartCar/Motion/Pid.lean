import Mathlib.Algebra.Order.Ring.Abs
import Mathlib.Data.Rat.Cast.Order
import Mathlib.Tactic.Linarith

/-!
# pid_control

`PID_calculate`, with exact rationals for `float`.
-/

namespace SmartCar.Motion

/-- `PIDType`; `other` stands for any value that is not in the enumeration. -/
inductive PidType
  | poi | inc | other
deriving DecidableEq, Repr

/-- `PID` -/
structure Pid where
  type : PidType
  kp : ℚ
  ki : ℚ
  kd : ℚ
  prePreError : ℚ
  preError : ℚ
  error : ℚ
  errorSum : ℚ
  errorLimit : ℚ
  errorZeroCount : UInt32
  output : ℚ
deriving DecidableEq, Repr

/-- `PID_POI`: the accumulated error is cleared after 50 zero errors in a row. -/
def Pid.accumulate (pid : Pid) : Pid :=
  let pid := { pid with errorSum := pid.errorSum + pid.error }
  if pid.error = 0 then
    let pid := { pid with errorZeroCount := pid.errorZeroCount + 1 }
    if pid.errorZeroCount > 50 then { pid with errorSum := 0, errorZeroCount := 0 } else pid
  else { pid with errorZeroCount := 0 }

/-- `PID_POI`: the accumulated error stays within `error_limit`. -/
def Pid.limitSum (pid : Pid) : Pid :=
  if pid.errorSum > pid.errorLimit then { pid with errorSum := pid.errorLimit }
  else if pid.errorSum < -pid.errorLimit then { pid with errorSum := -pid.errorLimit }
  else pid

/-- `PID_calculate` -/
def pidCalculate (pid : Pid) (target current : ℚ) : Pid :=
  let pid := { pid with error := target - current }
  match pid.type with
  | .poi =>
    let pid := pid.accumulate.limitSum
    let deltaError := pid.error - pid.preError
    { pid with
      output := pid.kp * pid.error + pid.ki * pid.errorSum + pid.kd * deltaError
      preError := pid.error }
  | .inc =>
    let pid := { pid with errorZeroCount := if pid.error = 0 then pid.errorZeroCount + 1 else 0 }
    { pid with
      output := pid.kp * (pid.error - pid.preError) + pid.ki * pid.error +
        pid.kd * (pid.error - 2 * pid.preError + pid.prePreError)
      prePreError := pid.preError
      preError := pid.error }
  | .other => { pid with output := 0 }

/-- `PID_clean` -/
def pidClean (pid : Pid) : Pid :=
  { pid with
    prePreError := 0, preError := 0, error := 0, errorSum := 0, errorZeroCount := 0, output := 0 }

/-- `PID_calculate` does not read the previous output. -/
theorem pidCalculate_output (pid : Pid) (x target current : ℚ) :
    pidCalculate { pid with output := x } target current = pidCalculate pid target current := by
  cases h : pid.type
  · simp only [pidCalculate, h, Pid.accumulate, Pid.limitSum]
    split_ifs <;> rfl
  · simp only [pidCalculate, h]
  · simp only [pidCalculate, h]

/-! ## What a call does -/

/-- What is set once: the type, the gains and the limit. -/
def Pid.gains (pid : Pid) : PidType × ℚ × ℚ × ℚ × ℚ :=
  (pid.type, pid.kp, pid.ki, pid.kd, pid.errorLimit)

theorem accumulate_frame (pid : Pid) :
    pid.accumulate.gains = pid.gains ∧ pid.accumulate.error = pid.error ∧
      pid.accumulate.preError = pid.preError := by
  unfold Pid.accumulate
  dsimp only
  split_ifs <;> exact ⟨rfl, rfl, rfl⟩

theorem limitSum_frame (pid : Pid) :
    pid.limitSum.gains = pid.gains ∧ pid.limitSum.error = pid.error ∧
      pid.limitSum.preError = pid.preError := by
  unfold Pid.limitSum
  split_ifs <;> exact ⟨rfl, rfl, rfl⟩

theorem abs_errorSum_limitSum {pid : Pid} (h : 0 ≤ pid.errorLimit) :
    |pid.limitSum.errorSum| ≤ pid.errorLimit := by
  unfold Pid.limitSum
  split_ifs with hgt hlt
  · exact (abs_of_nonneg h).le
  · simp [abs_of_nonneg h]
  · exact abs_le.mpr ⟨not_lt.mp hlt, not_lt.mp hgt⟩

/-- The controller after the new error has been accumulated. -/
def Pid.summed (pid : Pid) (target current : ℚ) : Pid :=
  ({ pid with error := target - current } : Pid).accumulate.limitSum

theorem summed_frame (pid : Pid) (target current : ℚ) :
    (pid.summed target current).gains = pid.gains ∧
      (pid.summed target current).error = target - current ∧
      (pid.summed target current).preError = pid.preError := by
  have hacc := accumulate_frame { pid with error := target - current }
  have hlim := limitSum_frame ({ pid with error := target - current } : Pid).accumulate
  exact ⟨hlim.1.trans hacc.1, hlim.2.1.trans hacc.2.1, hlim.2.2.trans hacc.2.2⟩

theorem pidCalculate_eq_of_poi {pid : Pid} (htype : pid.type = .poi) (target current : ℚ) :
    pidCalculate pid target current =
      let summed := pid.summed target current
      { summed with
        output := summed.kp * summed.error + summed.ki * summed.errorSum +
          summed.kd * (summed.error - summed.preError)
        preError := summed.error } := by
  simp only [pidCalculate, htype, Pid.summed]

theorem gains_pidCalculate (pid : Pid) (target current : ℚ) :
    (pidCalculate pid target current).gains = pid.gains := by
  cases htype : pid.type with
  | poi =>
    rw [pidCalculate_eq_of_poi htype]
    exact (summed_frame pid target current).1
  | inc => simp [pidCalculate, htype, Pid.gains]
  | other => simp [pidCalculate, htype, Pid.gains]

/-- A position controller: the accumulated error stays within its limit. -/
theorem pidCalculate_poi {pid : Pid} (htype : pid.type = .poi) (hlimit : 0 ≤ pid.errorLimit)
    (target current : ℚ) :
    let next := pidCalculate pid target current
    next.preError = target - current ∧ |next.errorSum| ≤ pid.errorLimit ∧
      next.output = pid.kp * (target - current) + pid.ki * next.errorSum +
        pid.kd * (target - current - pid.preError) := by
  rcases summed_frame pid target current with ⟨hgains, herror, hpre⟩
  simp only [Pid.gains, Prod.mk.injEq] at hgains
  rcases hgains with ⟨-, hkp, hki, hkd, hlim⟩
  have hacc := accumulate_frame { pid with error := target - current }
  simp only [Pid.gains, Prod.mk.injEq] at hacc
  have hsum : |(pid.summed target current).errorSum| ≤ pid.errorLimit := by
    rw [← hacc.1.2.2.2.2] at hlimit ⊢
    exact abs_errorSum_limitSum hlimit
  rw [pidCalculate_eq_of_poi htype]
  refine ⟨herror, hsum, ?_⟩
  simp only [herror, hpre, hkp, hki, hkd]

/-- An incremental controller. -/
theorem pidCalculate_inc {pid : Pid} (htype : pid.type = .inc) (target current : ℚ) :
    let next := pidCalculate pid target current
    next.preError = target - current ∧ next.prePreError = pid.preError ∧
      next.output = pid.kp * (target - current - pid.preError) + pid.ki * (target - current) +
        pid.kd * (target - current - 2 * pid.preError + pid.prePreError) := by
  simp [pidCalculate, htype]

end SmartCar.Motion

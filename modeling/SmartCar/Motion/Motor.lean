import Mathlib.Tactic.GCongr
import Mathlib.Tactic.Ring
import SmartCar.Lib.CInt
import SmartCar.Motion.Modes
import SmartCar.Motion.Pid

/-!
# motion_control: the motors

A motor with its encoder filter and its speed controller. An `int32` that does not
hold the value stored in it (a sum that overflows, or a conversion of a `float` that is
too large) is undefined in C; here it is `none`.
-/

namespace SmartCar.Motion

open CInt

/-! ## Data -/

/-- `MotorIndex` -/
inductive MotorIndex
  | left | right | rear
deriving DecidableEq, Repr

/-- `WINDOW_SIZE` -/
abbrev windowSize : ℕ := 5

instance neZero_windowSize : NeZero windowSize := ⟨by decide⟩

/-- `MovingAverageFilter` -/
structure MovingAverageFilter where
  buffer : Fin windowSize → Int16
  index : Fin windowSize
  sum : Int16

/-- `Motor`, with the `encoder_filter` of its index, the level last written to its
direction pin and the duty last written to its PWM channel. -/
structure Motor where
  pwmDuty : ℤ
  currentSpeed : ℤ
  setSpeed : ℤ
  encoderFilter : MovingAverageFilter
  pidController : Pid
  gpioDir : Bool
  pwm : ℤ

/-- `MOTOR_PWM_DUTY_MAX` -/
def motorPwmDutyMax : ℤ := 4000

/-- Store in an `int32`, as far as it is defined. -/
def toInt32 (z : ℤ) : Option ℤ := if -2147483648 ≤ z ∧ z < 2147483648 then some z else none

/-! ## The code -/

/-- `MAF_Update`: the filter and the value returned. -/
def mafUpdate (filter : MovingAverageFilter) (newValue : Int16) : MovingAverageFilter × Int16 :=
  let sum := filter.sum - filter.buffer filter.index + newValue
  ({ buffer := Function.update filter.buffer filter.index newValue
     index := filter.index + 1
     sum := sum }, sum / 5)

/-- `motor_encoder_pit_callback`, for one motor. -/
def motorEncoderPitCallback (m : Motor) (count : Int16) : Motor :=
  let r := mafUpdate m.encoderFilter count
  { m with encoderFilter := r.1, currentSpeed := r.2.toInt }

/-- `motor_set_duty` -/
def motorSetDuty (m : Motor) (duty : ℤ) : Motor :=
  let duty :=
    if cAbs duty > motorPwmDutyMax then
      if duty > 0 then motorPwmDutyMax else -motorPwmDutyMax
    else duty
  { m with
    gpioDir := if duty > 0 then true else if duty < 0 then false else m.gpioDir
    pwm := cAbs duty
    pwmDuty := duty }

/-- `motor_plus_duty`: a motor that has held its speed for 300 ticks starts from 0. -/
def motorPlusDuty (m : Motor) (deltaDuty : ℤ) : Option Motor := do
  let m := if m.pidController.errorZeroCount ≥ 300 then motorSetDuty m 0 else m
  let duty ← toInt32 (m.pwmDuty + deltaDuty)
  return motorSetDuty m duty

/-- `motor_speed_pid_calc_apply`, for one motor. -/
def motorSpeedPidCalcApply (motorEnableFlag : Bool) (m : Motor) : Option Motor := do
  let m := { m with pidController := pidCalculate m.pidController m.setSpeed m.currentSpeed }
  if motorEnableFlag then
    let deltaDuty ← toInt32 (trunc m.pidController.output)
    motorPlusDuty m deltaDuty
  else
    return motorSetDuty m 0

/-! ## Bounds -/

/-- The bound on the set speed: the largest wheel mix. -/
def setSpeedMax : ℤ := 6140000

/-- The bound on the error of a speed controller. -/
def speedErrorMax : ℤ := setSpeedMax + 32768

theorem toInt32_of_abs_le {z n : ℤ} (h : |z| ≤ n) (hn : n < 2147483648) : toInt32 z = some z := by
  have hz := abs_le.mp h
  exact if_pos (by omega)

/-- A motor whose speeds and errors are bounded. -/
structure MotorOk (m : Motor) : Prop where
  duty : |m.pwmDuty| ≤ motorPwmDutyMax
  setSpeed : |m.setSpeed| ≤ setSpeedMax
  currentSpeed : |m.currentSpeed| ≤ 32768
  type : m.pidController.type = .inc
  kp : |m.pidController.kp| ≤ 12
  ki : |m.pidController.ki| ≤ 4
  kd : |m.pidController.kd| ≤ 1 / 2
  preError : |m.pidController.preError| ≤ speedErrorMax
  prePreError : |m.pidController.prePreError| ≤ speedErrorMax

/-- What `motor_set_duty` leaves alone, and the bound that it enforces. -/
theorem motorSetDuty_ok {m : Motor} {duty : ℤ} (h : |duty| < 2147483648) :
    |(motorSetDuty m duty).pwmDuty| ≤ motorPwmDutyMax ∧
      (motorSetDuty m duty).setSpeed = m.setSpeed ∧
      (motorSetDuty m duty).currentSpeed = m.currentSpeed ∧
      (motorSetDuty m duty).pidController = m.pidController := by
  refine ⟨?_, rfl, rfl, rfl⟩
  simp only [motorSetDuty, cAbs_of_range (abs_lt.mp h), motorPwmDutyMax]
  split_ifs with hgt
  · simp
  · simp
  · exact not_lt.mp hgt

theorem MotorOk.setDuty {m : Motor} (h : MotorOk m) {duty : ℤ} (hduty : |duty| < 2147483648) :
    MotorOk (motorSetDuty m duty) := by
  have hd := (motorSetDuty_ok (m := m) hduty).1
  exact ⟨hd, h.setSpeed, h.currentSpeed, h.type, h.kp, h.ki, h.kd, h.preError, h.prePreError⟩

theorem MotorOk.plusDuty {m : Motor} (h : MotorOk m) {deltaDuty : ℤ}
    (hdelta : |deltaDuty| ≤ 2000000000) :
    ∃ m', motorPlusDuty m deltaDuty = some m' ∧ MotorOk m' := by
  have hm : MotorOk (if m.pidController.errorZeroCount ≥ 300 then motorSetDuty m 0 else m) := by
    split
    · exact h.setDuty (by decide)
    · exact h
  generalize hm' : (if m.pidController.errorZeroCount ≥ 300 then motorSetDuty m 0 else m) = m' at hm
  have hduty := hm.duty
  have hsum : |m'.pwmDuty + deltaDuty| ≤ 2000004000 := by
    refine (abs_add_le _ _).trans ?_
    rw [motorPwmDutyMax] at hduty
    omega
  refine ⟨motorSetDuty m' (m'.pwmDuty + deltaDuty), ?_, hm.setDuty (by omega)⟩
  simp only [motorPlusDuty, hm', toInt32_of_abs_le hsum (by decide)]
  rfl

/-- The output of an incremental controller whose errors are bounded. -/
theorem abs_inc_output_le {kp ki kd e pre prePre b : ℚ} (hkp : |kp| ≤ 12) (hki : |ki| ≤ 4)
    (hkd : |kd| ≤ 1 / 2) (he : |e| ≤ b) (hpre : |pre| ≤ b) (hprePre : |prePre| ≤ b) :
    |kp * (e - pre) + ki * e + kd * (e - 2 * pre + prePre)| ≤ 30 * b := by
  have hb : 0 ≤ b := (abs_nonneg e).trans he
  have hd1 : |e - pre| ≤ 2 * b := by
    rw [abs_le] at *
    constructor <;> linarith
  have hd2 : |e - 2 * pre + prePre| ≤ 4 * b := by
    rw [abs_le] at *
    constructor <;> linarith
  calc |kp * (e - pre) + ki * e + kd * (e - 2 * pre + prePre)|
      ≤ |kp * (e - pre)| + |ki * e| + |kd * (e - 2 * pre + prePre)| := abs_add_three _ _ _
    _ = |kp| * |e - pre| + |ki| * |e| + |kd| * |e - 2 * pre + prePre| := by
        rw [abs_mul, abs_mul, abs_mul]
    _ ≤ 12 * (2 * b) + 4 * b + 1 / 2 * (4 * b) := by gcongr
    _ = 30 * b := by ring

/-- The controller of a motor after its calculation. -/
theorem MotorOk.calculated {m : Motor} (h : MotorOk m) :
    let pid := pidCalculate m.pidController m.setSpeed m.currentSpeed
    MotorOk { m with pidController := pid } ∧ |pid.output| ≤ 30 * speedErrorMax := by
  have hgains := gains_pidCalculate m.pidController m.setSpeed m.currentSpeed
  simp only [Pid.gains, Prod.mk.injEq] at hgains
  rcases hgains with ⟨htype, hkp, hki, hkd, -⟩
  rcases pidCalculate_inc h.type (m.setSpeed : ℚ) m.currentSpeed with ⟨hpre, hprePre, houtput⟩
  have herror : |(m.setSpeed - m.currentSpeed : ℚ)| ≤ speedErrorMax := by
    have hset := abs_le.mp h.setSpeed
    have hcurrent := abs_le.mp h.currentSpeed
    have hint : |m.setSpeed - m.currentSpeed| ≤ speedErrorMax := by
      rw [speedErrorMax]
      exact abs_le.mpr (by omega)
    exact_mod_cast hint
  refine ⟨⟨h.duty, h.setSpeed, h.currentSpeed, htype.trans h.type, ?_, ?_, ?_, ?_, ?_⟩, ?_⟩
  · exact hkp ▸ h.kp
  · exact hki ▸ h.ki
  · exact hkd ▸ h.kd
  · exact hpre ▸ herror
  · exact hprePre ▸ h.preError
  · rw [houtput]
    exact abs_inc_output_le h.kp h.ki h.kd herror h.preError h.prePreError

/-- One tick of a motor: nothing overflows, and the bounds hold again. -/
theorem MotorOk.speedPid {m : Motor} (h : MotorOk m) (motorEnableFlag : Bool) :
    ∃ m', motorSpeedPidCalcApply motorEnableFlag m = some m' ∧ MotorOk m' := by
  rcases h.calculated with ⟨hok, houtput⟩
  cases motorEnableFlag with
  | false => exact ⟨_, rfl, hok.setDuty (by decide)⟩
  | true =>
    have htrunc : |trunc (pidCalculate m.pidController m.setSpeed m.currentSpeed).output| ≤
        30 * speedErrorMax := abs_trunc_le (by push_cast; exact houtput)
    rcases hok.plusDuty (htrunc.trans (by decide)) with ⟨m', hm', hok'⟩
    refine ⟨m', ?_, hok'⟩
    simp only [motorSpeedPidCalcApply, if_true, toInt32_of_abs_le htrunc (by decide)]
    exact hm'

theorem MotorOk.encoder {m : Motor} (h : MotorOk m) (count : Int16) :
    MotorOk (motorEncoderPitCallback m count) := by
  have hlt := (mafUpdate m.encoderFilter count).2.toInt_lt
  have hle := (mafUpdate m.encoderFilter count).2.le_toInt
  refine ⟨h.duty, h.setSpeed, ?_, h.type, h.kp, h.ki, h.kd, h.preError, h.prePreError⟩
  refine abs_le.mpr ⟨?_, ?_⟩
  · simpa [motorEncoderPitCallback] using hle
  · simpa [motorEncoderPitCallback] using hlt.le

end SmartCar.Motion

import SmartCar.Motion.Motor
import SmartCar.Motion.OuterLoop

/-!
# motion_control: the three-level control loop

The outer loop turns mode and sensors into commands, the middle loop the commands
into wheel speeds, the inner loop the wheel speeds into duties. `motion_control_pid_callback`
runs them at a quarter, at half and at the full rate of the timer.

* `Bounded` is the invariant: bounds for every value that is carried from tick to tick;
* `control_safe` is the law: in every run nothing overflows, and the limits hold.
-/

namespace SmartCar.Motion

open CInt Mcx

/-! ## The loops -/

/-- `COS_PI_D_6` -/
def cosPiD6 : ℚ := 86603 / 100000

/-- `SIN_PI_D_6` -/
def sinPiD6 : ℚ := 1 / 2

/-- The variables of the three loops. -/
structure Control where
  outer : Outer
  angularVPid : Pid
  translationForwardVPid : Pid
  translationLeftVPid : Pid
  motors : MotorIndex → Motor
  pitCount : UInt64

/-- What a tick reads: the inputs of the outer loop, `image_result.offset`, the flags of
the three loops and `motor_enable_flag`. -/
structure Tick where
  inputs : Inputs
  offset : ℚ
  rotationTranslationFlag : Bool
  translationAngularVFlag : Bool
  speedFlag : Bool
  motorEnableFlag : Bool

/-- The speeds of the wheels, before they are narrowed. -/
def wheelMix (forward left angular : ℚ) : MotorIndex → ℚ
  | .left => -forward * cosPiD6 + left * sinPiD6 - angular
  | .right => forward * cosPiD6 + left * sinPiD6 - angular
  | .rear => left + angular

/-- `for (index = 0; index < MOTOR_INDEX_MAX_PLUS_ONE; index ++)` over the motors. -/
def forMotors (f : MotorIndex → Motor → Option Motor) (motors : MotorIndex → Motor) :
    Option (MotorIndex → Motor) := do
  let left ← f .left (motors .left)
  let right ← f .right (motors .right)
  let rear ← f .rear (motors .rear)
  return fun
    | .left => left
    | .right => right
    | .rear => rear

/-- `motors[index].set_speed = (int32) ...` -/
def setWheelSpeed (mix : MotorIndex → ℚ) (index : MotorIndex) (m : Motor) : Option Motor := do
  let speed ← toInt32 (trunc (mix index))
  return { m with setSpeed := speed }

/-- `motor_translation_angular_v_pid_calc_apply` -/
def motorTranslationAngularVPidCalcApply (s : Control) : Option Control := do
  let forward := pidCalculate s.translationForwardVPid s.outer.translationForwardPid.output 0
  let left := pidCalculate s.translationLeftVPid s.outer.translationLeftPid.output 0
  let angular := pidCalculate s.angularVPid s.outer.rotationPid.output 0
  let mix := wheelMix forward.output left.output angular.output
  let motors ← forMotors (setWheelSpeed mix) s.motors
  return { s with
    translationForwardVPid := forward, translationLeftVPid := left, angularVPid := angular
    motors := motors }

/-- `if (pit_count % 4 == 0 && motor_rotation_translation_pid_calc_flag)` -/
def outerTick (t : Tick) (s : Control) : Control :=
  if s.pitCount % 4 = 0 ∧ t.rotationTranslationFlag then
    { s with outer := motorRotationTranslationPidCalcApply t.inputs s.outer }
  else s

/-- `if (pit_count % 2 == 0 && motor_translation_angular_v_pid_calc_flag)` -/
def middleTick (t : Tick) (s : Control) : Option Control :=
  if s.pitCount % 2 = 0 ∧ t.translationAngularVFlag then motorTranslationAngularVPidCalcApply s
  else some s

/-- `if (motor_speed_pid_calc_flag)` -/
def innerTick (t : Tick) (s : Control) : Option Control :=
  if t.speedFlag then do
    let motors ← forMotors (fun _ => motorSpeedPidCalcApply t.motorEnableFlag) s.motors
    return { s with motors := motors }
  else some s

/-- `motion_control_pid_callback`; `image_result.offset` is what the search has left. -/
def motionControlPidCallback (t : Tick) (s : Control) : Option Control :=
  let s := { s with outer := { s.outer with offset := t.offset }, pitCount := s.pitCount + 1 }
  (middleTick t (outerTick t s)).bind (innerTick t)

/-- An interrupt: the control loop, or the encoders with the counts they deliver. -/
inductive Interrupt
  | pid (t : Tick)
  | encoder (counts : MotorIndex → Int16)

/-- An interrupt is served. -/
def serve (s : Control) : Interrupt → Option Control
  | .pid t => motionControlPidCallback t s
  | .encoder counts =>
    some { s with motors := fun index => motorEncoderPitCallback (s.motors index) (counts index) }

/-! ## Power-up -/

/-- A controller of type `type` that has been cleared. -/
def cleared (type : PidType) (kp ki kd errorLimit : ℚ) : Pid :=
  ⟨type, kp, ki, kd, 0, 0, 0, 0, errorLimit, 0, 0⟩

/-- A motor at rest. -/
def Motor.start (pid : Pid) : Motor where
  pwmDuty := 0
  currentSpeed := 0
  setSpeed := 0
  encoderFilter := ⟨fun _ => 0, 0, 0⟩
  pidController := pid
  gpioDir := true
  pwm := 0

/-- The control loop at power-up. -/
def Control.start : Control where
  outer := Outer.start
  angularVPid := cleared .poi 1 (1 / 50) (1 / 10) 200
  translationForwardVPid := cleared .poi 1 0 0 200
  translationLeftVPid := cleared .poi 1 0 0 200
  motors
    | .left => .start (cleared .inc 12 4 (1 / 2) 0)
    | .right => .start (cleared .inc 12 4 (1 / 2) 0)
    | .rear => .start (cleared .inc (-12) (-4) (-3 / 10) 0)
  pitCount := 0

/-! ## Law and condition -/

/-- The angles are at most a million degrees. -/
structure TickOk (t : Tick) : Prop where
  angleZ : |t.inputs.angleZ| ≤ 1000000
  target : |t.inputs.targetGyroAngleZ| ≤ 1000000
  line : |t.inputs.lineGyroAngleZ| ≤ 1000000

def Interrupt.Ok : Interrupt → Prop
  | .pid t => TickOk t
  | .encoder _ => True

/-- The controllers of type `PID_POI`. -/
def Control.positionPids (s : Control) : List Pid :=
  [s.outer.translationForwardPid, s.outer.translationLeftPid, s.outer.rotationPid,
    s.angularVPid, s.translationForwardVPid, s.translationLeftVPid]

/-- No duty and no accumulated error is beyond its limit. -/
structure Limits (s : Control) : Prop where
  type : ∀ pid ∈ s.positionPids, pid.type = .poi
  errorSum : ∀ pid ∈ s.positionPids, |pid.errorSum| ≤ pid.errorLimit
  duty : ∀ index, |(s.motors index).pwmDuty| ≤ motorPwmDutyMax

/-! ## The outer loop -/

/-- A controller of type `PID_POI` with these gains, its accumulated error within the limit. -/
structure PidOk (pid : Pid) (kp ki kd errorLimit : ℚ) : Prop where
  gains : pid.gains = (.poi, kp, ki, kd, errorLimit)
  errorSum : |pid.errorSum| ≤ errorLimit

/-- What a calculation does to such a controller. -/
theorem PidOk.calculate {pid : Pid} {kp ki kd errorLimit : ℚ} (h : PidOk pid kp ki kd errorLimit)
    (target current : ℚ) :
    let next := pidCalculate pid target current
    PidOk next kp ki kd errorLimit ∧ next.preError = target - current ∧
      next.output = kp * (target - current) + ki * next.errorSum +
        kd * (target - current - pid.preError) := by
  have hgains := h.gains
  simp only [Pid.gains, Prod.mk.injEq] at hgains
  rcases hgains with ⟨htype, rfl, rfl, rfl, rfl⟩
  rcases pidCalculate_poi htype ((abs_nonneg _).trans h.errorSum) target current with
    ⟨hpre, hsum, houtput⟩
  exact ⟨⟨(gains_pidCalculate pid target current).trans h.gains, hsum⟩, hpre, houtput⟩

/-- The bounds of the outer loop. -/
structure OuterOk (s : Outer) : Prop where
  forwardPid : PidOk s.translationForwardPid 1 0 0 100
  leftPid : PidOk s.translationLeftPid (7 / 10) 0 0 100
  rotationPid : PidOk s.rotationPid (1 / 2) (1 / 100) (2 / 25) 100
  rotationPre : |s.rotationPid.preError| ≤ 70
  forward : |s.translationForwardPid.output| ≤ 4300000
  left : |s.translationLeftPid.output| ≤ 16400
  rotation : |s.rotationPid.output| ≤ 2000000

namespace OuterOk

variable {s : Outer} {x : ℚ}

theorem setForward (h : OuterOk s) (hx : |x| ≤ 4300000) : OuterOk (s.setForward x) :=
  ⟨⟨h.forwardPid.1, h.forwardPid.2⟩, h.leftPid, h.rotationPid, h.rotationPre, hx, h.left,
    h.rotation⟩

theorem setLeft (h : OuterOk s) (hx : |x| ≤ 16400) : OuterOk (s.setLeft x) :=
  ⟨h.forwardPid, ⟨h.leftPid.1, h.leftPid.2⟩, h.rotationPid, h.rotationPre, h.forward, hx,
    h.rotation⟩

theorem setRotation (h : OuterOk s) (hx : |x| ≤ 2000000) : OuterOk (s.setRotation x) :=
  ⟨h.forwardPid, h.leftPid, ⟨h.rotationPid.1, h.rotationPid.2⟩, h.rotationPre, h.forward, h.left,
    hx⟩

theorem setOffset (h : OuterOk s) (x : ℚ) : OuterOk { s with offset := x } :=
  ⟨h.forwardPid, h.leftPid, h.rotationPid, h.rotationPre, h.forward, h.left, h.rotation⟩

end OuterOk

theorem abs_limitOffset_le (x : ℚ) : |limitOffset x| ≤ 70 := by
  unfold limitOffset
  split_ifs with hgt hlt
  · norm_num
  · norm_num
  · exact abs_le.mpr ⟨not_lt.mp hlt, not_lt.mp hgt⟩

/-- Following the line, the rotation is limited by the offset. -/
theorem OuterOk.follow {s : Outer} (h : OuterOk s) {x : ℚ} (hx : |x| ≤ 70) :
    OuterOk { s with rotationPid := pidCalculate s.rotationPid x 0 } := by
  rcases h.rotationPid.calculate x 0 with ⟨hok, hpre, houtput⟩
  have hsum := abs_le.mp hok.errorSum
  have hold := abs_le.mp h.rotationPre
  have hnew := abs_le.mp hx
  refine ⟨h.forwardPid, h.leftPid, hok, ?_, h.forward, h.left, ?_⟩
  · rw [hpre, sub_zero]
    exact hx
  · rw [houtput]
    exact abs_le.mpr ⟨by linarith, by linarith⟩

theorem toNat_le_u16 (x : UInt16) : (x.toNat : ℚ) ≤ 65535 := by
  have hlt := x.toNat_lt
  exact_mod_cast (by omega : x.toNat ≤ 65535)

theorem toNat_le_u32 (x : UInt32) : (x.toNat : ℚ) ≤ 4294967295 := by
  have hlt := x.toNat_lt
  exact_mod_cast (by omega : x.toNat ≤ 4294967295)

theorem abs_followSpeed_le (i : Inputs) : |followSpeed i| ≤ 4300000 := by
  have hspeed : 0 ≤ followSpeed i ∧ followSpeed i ≤ 65535 := by
    unfold followSpeed
    split
    · exact ⟨Nat.cast_nonneg _, toNat_le_u16 _⟩
    · exact ⟨Nat.cast_nonneg _, toNat_le_u16 _⟩
    · norm_num
    · exact ⟨Nat.cast_nonneg _, toNat_le_u16 _⟩
  exact abs_le.mpr ⟨by linarith, by linarith⟩

/-- A turn towards an angle. -/
theorem abs_turn_le {a b : ℚ} (ha : |a| ≤ 1000000) (hb : |b| ≤ 1000000) : |a - b| ≤ 2000000 := by
  rw [abs_le] at *
  constructor <;> linarith

/-- The outer loop keeps its bounds in every mode. -/
theorem OuterOk.apply {t : Tick} (ht : TickOk t) {s : Outer} (h : OuterOk s) :
    OuterOk (motorRotationTranslationPidCalcApply t.inputs s) := by
  have hp := toNat_le_u32 t.inputs.cubeInfo.pCount
  have hp0 : (0 : ℚ) ≤ t.inputs.cubeInfo.pCount.toNat := Nat.cast_nonneg _
  have hx := toNat_le_u16 t.inputs.cubeInfo.xCenter
  have hx0 : (0 : ℚ) ≤ t.inputs.cubeInfo.xCenter.toNat := Nat.cast_nonneg _
  unfold motorRotationTranslationPidCalcApply
  cases t.inputs.motionMode with
  | lineFollow =>
    have hs := (h.setForward (abs_followSpeed_le t.inputs)).setLeft (x := 0) (by norm_num)
    exact (hs.setOffset _).follow (abs_limitOffset_le _)
  | cubeIdentify =>
    exact ((h.setForward (by norm_num)).setLeft (by norm_num)).setRotation (by norm_num)
  | cubeDistancePosition =>
    refine ((h.setForward ?_).setLeft ?_).setRotation (by norm_num)
    · rw [abs_le]
      constructor <;> linarith
    · push_cast
      rw [abs_le]
      constructor <;> linarith
  | cubeAnglePosition =>
    -- target and heading are angles that the tick bounds
    refine ((h.setLeft ?_).setForward (by norm_num)).setRotation (abs_turn_le ht.target ht.angleZ)
    split <;> norm_num
  | cubePush =>
    have hs := (h.setForward (x := 30) (by norm_num)).setLeft (x := 0) (by norm_num)
    dsimp only
    split
    · refine hs.setRotation ?_
      push_cast [cubeRightCenterX]
      rw [abs_le]
      constructor <;> linarith
    · exact hs
  | linePositionBack => exact h.setForward (by norm_num)
  | lineAngleBack => exact h.setRotation (abs_turn_le ht.line ht.angleZ)
  | unknown =>
    exact ((h.setForward (by norm_num)).setLeft (by norm_num)).setRotation (by norm_num)

/-! ## The middle loop -/

/-- The bounds of the three loops. -/
structure Bounded (s : Control) : Prop where
  outer : OuterOk s.outer
  angularPid : PidOk s.angularVPid 1 (1 / 50) (1 / 10) 200
  angularPre : |s.angularVPid.preError| ≤ 2000000
  forwardPid : PidOk s.translationForwardVPid 1 0 0 200
  leftPid : PidOk s.translationLeftVPid 1 0 0 200
  motors : ∀ index, MotorOk (s.motors index)

theorem abs_wheelMix_le {forward left angular : ℚ} (hforward : |forward| ≤ 4300000)
    (hleft : |left| ≤ 16400) (hangular : |angular| ≤ 2400004) (index : MotorIndex) :
    |wheelMix forward left angular index| ≤ setSpeedMax := by
  rw [abs_le] at *
  push_cast [setSpeedMax]
  cases index <;> simp only [wheelMix, cosPiD6, sinPiD6] <;> constructor <;> linarith

/-- A loop over the motors in which each motor's turn is defined. -/
theorem exists_forMotors {f : MotorIndex → Motor → Option Motor} {motors : MotorIndex → Motor}
    (h : ∀ index, ∃ m, f index (motors index) = some m ∧ MotorOk m) :
    ∃ motors', forMotors f motors = some motors' ∧ ∀ index, MotorOk (motors' index) := by
  rcases h .left with ⟨left, hleft, hleft'⟩
  rcases h .right with ⟨right, hright, hright'⟩
  rcases h .rear with ⟨rear, hrear, hrear'⟩
  refine ⟨_, by simp only [forMotors, hleft, hright, hrear]; rfl, ?_⟩
  rintro (_ | _ | _)
  · exact hleft'
  · exact hright'
  · exact hrear'

theorem MotorOk.setWheelSpeed {m : Motor} (h : MotorOk m) {mix : MotorIndex → ℚ}
    {index : MotorIndex} (hmix : |mix index| ≤ setSpeedMax) :
    ∃ m', setWheelSpeed mix index m = some m' ∧ MotorOk m' := by
  have htrunc := abs_trunc_le hmix
  refine ⟨{ m with setSpeed := trunc (mix index) }, ?_, ⟨h.duty, htrunc, h.currentSpeed, h.type,
    h.kp, h.ki, h.kd, h.preError, h.prePreError⟩⟩
  rw [Motion.setWheelSpeed, toInt32_of_abs_le htrunc (by decide)]
  rfl

/-- The middle loop keeps the bounds, and its conversions are defined. -/
theorem Bounded.middle {s : Control} (h : Bounded s) :
    ∃ s', motorTranslationAngularVPidCalcApply s = some s' ∧ Bounded s' := by
  rcases h.forwardPid.calculate s.outer.translationForwardPid.output 0 with ⟨hf, -, hforward⟩
  rcases h.leftPid.calculate s.outer.translationLeftPid.output 0 with ⟨hl, -, hleft⟩
  rcases h.angularPid.calculate s.outer.rotationPid.output 0 with ⟨ha, hpre, hangular⟩
  have hrotation := abs_le.mp h.outer.rotation
  have hold := abs_le.mp h.angularPre
  have hsum := abs_le.mp ha.errorSum
  -- the mix of the three outputs is in the range of the conversion, for each wheel
  have hforward' : |(pidCalculate s.translationForwardVPid
      s.outer.translationForwardPid.output 0).output| ≤ 4300000 := by
    rw [hforward]
    simpa using h.outer.forward
  have hleft' : |(pidCalculate s.translationLeftVPid
      s.outer.translationLeftPid.output 0).output| ≤ 16400 := by
    rw [hleft]
    simpa using h.outer.left
  have hangular' : |(pidCalculate s.angularVPid s.outer.rotationPid.output 0).output| ≤
      2400004 := by
    rw [hangular, abs_le]
    constructor <;> linarith
  rcases exists_forMotors fun index =>
    (h.motors index).setWheelSpeed (abs_wheelMix_le hforward' hleft' hangular' index) with
    ⟨motors, hmotors, hok⟩
  have hbounded : Bounded { s with
      translationForwardVPid :=
        pidCalculate s.translationForwardVPid s.outer.translationForwardPid.output 0
      translationLeftVPid :=
        pidCalculate s.translationLeftVPid s.outer.translationLeftPid.output 0
      angularVPid := pidCalculate s.angularVPid s.outer.rotationPid.output 0
      motors := motors } := by
    refine ⟨h.outer, ha, ?_, hf, hl, hok⟩
    rw [hpre, sub_zero]
    exact h.outer.rotation
  refine ⟨_, ?_, hbounded⟩
  simp only [motorTranslationAngularVPidCalcApply]
  rw [hmotors]
  rfl

/-! ## Ticks and runs -/

theorem Bounded.outerTick {s : Control} (h : Bounded s) {t : Tick} (ht : TickOk t) :
    Bounded (outerTick t s) := by
  unfold Motion.outerTick
  split
  · exact ⟨h.outer.apply ht, h.angularPid, h.angularPre, h.forwardPid, h.leftPid, h.motors⟩
  · exact h

theorem Bounded.middleTick {s : Control} (h : Bounded s) (t : Tick) :
    ∃ s', middleTick t s = some s' ∧ Bounded s' := by
  unfold Motion.middleTick
  split
  · exact h.middle
  · exact ⟨s, rfl, h⟩

theorem Bounded.innerTick {s : Control} (h : Bounded s) (t : Tick) :
    ∃ s', innerTick t s = some s' ∧ Bounded s' := by
  unfold Motion.innerTick
  split
  · rcases exists_forMotors fun index => (h.motors index).speedPid t.motorEnableFlag with
      ⟨motors, hmotors, hok⟩
    refine ⟨{ s with motors := motors }, ?_,
      ⟨h.outer, h.angularPid, h.angularPre, h.forwardPid, h.leftPid, hok⟩⟩
    rw [hmotors]
    rfl
  · exact ⟨s, rfl, h⟩

theorem Bounded.tick {s : Control} (h : Bounded s) {t : Tick} (ht : TickOk t) :
    ∃ s', motionControlPidCallback t s = some s' ∧ Bounded s' := by
  have hstart : Bounded { s with
      outer := { s.outer with offset := t.offset }, pitCount := s.pitCount + 1 } :=
    ⟨h.outer.setOffset _, h.angularPid, h.angularPre, h.forwardPid, h.leftPid, h.motors⟩
  rcases (hstart.outerTick ht).middleTick t with ⟨s₁, hs₁, hbounded⟩
  rcases hbounded.innerTick t with ⟨s₂, hs₂, hbounded'⟩
  exact ⟨s₂, by rw [motionControlPidCallback, hs₁]; exact hs₂, hbounded'⟩

theorem Bounded.serve {s : Control} (h : Bounded s) {e : Interrupt} (he : e.Ok) :
    ∃ s', serve s e = some s' ∧ Bounded s' := by
  cases e with
  | pid t => exact h.tick he
  | encoder counts =>
    exact ⟨_, rfl, h.outer, h.angularPid, h.angularPre, h.forwardPid, h.leftPid,
      fun index => (h.motors index).encoder (counts index)⟩

theorem Bounded.limits {s : Control} (h : Bounded s) : Limits s := by
  have hok : ∀ {pid : Pid} {kp ki kd errorLimit : ℚ}, PidOk pid kp ki kd errorLimit →
      pid.type = .poi ∧ |pid.errorSum| ≤ pid.errorLimit := by
    intro pid kp ki kd errorLimit hpid
    have hgains := hpid.gains
    simp only [Pid.gains, Prod.mk.injEq] at hgains
    exact ⟨hgains.1, hgains.2.2.2.2 ▸ hpid.errorSum⟩
  have hall : ∀ pid ∈ s.positionPids, pid.type = .poi ∧ |pid.errorSum| ≤ pid.errorLimit := by
    simp only [Control.positionPids, List.forall_mem_cons, List.not_mem_nil, false_imp_iff,
      implies_true, and_true]
    exact ⟨hok h.outer.forwardPid, hok h.outer.leftPid, hok h.outer.rotationPid,
      hok h.angularPid, hok h.forwardPid, hok h.leftPid⟩
  exact ⟨fun pid hpid => (hall pid hpid).1, fun pid hpid => (hall pid hpid).2,
    fun index => (h.motors index).duty⟩

theorem pidOk_cleared (kp ki kd : ℚ) {errorLimit : ℚ} (h : 0 ≤ errorLimit) :
    PidOk (cleared .poi kp ki kd errorLimit) kp ki kd errorLimit :=
  ⟨rfl, by simpa [cleared] using h⟩

theorem bounded_start : Bounded Control.start := by
  have hmotor : ∀ kp ki kd : ℚ, |kp| ≤ 12 → |ki| ≤ 4 → |kd| ≤ 1 / 2 →
      MotorOk (.start (cleared .inc kp ki kd 0)) := by
    intro kp ki kd hkp hki hkd
    refine ⟨?_, ?_, ?_, rfl, hkp, hki, hkd, ?_, ?_⟩ <;>
      norm_num [Motor.start, cleared, speedErrorMax, setSpeedMax, motorPwmDutyMax]
  refine ⟨⟨pidOk_cleared _ _ _ (by norm_num), pidOk_cleared _ _ _ (by norm_num),
    pidOk_cleared _ _ _ (by norm_num), ?_, ?_, ?_, ?_⟩, pidOk_cleared _ _ _ (by norm_num), ?_,
    pidOk_cleared _ _ _ (by norm_num), pidOk_cleared _ _ _ (by norm_num), ?_⟩
  · norm_num [Control.start, Outer.start]
  · norm_num [Control.start, Outer.start]
  · norm_num [Control.start, Outer.start]
  · norm_num [Control.start, Outer.start]
  · norm_num [Control.start, cleared]
  · rintro (_ | _ | _)
    · exact hmotor 12 4 (1 / 2) (by norm_num) (by norm_num) (by norm_num)
    · exact hmotor 12 4 (1 / 2) (by norm_num) (by norm_num) (by norm_num)
    · exact hmotor (-12) (-4) (-3 / 10) (by norm_num) (by norm_num) (by norm_num)

/-- In every run no conversion and no sum overflows, and the limits hold. -/
theorem control_safe (tr : List Interrupt) (h : ∀ e ∈ tr, e.Ok) :
    ∃ s, tr.foldlM serve Control.start = some s ∧ Limits s := by
  rcases Events.exists_foldlM Bounded Interrupt.Ok (fun _ _ hs he => hs.serve he) tr
    Control.start bounded_start h with ⟨s, hs, hbounded⟩
  exact ⟨s, hs, hbounded.limits⟩

/-- The car backs off at full power. -/
def fullPower : List Interrupt :=
  List.replicate 4 (.pid ⟨backingOff, 0, true, true, true, true⟩)

theorem control_safe_fullPower : ∃ s, fullPower.foldlM serve Control.start = some s ∧ Limits s :=
  control_safe fullPower (by
    intro e he
    rw [List.eq_of_mem_replicate he]
    exact ⟨by norm_num [backingOff], by norm_num [backingOff], by norm_num [backingOff]⟩)

end SmartCar.Motion

import Mathlib.Data.Rat.Cast.Order
import SmartCar.Motion.Modes
import SmartCar.Motion.Pid
import SmartCar.MtImage.State

/-!
# motion_control: the outer control loop

`motor_rotation_translation_pid_calc_apply` turns the mode and the sensors into
three commands: how fast to go forward, to the left, and around. Some modes set
only some of them. `outputs_independent_iff` says from which modes a command of
the mode before leaks into the next.
-/

namespace SmartCar.Motion

open Mcx MtImage

/-! ## The loop -/

/-- What the loop reads, besides its controllers and `image_result.offset`. -/
structure Inputs where
  motionMode : MotionMode
  elementType : ElementType
  cubeInfo : CubeReport
  angleZ : ℚ
  targetGyroAngleZ : ℚ
  lineGyroAngleZ : ℚ
  paramStraightPidOutput : UInt16
  paramCurvePidOutput : UInt16

/-- The controllers of the outer loop, and `image_result.offset`. -/
structure Outer where
  translationForwardPid : Pid
  translationLeftPid : Pid
  rotationPid : Pid
  offset : ℚ
deriving DecidableEq

/-- The three commands: forward, left, rotation. -/
structure Outputs where
  forward : ℚ
  left : ℚ
  rotation : ℚ
deriving DecidableEq

namespace Outer

def setForward (s : Outer) (x : ℚ) : Outer :=
  { s with translationForwardPid := { s.translationForwardPid with output := x } }

def setLeft (s : Outer) (x : ℚ) : Outer :=
  { s with translationLeftPid := { s.translationLeftPid with output := x } }

def setRotation (s : Outer) (x : ℚ) : Outer :=
  { s with rotationPid := { s.rotationPid with output := x } }

def outputs (s : Outer) : Outputs :=
  ⟨s.translationForwardPid.output, s.translationLeftPid.output, s.rotationPid.output⟩

/-- The same controllers with other outputs. -/
def withOutputs (s : Outer) (o : Outputs) : Outer :=
  ((s.setForward o.forward).setLeft o.left).setRotation o.rotation

end Outer

/-- `CUBE_RIGHT_CENTER_X` -/
def cubeRightCenterX : ℤ := 160

/-- The forward speed in `LINE_FOLLOW`, by track element. -/
def followSpeed (i : Inputs) : ℚ :=
  match i.elementType with
  | .normal | .cross => i.paramStraightPidOutput.toNat
  | .zebra => 0
  | _ => i.paramCurvePidOutput.toNat

/-- `image_result.offset`, limited to 70. -/
def limitOffset (x : ℚ) : ℚ := if x > 70 then 70 else if x < -70 then -70 else x

/-- `motor_rotation_translation_pid_calc_apply` -/
def motorRotationTranslationPidCalcApply (i : Inputs) (s : Outer) : Outer :=
  match i.motionMode with
  | .lineFollow =>
    let s := (s.setForward (followSpeed i)).setLeft 0
    let s := { s with offset := limitOffset s.offset }
    { s with rotationPid := pidCalculate s.rotationPid s.offset 0 }
  | .cubeIdentify => ((s.setForward 0).setLeft 0).setRotation 0
  | .cubeDistancePosition =>
    ((s.setForward (1 * (20000 - i.cubeInfo.pCount.toNat) / 1000)).setLeft
      (((i.cubeInfo.xCenter.toNat - 160 : ℤ) : ℚ) / 4)).setRotation 0
  | .cubeAnglePosition =>
    ((s.setLeft (if i.targetGyroAngleZ - i.angleZ > 0 then 15 else -15)).setForward 0).setRotation
      (i.targetGyroAngleZ - i.angleZ)
  | .cubePush =>
    let s := (s.setForward 30).setLeft 0
    if i.cubeInfo.state = CubeDetectionState.cubeInsideView.val then
      s.setRotation ((i.cubeInfo.xCenter.toNat - cubeRightCenterX : ℤ) : ℚ)
    else s
  | .linePositionBack => s.setForward (-30)
  | .lineAngleBack => s.setRotation (i.lineGyroAngleZ - i.angleZ)
  | .unknown => ((s.setForward 0).setLeft 0).setRotation 0

/-! ## Commands left over -/

/-- The mode sets all three commands. -/
def SetsAll (i : Inputs) : Prop :=
  i.motionMode ≠ .linePositionBack ∧ i.motionMode ≠ .lineAngleBack ∧
    (i.motionMode = .cubePush → i.cubeInfo.state = CubeDetectionState.cubeInsideView.val)

instance (i : Inputs) : Decidable (SetsAll i) := inferInstanceAs (Decidable (_ ∧ _ ∧ (_ → _)))

/-- Such a mode forgets what the commands were. -/
theorem apply_withOutputs {i : Inputs} (h : SetsAll i) (s : Outer) (o : Outputs) :
    motorRotationTranslationPidCalcApply i (s.withOutputs o) =
      motorRotationTranslationPidCalcApply i s := by
  rcases h with ⟨hposition, hangle, hpush⟩
  cases hmode : i.motionMode with
  | lineFollow =>
    -- the rotation is calculated anew, from the errors alone
    have hpid := pidCalculate_output s.rotationPid o.rotation (limitOffset s.offset) 0
    simp only [motorRotationTranslationPidCalcApply, hmode]
    simp only [Outer.withOutputs, Outer.setForward, Outer.setLeft, Outer.setRotation, hpid]
  | cubePush =>
    simp only [motorRotationTranslationPidCalcApply, hmode, hpush hmode]
    rfl
  | linePositionBack => exact absurd hmode hposition
  | lineAngleBack => exact absurd hmode hangle
  | cubeIdentify | cubeDistancePosition | cubeAnglePosition | unknown =>
    simp only [motorRotationTranslationPidCalcApply, hmode]
    rfl

theorem outputs_linePositionBack {i : Inputs} (hmode : i.motionMode = .linePositionBack)
    (s : Outer) : (motorRotationTranslationPidCalcApply i s).outputs =
      ⟨-30, s.translationLeftPid.output, s.rotationPid.output⟩ := by
  simp [motorRotationTranslationPidCalcApply, hmode, Outer.setForward, Outer.outputs]

theorem outputs_lineAngleBack {i : Inputs} (hmode : i.motionMode = .lineAngleBack)
    (s : Outer) : (motorRotationTranslationPidCalcApply i s).outputs =
      ⟨s.translationForwardPid.output, s.translationLeftPid.output,
        i.lineGyroAngleZ - i.angleZ⟩ := by
  simp [motorRotationTranslationPidCalcApply, hmode, Outer.setRotation, Outer.outputs]

theorem outputs_cubePush {i : Inputs} (hmode : i.motionMode = .cubePush)
    (hview : i.cubeInfo.state ≠ CubeDetectionState.cubeInsideView.val) (s : Outer) :
    (motorRotationTranslationPidCalcApply i s).outputs = ⟨30, 0, s.rotationPid.output⟩ := by
  simp [motorRotationTranslationPidCalcApply, hmode, hview, Outer.setForward, Outer.setLeft,
    Outer.outputs]

/-- The commands do not depend on the commands before exactly in the modes that set all
three. -/
theorem outputs_independent_iff (i : Inputs) (s : Outer) :
    (∀ o o', (motorRotationTranslationPidCalcApply i (s.withOutputs o)).outputs =
      (motorRotationTranslationPidCalcApply i (s.withOutputs o')).outputs) ↔ SetsAll i := by
  constructor
  · intro h
    have h01 := h ⟨0, 0, 0⟩ ⟨1, 1, 1⟩
    refine ⟨fun hmode => ?_, fun hmode => ?_, fun hmode => ?_⟩
    · -- the rotation is left over
      rw [outputs_linePositionBack hmode, outputs_linePositionBack hmode] at h01
      simp [Outer.withOutputs, Outer.setForward, Outer.setLeft, Outer.setRotation] at h01
    · -- the translation is left over
      rw [outputs_lineAngleBack hmode, outputs_lineAngleBack hmode] at h01
      simp [Outer.withOutputs, Outer.setForward, Outer.setLeft, Outer.setRotation] at h01
    · -- with the cube out of view only the rotation is left over
      by_contra hview
      rw [outputs_cubePush hmode hview, outputs_cubePush hmode hview] at h01
      simp [Outer.withOutputs, Outer.setForward, Outer.setLeft, Outer.setRotation] at h01
  · intro h o o'
    rw [apply_withOutputs h, apply_withOutputs h]

/-- The car backs off the edge of the track. -/
def backingOff : Inputs where
  motionMode := .linePositionBack
  elementType := .normal
  cubeInfo := ⟨CubeDetectionState.cubeOutsideView.val, 0, 0, 0, 0⟩
  angleZ := 0
  targetGyroAngleZ := 0
  lineGyroAngleZ := 0
  paramStraightPidOutput := 80
  paramCurvePidOutput := 70

/-- The controllers of the outer loop at power-up. -/
def Outer.start : Outer where
  translationForwardPid := ⟨.poi, 1, 0, 0, 0, 0, 0, 0, 100, 0, 0⟩
  translationLeftPid := ⟨.poi, 7 / 10, 0, 0, 0, 0, 0, 0, 100, 0, 0⟩
  rotationPid := ⟨.poi, 1 / 2, 1 / 100, 2 / 25, 0, 0, 0, 0, 100, 0, 0⟩
  offset := 0

/-- It goes on turning if it was turning. -/
theorem backingOff_turns :
    ¬ ∀ s o o', (motorRotationTranslationPidCalcApply backingOff (Outer.withOutputs s o)).outputs =
      (motorRotationTranslationPidCalcApply backingOff (s.withOutputs o')).outputs := by
  intro h
  have h05 := h Outer.start ⟨30, 0, 0⟩ ⟨30, 0, 5⟩
  rw [outputs_linePositionBack rfl, outputs_linePositionBack rfl] at h05
  simp [Outer.withOutputs, Outer.setForward, Outer.setLeft, Outer.setRotation] at h05

end SmartCar.Motion

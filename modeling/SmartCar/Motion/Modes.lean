import SmartCar.Art.OpenArt
import SmartCar.Lib.CInt
import SmartCar.Lib.Events
import SmartCar.Lib.Queue
import SmartCar.Mcx.Vision

/-!
# motion_control: the mode machine

`motion_mode_calc`, which the main loop calls again and again. What the sensors
and the receivers have put into their variables in the meantime is the event;
angles are exact rationals.
-/

namespace SmartCar.Motion

open Art Mcx CInt

/-! ## Data -/

/-- `MotionMode`; `unknown` stands for any value that is not in the enumeration. -/
inductive MotionMode
  | lineFollow | cubeDistancePosition | cubeIdentify | cubeAnglePosition | cubePush
  | linePositionBack | lineAngleBack | unknown
deriving DecidableEq, Repr

/-- `GRAY_IN_TRACK` -/
def grayInTrack : UInt8 := 0

/-- `GRAY_OUT_TRACK` -/
def grayOutTrack : UInt8 := 1

/-- `IMAGE_IDENTIFY_WAIT_TIME`, in milliseconds. -/
def imageIdentifyWaitTime : UInt32 := 3000

/-- What a call reads: `cube_info`, `gyroscope_result.angle_z`, `grayscale_data`,
`current_cube_face_info` and the timer. -/
structure Readings where
  cubeInfo : CubeReport
  angleZ : ℚ
  grayscaleData : UInt8
  currentCubeFaceInfo : CubeFaceInfo
  timer : UInt32

/-- The variables of the mode machine. `cubeInfoList` holds the entries of
`cube_info_list` below `cube_info_list_next_index`. -/
structure State where
  motionMode : MotionMode
  lastMotionMode : MotionMode
  lineGyroAngleZ : ℚ
  targetGyroAngleZ : ℚ
  imageIdentifyWaitStartTime : UInt32
  imageIdentifyWaitFlag : Bool
  cubePushDir : CubePushDir
  targetAngleZSettedFlag : Bool
  cubeInfoList : Queue CubeFaceInfo 13

/-- `abs` of the C library; `abs(INT_MIN)` does not fit and stays `INT_MIN`. -/
def cAbs (z : ℤ) : ℤ := i32 |z|

theorem cAbs_of_range {z : ℤ} (h : -2147483648 < z ∧ z < 2147483648) : cAbs z = |z| := by
  have hnonneg := abs_nonneg z
  have hlt : |z| < 2147483648 := abs_lt.mpr h
  rw [cAbs, i32_of_range (by omega)]

/-! ## The machine -/

/-- `cube_info_add`: once the list is full, nothing is added. -/
def cubeInfoAdd (list : Queue CubeFaceInfo 13) (cls : UInt8) (number : UInt8) :
    Queue CubeFaceInfo 13 :=
  list.push { valid := true, cls := cls, classProb := ⟨.fin 0, none⟩, number := number
              numberProb := .fin 0 }

/-- Record the mode, and change it. -/
def State.enter (s : State) (mode : MotionMode) : State :=
  { s with lastMotionMode := s.motionMode, motionMode := mode }

/-- The cube is centred and near: `abs(x_center - 160) < 20` and
`abs(20000 - p_count) < 1500`. The second difference is unsigned, and narrowed to
`int` by the call. -/
def Positioned (cube : CubeReport) : Prop :=
  cAbs (cube.xCenter.toNat - 160) < 20 ∧ cAbs (i32 (20000 - cube.pCount.toNat)) < 1500

instance (cube : CubeReport) : Decidable (Positioned cube) := inferInstanceAs (Decidable (_ ∧ _))

/-- `CUBE_IDENTIFY`, with the cube in view: wait, then decide. -/
def identify (s : State) (r : Readings) : State :=
  if ¬ s.imageIdentifyWaitFlag then
    { s with imageIdentifyWaitStartTime := r.timer, imageIdentifyWaitFlag := true }
  else if r.timer - s.imageIdentifyWaitStartTime ≥ imageIdentifyWaitTime then
    let face := r.currentCubeFaceInfo
    { s.enter .cubeAnglePosition with
      cubeInfoList := cubeInfoAdd s.cubeInfoList face.cls face.number
      cubePushDir := getCubePushDir face.cls face.number
      imageIdentifyWaitFlag := false }
  else s

/-- The angle that `CUBE_ANGLE_POSITION` turns to. -/
def pushAngle (dir : CubePushDir) (angle : ℚ) : ℚ :=
  match dir with
  | .left => angle - 90
  | .right => angle + 90

/-- `CUBE_ANGLE_POSITION` -/
def anglePosition (s : State) (r : Readings) : State :=
  -- at every call, not only at the first one
  let s := { s with lineGyroAngleZ := r.angleZ }
  if ¬ s.targetAngleZSettedFlag then
    { s with
      targetGyroAngleZ := pushAngle s.cubePushDir s.lineGyroAngleZ
      targetAngleZSettedFlag := true }
  else if |s.targetGyroAngleZ - r.angleZ| < 5 then
    { s.enter .cubePush with targetAngleZSettedFlag := false }
  else s

/-- `motion_mode_calc` -/
def motionModeCalc (s : State) (r : Readings) : State :=
  match s.motionMode with
  | .lineFollow =>
    if r.cubeInfo.state = CubeDetectionState.cubeInsideView.val then s.enter .cubeDistancePosition
    else s
  | .cubeDistancePosition =>
    if r.cubeInfo.state = CubeDetectionState.cubeOutsideView.val then
      { s with motionMode := .lineFollow }
    else if Positioned r.cubeInfo then s.enter .cubeIdentify
    else s
  | .cubeIdentify =>
    if r.cubeInfo.state = CubeDetectionState.cubeOutsideView.val then
      { s with imageIdentifyWaitFlag := false, motionMode := .lineFollow }
    else identify s r
  | .cubeAnglePosition => anglePosition s r
  | .cubePush => if r.grayscaleData = grayOutTrack then s.enter .linePositionBack else s
  | .linePositionBack => if r.grayscaleData = grayInTrack then s.enter .lineAngleBack else s
  | .lineAngleBack => if |r.angleZ - s.lineGyroAngleZ| < 5 then s.enter .lineFollow else s
  | .unknown => { s with motionMode := .lineFollow }

/-! ## Every way a call can go -/

/-- What one call of `motion_mode_calc` can do, with the guards. -/
inductive Transition (s : State) (r : Readings) : State → Prop
  | spotted (hmode : s.motionMode = .lineFollow)
      (hview : r.cubeInfo.state = CubeDetectionState.cubeInsideView.val) :
      Transition s r (s.enter .cubeDistancePosition)
  | lostApproaching (hmode : s.motionMode = .cubeDistancePosition)
      (hview : r.cubeInfo.state = CubeDetectionState.cubeOutsideView.val) :
      Transition s r { s with motionMode := .lineFollow }
  | positioned (hmode : s.motionMode = .cubeDistancePosition)
      (hview : r.cubeInfo.state ≠ CubeDetectionState.cubeOutsideView.val)
      (hpos : Positioned r.cubeInfo) :
      Transition s r (s.enter .cubeIdentify)
  | lostIdentifying (hmode : s.motionMode = .cubeIdentify)
      (hview : r.cubeInfo.state = CubeDetectionState.cubeOutsideView.val) :
      Transition s r { s with imageIdentifyWaitFlag := false, motionMode := .lineFollow }
  | waitBegun (hmode : s.motionMode = .cubeIdentify)
      (hview : r.cubeInfo.state ≠ CubeDetectionState.cubeOutsideView.val)
      (hwait : s.imageIdentifyWaitFlag = false) :
      Transition s r
        { s with imageIdentifyWaitStartTime := r.timer, imageIdentifyWaitFlag := true }
  | identified (hmode : s.motionMode = .cubeIdentify)
      (hview : r.cubeInfo.state ≠ CubeDetectionState.cubeOutsideView.val)
      (hwait : s.imageIdentifyWaitFlag = true)
      (htime : r.timer - s.imageIdentifyWaitStartTime ≥ imageIdentifyWaitTime) :
      Transition s r
        { s.enter .cubeAnglePosition with
          cubeInfoList := cubeInfoAdd s.cubeInfoList r.currentCubeFaceInfo.cls
            r.currentCubeFaceInfo.number
          cubePushDir := getCubePushDir r.currentCubeFaceInfo.cls r.currentCubeFaceInfo.number
          imageIdentifyWaitFlag := false }
  | aimed (hmode : s.motionMode = .cubeAnglePosition) (hset : s.targetAngleZSettedFlag = false) :
      Transition s r
        { s with
          lineGyroAngleZ := r.angleZ
          targetGyroAngleZ := pushAngle s.cubePushDir r.angleZ
          targetAngleZSettedFlag := true }
  | turned (hmode : s.motionMode = .cubeAnglePosition) (hset : s.targetAngleZSettedFlag = true)
      (hclose : |s.targetGyroAngleZ - r.angleZ| < 5) :
      Transition s r
        { s.enter .cubePush with lineGyroAngleZ := r.angleZ, targetAngleZSettedFlag := false }
  | turning (hmode : s.motionMode = .cubeAnglePosition) (hset : s.targetAngleZSettedFlag = true)
      (hclose : ¬ |s.targetGyroAngleZ - r.angleZ| < 5) :
      Transition s r { s with lineGyroAngleZ := r.angleZ }
  | pushedOut (hmode : s.motionMode = .cubePush) (hgray : r.grayscaleData = grayOutTrack) :
      Transition s r (s.enter .linePositionBack)
  | backOnTrack (hmode : s.motionMode = .linePositionBack)
      (hgray : r.grayscaleData = grayInTrack) :
      Transition s r (s.enter .lineAngleBack)
  | aligned (hmode : s.motionMode = .lineAngleBack)
      (hclose : |r.angleZ - s.lineGyroAngleZ| < 5) :
      Transition s r (s.enter .lineFollow)
  | reset (hmode : s.motionMode = .unknown) :
      Transition s r { s with motionMode := .lineFollow }
  | stay (hmode : s.motionMode ≠ .cubeAnglePosition) : Transition s r s

theorem transition_identify {s : State} {r : Readings} (hmode : s.motionMode = .cubeIdentify)
    (hview : r.cubeInfo.state ≠ CubeDetectionState.cubeOutsideView.val) :
    Transition s r (identify s r) := by
  unfold identify
  by_cases hwait : s.imageIdentifyWaitFlag = true
  · rw [if_neg (not_not.mpr hwait)]
    by_cases htime : r.timer - s.imageIdentifyWaitStartTime ≥ imageIdentifyWaitTime
    · rw [if_pos htime]
      exact .identified hmode hview hwait htime
    · rw [if_neg htime]
      exact .stay (by rw [hmode]; decide)
  · rw [if_pos hwait]
    exact .waitBegun hmode hview (by simpa using hwait)

theorem transition_anglePosition {s : State} {r : Readings}
    (hmode : s.motionMode = .cubeAnglePosition) : Transition s r (anglePosition s r) := by
  unfold anglePosition
  by_cases hset : s.targetAngleZSettedFlag = true
  · rw [if_neg (not_not.mpr hset)]
    by_cases hclose : |s.targetGyroAngleZ - r.angleZ| < 5
    · rw [if_pos hclose]
      exact .turned hmode hset hclose
    · rw [if_neg hclose]
      exact .turning hmode hset hclose
  · rw [if_pos hset]
    exact .aimed hmode (by simpa using hset)

/-- A call makes one of these transitions. -/
theorem transition_motionModeCalc (s : State) (r : Readings) :
    Transition s r (motionModeCalc s r) := by
  unfold motionModeCalc
  cases hmode : s.motionMode with
  | lineFollow =>
    dsimp only
    split_ifs with hview
    · exact .spotted hmode hview
    · exact .stay (by rw [hmode]; decide)
  | cubeDistancePosition =>
    dsimp only
    split_ifs with hview hpos
    · exact .lostApproaching hmode hview
    · exact .positioned hmode hview hpos
    · exact .stay (by rw [hmode]; decide)
  | cubeIdentify =>
    dsimp only
    split_ifs with hview
    · exact .lostIdentifying hmode hview
    · exact transition_identify hmode hview
  | cubeAnglePosition => exact transition_anglePosition hmode
  | cubePush =>
    dsimp only
    split_ifs with hgray
    · exact .pushedOut hmode hgray
    · exact .stay (by rw [hmode]; decide)
  | linePositionBack =>
    dsimp only
    split_ifs with hgray
    · exact .backOnTrack hmode hgray
    · exact .stay (by rw [hmode]; decide)
  | lineAngleBack =>
    dsimp only
    split_ifs with hclose
    · exact .aligned hmode hclose
    · exact .stay (by rw [hmode]; decide)
  | unknown => exact .reset hmode

namespace Transition

variable {s s' : State} {r : Readings}

/-- The line's angle is written in `CUBE_ANGLE_POSITION` only. -/
theorem lineGyroAngleZ_eq (h : Transition s r s') :
    s'.lineGyroAngleZ =
      if s.motionMode = .cubeAnglePosition then r.angleZ else s.lineGyroAngleZ := by
  cases h <;> simp_all [State.enter]

/-- `CUBE_ANGLE_POSITION` is not left for `LINE_FOLLOW`. -/
theorem ne_lineFollow (h : Transition s r s') (hmode : s.motionMode = .cubeAnglePosition) :
    s'.motionMode ≠ .lineFollow := by
  cases h <;> simp_all [State.enter]

/-- `LINE_ANGLE_BACK` is left for `LINE_FOLLOW` next to the line's angle. -/
theorem close_of_back (h : Transition s r s') (hmode : s.motionMode = .lineAngleBack)
    (hmode' : s'.motionMode = .lineFollow) : |r.angleZ - s.lineGyroAngleZ| < 5 := by
  cases h <;> simp_all [State.enter]

/-- The first call in `CUBE_ANGLE_POSITION` sets the target. -/
theorem target_of_aimed (h : Transition s r s') (hmode : s.motionMode = .cubeAnglePosition)
    (hset : s.targetAngleZSettedFlag = false) :
    s'.targetGyroAngleZ = pushAngle s.cubePushDir r.angleZ := by
  cases h <;> simp_all

end Transition

/-! ## Where runs start -/

/-- In `LINE_FOLLOW`, with both helper flags clear. -/
structure Rest (s : State) : Prop where
  mode : s.motionMode = .lineFollow
  wait : s.imageIdentifyWaitFlag = false
  setted : s.targetAngleZSettedFlag = false

/-- The machine at power-up. -/
def start : State where
  motionMode := .lineFollow
  lastMotionMode := .lineFollow
  lineGyroAngleZ := 0
  targetGyroAngleZ := 0
  imageIdentifyWaitStartTime := 0
  imageIdentifyWaitFlag := false
  cubePushDir := .left
  targetAngleZSettedFlag := false
  cubeInfoList := .empty

theorem rest_start : Rest start := ⟨rfl, rfl, rfl⟩

end SmartCar.Motion

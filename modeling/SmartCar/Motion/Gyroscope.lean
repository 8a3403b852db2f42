import Mathlib.Data.Rat.Defs
import Mathlib.Algebra.BigOperators.Group.List.Basic
import Mathlib.Tactic.Linarith
import SmartCar.Lib.Events

/-!
# gyroscope: the angle of the car

The PIT interrupt reads the gyroscope every `GYROSCOPE_PIT_TIME` ms. The first 1000 samples go
into `gyro_z_offset`, which is then divided to their mean; from the next sample on, what differs
from the mean is added up to an angle. A `float` is a rational number here.

* `Phase`: what the variables hold in either phase;
* `calibrated_and_integrated`: the mean of the first 1000 samples, and the angle of all others.
-/

namespace SmartCar.Motion

open Events

/-! ## Data -/

/-- The ranges of the IMU660RA. -/
inductive GyroSample
  | sgn125dps | sgn250dps | sgn500dps | sgn1000dps | sgn2000dps
deriving DecidableEq, Repr

/-- `imu660ra_transition_factor[1]`, as `imu660ra_init` sets it for a range. -/
def GyroSample.transitionFactor : GyroSample → ℚ
  | sgn125dps => 262.4
  | sgn250dps => 131.2
  | sgn500dps => 65.6
  | sgn1000dps => 32.8
  | sgn2000dps => 16.4

/-- `GYROSCOPE_PIT_TIME` -/
def gyroscopePitTime : ℚ := 1

/-- The variables of `gyroscope.c`. -/
structure Gyroscope where
  offsetTestFinish : Bool
  offsetTestCount : ℤ
  gyroZOffset : ℚ
  gyroZ : ℚ
  angleZ : ℚ
deriving DecidableEq

/-- The six registers of the gyroscope. -/
abbrev GyroRegisters := Vector UInt8 6

/-! ## The code -/

/-- `imu660ra_get_gyro`, for the z axis. -/
def imu660raGetGyro (dat : GyroRegisters) : Int16 :=
  ((dat[5].toUInt16 <<< 8) ||| dat[4].toUInt16).toInt16

/-- `imu660ra_gyro_transition` -/
def imu660raGyroTransition (range : GyroSample) (gyroValue : Int16) : ℚ :=
  gyroValue.toInt / range.transitionFactor

/-- `gyroscope_data_process` -/
def gyroscopeDataProcess (range : GyroSample) (s : Gyroscope) (imu660raGyroZ : Int16) :
    Gyroscope :=
  let gyroZ := imu660raGyroTransition range imu660raGyroZ - s.gyroZOffset
  { s with gyroZ := gyroZ, angleZ := s.angleZ + gyroZ * gyroscopePitTime / 1000 }

/-- `gyroscope_pit_callback` -/
def gyroscopePitCallback (range : GyroSample) (s : Gyroscope) (dat : GyroRegisters) : Gyroscope :=
  let imu660raGyroZ := imu660raGetGyro dat
  if ¬ s.offsetTestFinish then
    let s :=
      if s.offsetTestCount < 1000 then
        { s with
          gyroZOffset := s.gyroZOffset + imu660raGyroTransition range imu660raGyroZ
          offsetTestCount := s.offsetTestCount + 1 }
      else s
    if s.offsetTestCount = 1000 then
      { s with
        gyroZOffset := s.gyroZOffset / 1000
        offsetTestCount := 0
        offsetTestFinish := true }
    else s
  else gyroscopeDataProcess range s imu660raGyroZ

def gyroscopePowerUp : Gyroscope := ⟨false, 0, 0, 0, 0⟩

variable {range : GyroSample} {s : Gyroscope} {tr first rest : List GyroRegisters}
  {dat : GyroRegisters}

/-! ## The two phases -/

/-- The z-rate of a sample. -/
def zRate (range : GyroSample) (dat : GyroRegisters) : ℚ :=
  imu660raGyroTransition range (imu660raGetGyro dat)

/-- The mean of the z-rates of some samples. -/
def meanRate (range : GyroSample) (samples : List GyroRegisters) : ℚ :=
  (samples.map (zRate range)).sum / samples.length

/-- The angle that the z-rates of some samples make, seen from an offset. -/
def angleOf (range : GyroSample) (offset : ℚ) (samples : List GyroRegisters) : ℚ :=
  (samples.map fun dat => (zRate range dat - offset) * gyroscopePitTime / 1000).sum

/-- Fewer than 1000 samples have come: they are added up. -/
structure Calibrating (range : GyroSample) (tr : List GyroRegisters) (s : Gyroscope) : Prop where
  short : tr.length < 1000
  finish : s.offsetTestFinish = false
  count : s.offsetTestCount = tr.length
  offset : s.gyroZOffset = (tr.map (zRate range)).sum
  angle : s.angleZ = 0

/-- The first 1000 samples have been turned into their mean; the others make the angle. -/
structure Integrating (range : GyroSample) (first rest : List GyroRegisters) (s : Gyroscope) :
    Prop where
  full : first.length = 1000
  finish : s.offsetTestFinish = true
  offset : s.gyroZOffset = meanRate range first
  angle : s.angleZ = angleOf range (meanRate range first) rest

/-- A run is in one of the two phases. -/
inductive Phase (range : GyroSample) (tr : List GyroRegisters) (s : Gyroscope) : Prop
  | calibrating (h : Calibrating range tr s)
  | integrating (first rest : List GyroRegisters) (heq : tr = first ++ rest)
      (h : Integrating range first rest s)

theorem powerUp_calibrating (range : GyroSample) : Calibrating range [] gyroscopePowerUp where
  short := by decide
  finish := rfl
  count := rfl
  offset := rfl
  angle := rfl

/-- The sample is added to the others. -/
theorem Calibrating.step (h : Calibrating range tr s) (hshort : tr.length + 1 < 1000)
    (dat : GyroRegisters) :
    Calibrating range (tr ++ [dat]) (gyroscopePitCallback range s dat) := by
  have hcount := h.count
  have hlt : s.offsetTestCount < 1000 := by omega
  have hne : s.offsetTestCount + 1 ≠ 1000 := by omega
  have hstep : gyroscopePitCallback range s dat =
      { s with
        gyroZOffset := s.gyroZOffset + zRate range dat
        offsetTestCount := s.offsetTestCount + 1 } := by
    simp [gyroscopePitCallback, h.finish, hlt, hne, zRate]
  rw [hstep]
  constructor
  · simpa using hshort
  · exact h.finish
  · simp [hcount]
  · simp [h.offset]
  · exact h.angle

/-- The last sample of the calibration: it is added, and the sum is divided. -/
theorem Calibrating.switch (h : Calibrating range tr s) (hlast : tr.length + 1 = 1000)
    (dat : GyroRegisters) :
    Integrating range (tr ++ [dat]) [] (gyroscopePitCallback range s dat) := by
  have hcount := h.count
  have hlt : s.offsetTestCount < 1000 := by omega
  have heq : s.offsetTestCount + 1 = 1000 := by omega
  have hstep : gyroscopePitCallback range s dat =
      { s with
        gyroZOffset := (s.gyroZOffset + zRate range dat) / 1000
        offsetTestCount := 0
        offsetTestFinish := true } := by
    simp [gyroscopePitCallback, h.finish, hlt, heq, zRate]
  have hlength : (tr ++ [dat]).length = 1000 := by simpa using hlast
  rw [hstep]
  constructor
  · exact hlength
  · rfl
  · rw [meanRate, hlength]
    simp [h.offset]
  · simpa [angleOf] using h.angle

/-- A sample that is not used for the calibration goes into the angle. -/
theorem Integrating.step (h : Integrating range first rest s) (dat : GyroRegisters) :
    Integrating range first (rest ++ [dat]) (gyroscopePitCallback range s dat) := by
  have hstep : gyroscopePitCallback range s dat =
      gyroscopeDataProcess range s (imu660raGetGyro dat) := by
    simp [gyroscopePitCallback, h.finish]
  rw [hstep]
  constructor
  · exact h.full
  · exact h.finish
  · exact h.offset
  · simp [gyroscopeDataProcess, angleOf, zRate, h.angle, h.offset]

theorem phase_run (range : GyroSample) (tr : List GyroRegisters) :
    Phase range tr (run (gyroscopePitCallback range) gyroscopePowerUp tr) := by
  refine run_induction (gyroscopePitCallback range) gyroscopePowerUp (Phase range)
    (.calibrating (powerUp_calibrating range)) ?_ tr
  intro tr dat ih
  cases ih with
  | calibrating h =>
    have hshort := h.short
    rcases Nat.lt_or_eq_of_le (Nat.succ_le_of_lt hshort) with hlt | hlast
    · exact .calibrating (h.step hlt dat)
    · exact .integrating (tr ++ [dat]) [] (by simp) (h.switch hlast dat)
  | integrating first rest heq h =>
    exact .integrating first (rest ++ [dat]) (by simp [heq]) (h.step dat)

/-- After 1000 samples and any others, the offset is the mean of the first 1000, and the angle
is that of all the others, seen from the mean. -/
theorem calibrated_and_integrated (range : GyroSample) (first rest : List GyroRegisters)
    (hfirst : first.length = 1000) :
    (run (gyroscopePitCallback range) gyroscopePowerUp (first ++ rest)).gyroZOffset =
        meanRate range first ∧
      (run (gyroscopePitCallback range) gyroscopePowerUp (first ++ rest)).angleZ =
        angleOf range (meanRate range first) rest := by
  cases phase_run range (first ++ rest) with
  | calibrating h =>
    have hshort := h.short
    rw [List.length_append] at hshort
    omega
  | integrating first' rest' heq h =>
    -- both have split the run after 1000 samples
    obtain ⟨rfl, rfl⟩ := List.append_inj heq (hfirst.trans h.full.symm)
    exact ⟨h.offset, h.angle⟩

/-- A car that stands still, and then turns by 5 degrees per second for 1 ms. -/
theorem calibrated_and_integrated_turning :
    (run (gyroscopePitCallback .sgn2000dps) gyroscopePowerUp
      (List.replicate 1000 (.replicate 6 0) ++ [#v[0, 0, 0, 0, 82, 0]])).angleZ = 1 / 200 := by
  have h := (calibrated_and_integrated .sgn2000dps (List.replicate 1000 (.replicate 6 0))
    [#v[0, 0, 0, 0, 82, 0]] List.length_replicate).2
  have hstill : zRate .sgn2000dps (.replicate 6 0) = 0 := by decide +kernel
  have hturn : zRate .sgn2000dps #v[0, 0, 0, 0, 82, 0] = 5 := by decide +kernel
  rw [h, meanRate, angleOf, List.map_replicate, hstill, List.map_singleton, hturn]
  norm_num [gyroscopePitTime]

end SmartCar.Motion

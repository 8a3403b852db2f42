import SmartCar.Motion.ControlLoop
import SmartCar.Motion.PushCycle

/-!
# motion_control: the main loop and the timer interrupt

The main loop calls `motion_mode_calc`, and the timer interrupt, which may come between
any two calls, runs the control loops on what the last call has left: an event of a run is
a call or a tick. Beside the car, `Stay` records the current stay in `CUBE_ANGLE_POSITION`.

* `TargetFresh`: the outer loop turns to a target that has been set during the stay;
* `CalledBefore`: the main loop has come round since the mode was entered;
* `target_fresh_iff`: the one is the other, in every run.
-/

namespace SmartCar.Motion

open Mcx MtImage Events

/-! ## Calls and ticks -/

/-- What a tick reads besides the variables of the mode machine: the sensors, the
parameters, and the flags of the three loops. -/
structure Sensors where
  elementType : ElementType
  offset : ℚ
  cubeInfo : CubeReport
  angleZ : ℚ
  paramStraightPidOutput : UInt16
  paramCurvePidOutput : UInt16
  rotationTranslationFlag : Bool
  translationAngularVFlag : Bool
  speedFlag : Bool
  motorEnableFlag : Bool

/-- A tick, in the mode and with the angles that the mode machine has left. -/
def Sensors.tick (v : Sensors) (s : State) : Tick where
  inputs :=
    { motionMode := s.motionMode, elementType := v.elementType, cubeInfo := v.cubeInfo
      angleZ := v.angleZ, targetGyroAngleZ := s.targetGyroAngleZ
      lineGyroAngleZ := s.lineGyroAngleZ, paramStraightPidOutput := v.paramStraightPidOutput
      paramCurvePidOutput := v.paramCurvePidOutput }
  offset := v.offset
  rotationTranslationFlag := v.rotationTranslationFlag
  translationAngularVFlag := v.translationAngularVFlag
  speedFlag := v.speedFlag
  motorEnableFlag := v.motorEnableFlag

inductive Event
  | call (r : Readings)
  | tick (v : Sensors)

/-- The mode machine and the control loops. -/
structure Car where
  modes : State
  control : Control

/-- The current stay in `CUBE_ANGLE_POSITION`: the calls made in it, and the target that
the last of them to set one has set. -/
structure Stay where
  calls : ℕ
  target : Option ℚ

structure Watched where
  car : Car
  stay : Stay

/-- A call in this state sets the target. -/
def SetsTarget (s : State) : Prop :=
  s.motionMode = .cubeAnglePosition ∧ s.targetAngleZSettedFlag = false

instance (s : State) : Decidable (SetsTarget s) := inferInstanceAs (Decidable (_ ∧ _))

/-- The stay after a call from `s` to `s'`: it goes on, or is over, or has just begun. -/
def Stay.after (k : Stay) (s s' : State) : Stay :=
  if s.motionMode = .cubeAnglePosition ∧ s'.motionMode = .cubeAnglePosition then
    { calls := k.calls + 1
      target := if SetsTarget s then some s'.targetGyroAngleZ else k.target }
  else ⟨0, none⟩

/-- An event; a tick may fail in the control loops. -/
def Watched.next (w : Watched) : Event → Option Watched
  | .call r =>
    let modes := motionModeCalc w.car.modes r
    some { car := { w.car with modes := modes }, stay := w.stay.after w.car.modes modes }
  | .tick v =>
    (motionControlPidCallback (v.tick w.car.modes) w.car.control).map fun control =>
      { w with car := { w.car with control := control } }

/-- A run goes on for as long as no tick fails. -/
def happen (w : Option Watched) (e : Event) : Option Watched := w.bind (·.next e)

/-- A run starts outside `CUBE_ANGLE_POSITION`. -/
def watch (s : Car) : Option Watched := some ⟨s, 0, none⟩

/-! ## Law and condition -/

/-- The tick runs the outer loop, and that the branch of `CUBE_ANGLE_POSITION`. -/
def Turns (s : Car) (v : Sensors) : Prop :=
  (s.control.pitCount + 1) % 4 = 0 ∧ v.rotationTranslationFlag = true ∧
    s.modes.motionMode = .cubeAnglePosition

instance (s : Car) (v : Sensors) : Decidable (Turns s v) := inferInstanceAs (Decidable (_ ∧ _ ∧ _))

/-- Such a tick commands the turn to the target. -/
theorem Turns.rotation {s : Car} {v : Sensors} (h : Turns s v) (outer : Outer) :
    let control := { s.control with outer := outer, pitCount := s.control.pitCount + 1 }
    (outerTick (v.tick s.modes) control).outer.outputs.rotation =
      s.modes.targetGyroAngleZ - v.angleZ := by
  intro control
  obtain ⟨hcount, hflag, hmode⟩ := h
  have hrun : control.pitCount % 4 = 0 ∧ (v.tick s.modes).rotationTranslationFlag :=
    ⟨hcount, hflag⟩
  rw [outerTick, if_pos hrun]
  simp [motorRotationTranslationPidCalcApply, Sensors.tick, hmode, Outer.outputs, Outer.setRotation]

/-- The target that the outer loop turns to has been set during the stay. -/
def TargetFresh (_ : List Event) (w : Option Watched) (e : Event) : Prop :=
  ∀ t ∈ w, ∀ v, e = .tick v → Turns t.car v → t.stay.target = some t.car.modes.targetGyroAngleZ

/-- The main loop has made a call since it has entered `CUBE_ANGLE_POSITION`. -/
def CalledBefore (_ : List Event) (w : Option Watched) (e : Event) : Prop :=
  ∀ t ∈ w, ∀ v, e = .tick v → Turns t.car v → 0 < t.stay.calls

/-! ## The invariant of a stay -/

/-- The first call of a stay sets the target, and the flag says that it has been made. -/
structure StayInv (w : Watched) : Prop where
  outside : w.car.modes.motionMode ≠ .cubeAnglePosition →
    w.car.modes.targetAngleZSettedFlag = false
  entered : w.car.modes.motionMode = .cubeAnglePosition → w.stay.calls = 0 →
    w.car.modes.targetAngleZSettedFlag = false ∧ w.stay.target = none
  called : w.car.modes.motionMode = .cubeAnglePosition → 0 < w.stay.calls →
    w.car.modes.targetAngleZSettedFlag = true ∧
      w.stay.target = some w.car.modes.targetGyroAngleZ

theorem init_stayInv {s : Car} (h : Rest s.modes) : StayInv ⟨s, 0, none⟩ where
  outside := fun _ => h.setted
  entered := by simp [h.mode]
  called := by simp [h.mode]

/-- Outside `CUBE_ANGLE_POSITION` the flag is not touched. -/
theorem Transition.flag_eq {s s' : State} {r : Readings} (h : Transition s r s')
    (hmode : s.motionMode ≠ .cubeAnglePosition) :
    s'.targetAngleZSettedFlag = s.targetAngleZSettedFlag := by
  cases h <;> simp_all [State.enter]

theorem stayInv_call {w : Watched} (h : StayInv w) {r : Readings} {s' : State}
    (htr : Transition w.car.modes r s') :
    StayInv ⟨{ w.car with modes := s' }, w.stay.after w.car.modes s'⟩ := by
  rcases w with ⟨⟨s, control⟩, k⟩
  dsimp only at htr ⊢
  by_cases hmode : s.motionMode = .cubeAnglePosition
  · cases htr with
    | aimed _ hset => constructor <;> simp [Stay.after, SetsTarget, hmode, hset]
    | turned => constructor <;> simp [Stay.after, State.enter]
    | turning _ hset =>
      -- the target has been set by an earlier call
      have hcalls : 0 < k.calls := by
        by_contra hzero
        have hflag := (h.entered hmode (by simpa using hzero)).1
        exact absurd (hset.symm.trans hflag) (by decide)
      obtain ⟨-, htarget⟩ := h.called hmode hcalls
      constructor <;> simp_all [Stay.after, SetsTarget]
    | spotted h' | lostApproaching h' | positioned h' | lostIdentifying h' | waitBegun h'
    | identified h' | pushedOut h' | backOnTrack h' | aligned h' | reset h' =>
      exact absurd (hmode.symm.trans h') (by decide)
    | stay h' => exact absurd hmode h'
  · have hflag : s'.targetAngleZSettedFlag = false := (htr.flag_eq hmode).trans (h.outside hmode)
    constructor <;> simp [Stay.after, hmode, hflag]

theorem stayInv_next {w w' : Watched} (h : StayInv w) {e : Event} (he : w.next e = some w') :
    StayInv w' := by
  cases e with
  | call r =>
    cases he
    exact stayInv_call h (transition_motionModeCalc w.car.modes r)
  | tick v =>
    -- a tick does not touch the mode machine
    obtain ⟨control, -, rfl⟩ := Option.map_eq_some_iff.mp he
    exact ⟨h.outside, h.entered, h.called⟩

theorem stayInv_run {s : Car} (h : Rest s.modes) :
    ∀ tr, ∀ w ∈ run happen (watch s) tr, StayInv w := by
  refine run_induction happen (watch s) (fun _ o => ∀ w ∈ o, StayInv w) ?_ ?_
  · rintro w hw
    cases hw
    exact init_stayInv h
  · rintro tr e ih w' hw'
    obtain ⟨w, hw, he⟩ := Option.bind_eq_some_iff.mp hw'
    exact stayInv_next (ih w hw) he

/-- In `CUBE_ANGLE_POSITION` the target is that of the stay once a call has been made. -/
theorem StayInv.fresh_iff {w : Watched} (h : StayInv w)
    (hmode : w.car.modes.motionMode = .cubeAnglePosition) :
    w.stay.target = some w.car.modes.targetGyroAngleZ ↔ 0 < w.stay.calls := by
  constructor
  · intro htarget
    by_contra hzero
    have hnone := (h.entered hmode (by simpa using hzero)).2
    rw [hnone] at htarget
    cases htarget
  · exact fun hcalls => (h.called hmode hcalls).2

/-- In every run the outer loop turns to a target of the current stay if and only if each
time the main loop has come round since it entered the mode. -/
theorem target_fresh_iff (s : Car) (h : Rest s.modes) (tr : List Event) :
    Along happen (watch s) TargetFresh tr ↔ Along happen (watch s) CalledBefore tr := by
  have hiff : ∀ before o e, (∀ w ∈ o, StayInv w) →
      (TargetFresh before o e ↔ CalledBefore before o e) := by
    intro before o e inv
    refine forall_congr' fun w => forall_congr' fun hw => forall_congr' fun v =>
      forall_congr' fun _ => forall_congr' fun hturns => ?_
    exact (inv w hw).fresh_iff hturns.2.2
  exact along_congr happen (watch s) _ _
    (fun before e => hiff before _ e (stayInv_run h before)) tr

/-! ## A tick between two calls -/

/-- The car at power-up. -/
def Car.start : Car := ⟨Motion.start, Control.start⟩

/-- A tick with all loops on, on a straight track. -/
def straightAhead : Sensors where
  elementType := .normal
  offset := 0
  cubeInfo := ⟨CubeDetectionState.cubeInsideView.val, 160, 120, 20000, 0⟩
  angleZ := 0
  paramStraightPidOutput := 80
  paramCurvePidOutput := 70
  rotationTranslationFlag := true
  translationAngularVFlag := true
  speedFlag := true
  motorEnableFlag := true

/-- Three ticks on the line, a whole push cycle, the calls of the next one up to
`CUBE_ANGLE_POSITION`. -/
def secondCube : List Event :=
  List.replicate 3 (.tick straightAhead) ++ (pushRun 8 2 ++ (pushRun 8 2).take 4).map .call

theorem target_fresh_iff_secondCube :
    Along happen (watch Car.start) TargetFresh (secondCube ++ [.tick straightAhead]) ↔
      Along happen (watch Car.start) CalledBefore (secondCube ++ [.tick straightAhead]) :=
  target_fresh_iff Car.start rest_start (secondCube ++ [.tick straightAhead])

/-- The outer loop turns to the target of the cube before. -/
theorem target_not_fresh :
    ¬ Along happen (watch Car.start) TargetFresh (secondCube ++ [.tick straightAhead]) := by
  intro h
  have hstale : (run happen (watch Car.start) secondCube).any (fun w => decide
      (Turns w.car straightAhead ∧ w.stay.target = none ∧ w.car.modes.targetGyroAngleZ = 90)) =
        true := by
    decide +kernel
  obtain ⟨w, hw, hcheck⟩ := (Option.any_eq_true _ _).mp hstale
  obtain ⟨hturns, hnone, -⟩ := of_decide_eq_true hcheck
  have hfresh := h secondCube (.tick straightAhead) [] rfl w hw straightAhead rfl hturns
  rw [hnone] at hfresh
  cases hfresh

end SmartCar.Motion

import Mathlib.Data.UInt
import SmartCar.Motion.PushCycle

/-!
# motion_control: what precedes a push

The stages of a push cycle are kept in order by the mode and by two flags. `Prepared`
says, of the calls of `motion_mode_calc` so far, that the last ones went through every
stage: the cube was approached, identified for three seconds, listed once, and the car
turned to a target that this cycle has set.

* `Stage` is what holds of the history in each mode;
* `push_safe` is the law, with the law of the two flags.
-/

namespace SmartCar.Motion

open Art Mcx CInt Events

/-- A call of `motion_mode_calc`: the state it was made in, and what it read. -/
abbrev Call := State × Readings

/-! ## The stages -/

/-- The cube is within 20 columns of the middle, and its size within 1500 of 20000. -/
def Near (cube : CubeReport) : Prop :=
  |(cube.xCenter.toNat : ℤ) - 160| < 20 ∧ |(20000 : ℤ) - cube.pCount.toNat| < 1500

/-- The report has the cube inside the view, if its state is one of the enumeration. -/
def InView (cube : CubeReport) : Prop :=
  ∀ v : CubeDetectionState, cube.state = v.val → v = .cubeInsideView

/-- The call makes a call of `cube_info_add`. -/
def Adds (c : Call) : Prop :=
  c.1.motionMode = .cubeIdentify ∧ c.2.cubeInfo.state ≠ CubeDetectionState.cubeOutsideView.val ∧
    c.1.imageIdentifyWaitFlag = true ∧
    c.2.timer - c.1.imageIdentifyWaitStartTime ≥ imageIdentifyWaitTime

instance (c : Call) : Decidable (Adds c) := inferInstanceAs (Decidable (_ ∧ _))

/-- The number of calls of `cube_info_add`. -/
def additions (calls : List Call) : ℕ := calls.countP fun c => decide (Adds c)

/-- Calls in `CUBE_DISTANCE_POSITION`, the last of them next to the cube. -/
structure Approached (calls : List Call) : Prop where
  mode : ∀ c ∈ calls, c.1.motionMode = .cubeDistancePosition
  near : ∃ c ∈ calls.getLast?, Near c.2.cubeInfo

/-- Calls in `CUBE_IDENTIFY` that all saw the cube, for three seconds. -/
structure Identified (calls : List Call) : Prop where
  mode : ∀ c ∈ calls, c.1.motionMode = .cubeIdentify
  view : ∀ c ∈ calls, InView c.2.cubeInfo
  wait : ∃ first ∈ calls.head?, ∃ last ∈ calls.getLast?,
    last.2.timer - first.2.timer ≥ imageIdentifyWaitTime

/-- Calls in `CUBE_ANGLE_POSITION`: the first sets the target, the last is close to it. -/
structure Turned (calls : List Call) : Prop where
  mode : ∀ c ∈ calls, c.1.motionMode = .cubeAnglePosition
  close : ∃ first ∈ calls.head?, ∃ last ∈ calls.getLast?,
    last.1.targetGyroAngleZ = pushAngle first.1.cubePushDir first.2.angleZ ∧
      |last.1.targetGyroAngleZ - last.2.angleZ| < 5

/-- Since `LINE_FOLLOW` was left the last time, the calls have gone through every stage. -/
def Prepared (calls : List Call) : Prop :=
  ∃ before leave distance waiting turning,
    calls = before ++ leave :: (distance ++ waiting ++ turning) ∧
      leave.1.motionMode = .lineFollow ∧ Approached distance ∧ Identified waiting ∧
      Turned turning ∧ additions (leave :: (distance ++ waiting ++ turning)) = 1

/-- `cube_info_list` changes by the calls of `cube_info_add`, and by them only. -/
theorem cubeInfoList_motionModeCalc (s : State) (r : Readings) :
    (motionModeCalc s r).cubeInfoList =
      if Adds (s, r) then
        cubeInfoAdd s.cubeInfoList r.currentCubeFaceInfo.cls r.currentCubeFaceInfo.number
      else s.cubeInfoList := by
  unfold motionModeCalc
  cases hmode : s.motionMode <;>
    simp [Adds, hmode, State.enter, identify, anglePosition] <;> split_ifs <;> simp_all

/-! ## Guards -/

theorem near_of_positioned {cube : CubeReport} (h : Positioned cube) (hp : cube.pCount < 2 ^ 31) :
    Near cube := by
  have hx := cube.xCenter.toNat_lt
  have hp' : cube.pCount.toNat < 2 ^ 31 := UInt32.lt_iff_toNat_lt.mp hp
  -- both differences fit an `int`, and so do their absolute values
  rwa [Positioned, cAbs_of_range (by omega), i32_of_range (by omega), cAbs_of_range (by omega)] at h

theorem inView_of_ne {cube : CubeReport} (h : cube.state ≠ CubeDetectionState.cubeOutsideView.val) :
    InView cube := by
  intro v hv
  cases v with
  | cubeOutsideView => exact absurd hv h
  | cubeInsideView => rfl

variable {s s' : State} {r : Readings} {calls : List Call}

/-- A call that does not give the cube up has seen it. -/
theorem view_of_identify (hmode : s.motionMode = .cubeIdentify)
    (hkept : (motionModeCalc s r).motionMode ≠ .lineFollow) :
    r.cubeInfo.state ≠ CubeDetectionState.cubeOutsideView.val := by
  intro hview
  simp [motionModeCalc, hmode, hview] at hkept

/-- `cube_info_add` is called when `CUBE_IDENTIFY` is left for `CUBE_ANGLE_POSITION`. -/
theorem adds_iff :
    Adds (s, r) ↔
      s.motionMode = .cubeIdentify ∧ (motionModeCalc s r).motionMode = .cubeAnglePosition := by
  unfold motionModeCalc
  cases hmode : s.motionMode <;>
    simp [Adds, hmode, State.enter, identify, anglePosition]
  all_goals split_ifs <;> simp_all

theorem additions_append (l l' : List Call) : additions (l ++ l') = additions l + additions l' :=
  List.countP_append

@[simp] theorem additions_singleton (c : Call) : additions [c] = if Adds c then 1 else 0 := by
  simp [additions, List.countP_singleton]

/-- Outside of `CUBE_IDENTIFY` nothing is added. -/
theorem additions_eq_zero (h : ∀ c ∈ calls, c.1.motionMode ≠ .cubeIdentify) :
    additions calls = 0 := by
  refine List.countP_eq_zero.mpr fun c hc => ?_
  simp [Adds, h c hc]

/-! ## The stages, while they are under way -/

/-- Calls in `CUBE_IDENTIFY`, and nothing added yet. -/
structure Waiting (s : State) (calls : List Call) : Prop where
  mode : ∀ c ∈ calls, c.1.motionMode = .cubeIdentify
  view : ∀ c ∈ calls, InView c.2.cubeInfo
  none : additions calls = 0
  idle : s.imageIdentifyWaitFlag = false → calls = []
  begun : s.imageIdentifyWaitFlag = true →
    ∃ first ∈ calls.head?, first.2.timer = s.imageIdentifyWaitStartTime

/-- Calls in `CUBE_ANGLE_POSITION`; the target is the one that the first of them has set. -/
structure Turning (s : State) (calls : List Call) : Prop where
  mode : ∀ c ∈ calls, c.1.motionMode = .cubeAnglePosition
  idle : s.targetAngleZSettedFlag = false → calls = []
  aimed : s.targetAngleZSettedFlag = true →
    ∃ first ∈ calls.head?, s.targetGyroAngleZ = pushAngle first.1.cubePushDir first.2.angleZ

/-- The flags are set in their modes only. -/
structure FlagsOk (s : State) : Prop where
  wait : s.imageIdentifyWaitFlag = true → s.motionMode = .cubeIdentify
  setted : s.targetAngleZSettedFlag = true → s.motionMode = .cubeAnglePosition

/-- What holds of the calls so far, by the mode they have led to. -/
structure Stage (calls : List Call) (s : State) : Prop where
  flags : FlagsOk s
  distance : s.motionMode = .cubeDistancePosition → ∃ before leave distance,
    calls = before ++ leave :: distance ∧ leave.1.motionMode = .lineFollow ∧
      ∀ c ∈ distance, c.1.motionMode = .cubeDistancePosition
  waiting : s.motionMode = .cubeIdentify → ∃ before leave distance waiting,
    calls = before ++ leave :: (distance ++ waiting) ∧ leave.1.motionMode = .lineFollow ∧
      Approached distance ∧ Waiting s waiting
  turning : s.motionMode = .cubeAnglePosition → ∃ before leave distance waiting turning,
    calls = before ++ leave :: (distance ++ waiting ++ turning) ∧
      leave.1.motionMode = .lineFollow ∧ Approached distance ∧ Identified waiting ∧
      additions waiting = 1 ∧ Turning s turning

/-- Outside the stages only the flags matter. -/
theorem stage_of_mode (hflags : FlagsOk s)
    (hmode : s.motionMode ∉
      [MotionMode.cubeDistancePosition, .cubeIdentify, .cubeAnglePosition]) : Stage calls s := by
  simp only [List.mem_cons, List.not_mem_nil, or_false, not_or] at hmode
  rcases hmode with ⟨hdistance, hidentify, hangle⟩
  exact ⟨hflags, fun h => absurd h hdistance, fun h => absurd h hidentify,
    fun h => absurd h hangle⟩

theorem flagsOk_of_clear (hwait : s.imageIdentifyWaitFlag = false)
    (hsetted : s.targetAngleZSettedFlag = false) : FlagsOk s :=
  ⟨fun h => by simp [hwait] at h, fun h => by simp [hsetted] at h⟩

/-! ## Steps -/

/-- The flags after a call. -/
theorem FlagsOk.step (h : FlagsOk s) (ht : Transition s r s') : FlagsOk s' := by
  rcases h with ⟨hwait, hsetted⟩
  cases ht <;> constructor <;> simp_all [State.enter]

/-- One more call in `CUBE_IDENTIFY` that stays there. -/
theorem Waiting.snoc (h : Waiting s calls) (hmode : s.motionMode = .cubeIdentify)
    (hmode' : (motionModeCalc s r).motionMode = .cubeIdentify)
    (hwait : s'.imageIdentifyWaitFlag = true)
    (htime : s'.imageIdentifyWaitStartTime =
      if s.imageIdentifyWaitFlag then s.imageIdentifyWaitStartTime else r.timer) :
    Waiting s' (calls ++ [(s, r)]) := by
  have hview := view_of_identify (r := r) hmode (by simp [hmode'])
  refine ⟨?_, ?_, ?_, ?_, ?_⟩
  · simpa [or_imp, forall_and, hmode] using h.mode
  · simpa [or_imp, forall_and, inView_of_ne hview] using h.view
  · have hadds : ¬ Adds (s, r) := by simp [adds_iff, hmode']
    simp [additions_append, h.none, hadds]
  · simp [hwait]
  · intro _
    cases hflag : s.imageIdentifyWaitFlag with
    | false =>
      -- the first call of the wait
      rw [h.idle hflag]
      exact ⟨(s, r), rfl, by simp [htime, hflag]⟩
    | true =>
      rcases h.begun hflag with ⟨first, hfirst, heq⟩
      exact ⟨first, by simp [Option.mem_def.mp hfirst], by simp [htime, hflag, heq]⟩

/-- The call that ends the wait. -/
theorem Waiting.identified (h : Waiting s calls) (hmode : s.motionMode = .cubeIdentify)
    (hmode' : (motionModeCalc s r).motionMode = .cubeAnglePosition)
    (hwait : s.imageIdentifyWaitFlag = true)
    (htime : r.timer - s.imageIdentifyWaitStartTime ≥ imageIdentifyWaitTime) :
    Identified (calls ++ [(s, r)]) ∧ additions (calls ++ [(s, r)]) = 1 := by
  have hview := view_of_identify (r := r) hmode (by simp [hmode'])
  have hadds : Adds (s, r) := adds_iff.mpr ⟨hmode, hmode'⟩
  refine ⟨⟨?_, ?_, ?_⟩, ?_⟩
  · simpa [or_imp, forall_and, hmode] using h.mode
  · simpa [or_imp, forall_and, inView_of_ne hview] using h.view
  · rcases h.begun hwait with ⟨first, hfirst, heq⟩
    refine ⟨first, by simp [Option.mem_def.mp hfirst], (s, r), by simp, ?_⟩
    rw [heq]
    exact htime
  · simp [additions_append, h.none, hadds]

/-- One more call in `CUBE_ANGLE_POSITION` that stays there. -/
theorem Turning.snoc (h : Turning s calls) (hmode : s.motionMode = .cubeAnglePosition)
    (hset : s'.targetAngleZSettedFlag = true)
    (htarget : s'.targetGyroAngleZ =
      if s.targetAngleZSettedFlag then s.targetGyroAngleZ else pushAngle s.cubePushDir r.angleZ) :
    Turning s' (calls ++ [(s, r)]) := by
  refine ⟨?_, ?_, ?_⟩
  · simpa [or_imp, forall_and, hmode] using h.mode
  · simp [hset]
  · intro _
    cases hflag : s.targetAngleZSettedFlag with
    | false =>
      -- the first call sets the target
      rw [h.idle hflag]
      exact ⟨(s, r), rfl, by simp [htarget, hflag]⟩
    | true =>
      rcases h.aimed hflag with ⟨first, hfirst, heq⟩
      exact ⟨first, by simp [Option.mem_def.mp hfirst], by simp [htarget, hflag, heq]⟩

/-- The call that ends the turn. -/
theorem Turning.turned (h : Turning s calls) (hmode : s.motionMode = .cubeAnglePosition)
    (hset : s.targetAngleZSettedFlag = true) (hclose : |s.targetGyroAngleZ - r.angleZ| < 5) :
    Turned (calls ++ [(s, r)]) := by
  refine ⟨?_, ?_⟩
  · simpa [or_imp, forall_and, hmode] using h.mode
  · rcases h.aimed hset with ⟨first, hfirst, heq⟩
    exact ⟨first, by simp [Option.mem_def.mp hfirst], (s, r), by simp, heq, hclose⟩

/-- A call in `CUBE_IDENTIFY` that changes nothing is one of the wait. -/
theorem wait_of_stay (hmode : s.motionMode = .cubeIdentify) (hstay : motionModeCalc s r = s) :
    s.imageIdentifyWaitFlag = true := by
  have hview := view_of_identify (r := r) hmode (by rw [hstay, hmode]; decide)
  by_contra hwait
  have hset : (motionModeCalc s r).imageIdentifyWaitFlag = true := by
    simp [motionModeCalc, hmode, hview, identify, hwait]
  exact hwait (by rwa [hstay] at hset)

/-- Each call leads from stage to stage. -/
theorem stage_step (h : Stage calls s) (hp : r.cubeInfo.pCount < 2 ^ 31) :
    Stage (calls ++ [(s, r)]) (motionModeCalc s r) := by
  have ht := transition_motionModeCalc s r
  have hflags := h.flags.step ht
  generalize hs' : motionModeCalc s r = s' at ht hflags
  cases ht with
  | spotted hmode hview =>
    refine ⟨hflags, fun _ => ⟨calls, (s, r), [], rfl, hmode, by simp⟩, ?_, ?_⟩ <;>
      simp [State.enter]
  | lostApproaching hmode hview => exact stage_of_mode hflags (by simp)
  | positioned hmode hview hpos =>
    refine ⟨hflags, by simp [State.enter], fun _ => ?_, by simp [State.enter]⟩
    -- this call is the one that has seen the cube near enough
    rcases h.distance hmode with ⟨before, leave, distance, rfl, hleave, hdistance⟩
    have hwait : s.imageIdentifyWaitFlag = false := by
      by_contra hne
      simp [h.flags.wait (by simpa using hne)] at hmode
    refine ⟨before, leave, distance ++ [(s, r)], [], by simp, hleave, ⟨?_, ?_⟩, ⟨by simp, by simp,
      rfl, fun _ => rfl, fun hne => ?_⟩⟩
    · simpa [or_imp, forall_and, hmode] using hdistance
    · exact ⟨(s, r), by simp, near_of_positioned hpos hp⟩
    · simp [State.enter, hwait] at hne
  | lostIdentifying hmode hview => exact stage_of_mode hflags (by simp)
  | waitBegun hmode hview hwait =>
    refine ⟨hflags, by simp [hmode], fun _ => ?_, by simp [hmode]⟩
    rcases h.waiting hmode with ⟨before, leave, distance, waiting, rfl, hleave, happ, hwaiting⟩
    refine ⟨before, leave, distance, waiting ++ [(s, r)], by simp, hleave, happ, ?_⟩
    exact hwaiting.snoc hmode (by simp [hs', hmode]) rfl (by simp [hwait])
  | identified hmode hview hwait htime =>
    refine ⟨hflags, by simp [State.enter], by simp [State.enter], fun _ => ?_⟩
    rcases h.waiting hmode with ⟨before, leave, distance, waiting, rfl, hleave, happ, hwaiting⟩
    rcases hwaiting.identified hmode (by simp [hs', State.enter]) hwait htime with ⟨hid, hadd⟩
    -- the turn begins with no target set
    have hset : s.targetAngleZSettedFlag = false := by
      by_contra hne
      simp [h.flags.setted (by simpa using hne)] at hmode
    refine ⟨before, leave, distance, waiting ++ [(s, r)], [], by simp, hleave, happ, hid, hadd,
      ⟨by simp, fun _ => rfl, fun hne => ?_⟩⟩
    simp [State.enter, hset] at hne
  | aimed hmode hset =>
    refine ⟨hflags, by simp [hmode], by simp [hmode], fun _ => ?_⟩
    rcases h.turning hmode with
      ⟨before, leave, distance, waiting, turning, rfl, hleave, happ, hid, hadd, hturning⟩
    refine ⟨before, leave, distance, waiting, turning ++ [(s, r)], by simp, hleave, happ, hid, hadd,
      hturning.snoc hmode rfl (by simp [hset])⟩
  | turned hmode hset hclose => exact stage_of_mode hflags (by simp [State.enter])
  | turning hmode hset hclose =>
    refine ⟨hflags, by simp [hmode], by simp [hmode], fun _ => ?_⟩
    rcases h.turning hmode with
      ⟨before, leave, distance, waiting, turning, rfl, hleave, happ, hid, hadd, hturning⟩
    refine ⟨before, leave, distance, waiting, turning ++ [(s, r)], by simp, hleave, happ, hid, hadd,
      hturning.snoc hmode hset (by simp [hset])⟩
  | pushedOut hmode hgray => exact stage_of_mode hflags (by simp [State.enter])
  | backOnTrack hmode hgray => exact stage_of_mode hflags (by simp [State.enter])
  | aligned hmode hclose => exact stage_of_mode hflags (by simp [State.enter])
  | reset hmode => exact stage_of_mode hflags (by simp)
  | stay hne =>
    -- the stage goes on, with a call more
    refine ⟨hflags, fun hmode => ?_, fun hmode => ?_, fun hmode => absurd hmode hne⟩
    · rcases h.distance hmode with ⟨before, leave, distance, rfl, hleave, hdistance⟩
      refine ⟨before, leave, distance ++ [(s, r)], by simp, hleave, ?_⟩
      simpa [or_imp, forall_and, hmode] using hdistance
    · rcases h.waiting hmode with ⟨before, leave, distance, waiting, rfl, hleave, happ, hwaiting⟩
      have hwait := wait_of_stay hmode hs'
      refine ⟨before, leave, distance, waiting ++ [(s, r)], by simp, hleave, happ, ?_⟩
      exact hwaiting.snoc hmode (by rw [hs', hmode]) hwait (by simp [hwait])

/-- An entry into `CUBE_PUSH` ends the last stage. -/
theorem prepared_of_turned (h : Stage calls s) (hmode : s.motionMode ≠ .cubePush)
    (hmode' : (motionModeCalc s r).motionMode = .cubePush) : Prepared (calls ++ [(s, r)]) := by
  have ht := transition_motionModeCalc s r
  generalize motionModeCalc s r = s' at ht hmode'
  cases ht with
  | turned hangle hset hclose =>
    rcases h.turning hangle with
      ⟨before, leave, distance, waiting, turning, rfl, hleave, happ, hid, hadd, hturning⟩
    have hturned := hturning.turned hangle hset hclose
    refine ⟨before, leave, distance, waiting, turning ++ [(s, r)], by simp, hleave, happ, hid,
      hturned, ?_⟩
    -- only the wait has added a cube
    have hleave0 : additions [leave] = 0 := additions_eq_zero (by simp [hleave])
    have hdistance0 : additions distance = 0 :=
      additions_eq_zero fun c hc => by simp [happ.mode c hc]
    have hturning0 : additions (turning ++ [(s, r)]) = 0 :=
      additions_eq_zero fun c hc => by simp [hturned.mode c hc]
    rw [← List.singleton_append, additions_append, additions_append, additions_append, hleave0,
      hdistance0, hadd, hturning0]
  | _ => simp_all [State.enter]

theorem Rest.stage (h : Rest s) : Stage [] s :=
  stage_of_mode (flagsOk_of_clear h.wait h.setted) (by simp [h.mode])

/-! ## The law -/

/-- The size of the cube fits an `int`. -/
def CountFits (_ : List Readings) (_ : State) (r : Readings) : Prop :=
  r.cubeInfo.pCount < 2 ^ 31

theorem stage_run (h : Rest s) :
    ∀ tr, Along motionModeCalc s CountFits tr →
      Stage (consumed motionModeCalc s tr) (run motionModeCalc s tr) := by
  refine run_induction_along motionModeCalc s CountFits
    (fun tr t => Stage (consumed motionModeCalc s tr) t) h.stage ?_
  intro tr r hstage hfits
  rw [consumed_concat]
  exact stage_step hstage hfits

/-- Every entry into `CUBE_PUSH` is prepared, and the flags are set in their modes only. -/
theorem push_safe (s : State) (h : Rest s) (tr : List Readings)
    (hp : ∀ r ∈ tr, r.cubeInfo.pCount < 2 ^ 31) :
    Along motionModeCalc s
        (fun before t r => t.motionMode ≠ .cubePush →
          (motionModeCalc t r).motionMode = .cubePush →
          Prepared (consumed motionModeCalc s (before ++ [r]))) tr ∧
      FlagsOk (run motionModeCalc s tr) := by
  have hfits : Along motionModeCalc s CountFits tr := by
    rintro before r after rfl
    exact hp r (by simp)
  constructor
  · refine along_of_inv motionModeCalc s CountFits _
      (fun tr t => Stage (consumed motionModeCalc s tr) t) (stage_run h) ?_ tr hfits
    intro before r hstage _ hmode hmode'
    rw [consumed_concat]
    exact prepared_of_turned hstage hmode hmode'
  · exact (stage_run h tr hfits).flags

/-- The run of a whole cycle, up to the push. -/
theorem push_safe_pushRun :
    Prepared (consumed motionModeCalc start ((pushRun 8 2).take 6)) ∧
      FlagsOk (run motionModeCalc start ((pushRun 8 2).take 6)) := by
  have hsafe := push_safe start rest_start ((pushRun 8 2).take 6) (by decide +kernel)
  refine ⟨?_, hsafe.2⟩
  exact hsafe.1 ((pushRun 8 2).take 5) (reading 8 2 88 0 3000) [] rfl (by decide +kernel)
    (by decide +kernel)

end SmartCar.Motion

import SmartCar.Motion.Modes

/-!
# motion_control: the mode before

`last_motion_mode` is written by the transitions that go on with a push cycle. The two that
break it off, because the cube has gone out of view, go back to `LINE_FOLLOW` without it, so
the mode machine no longer knows where it came from.

* `LastInv`: what `last_motion_mode` is while a cube is approached or identified;
* `last_mode_iff`: it is the mode before after every change of the mode, in exactly those
  runs in which the cube stays in view.
-/

namespace SmartCar.Motion

open Mcx Events

variable {s s' : State} {r : Readings}

/-! ## Law and condition -/

/-- A call that changes the mode leaves the mode held before it in `last_motion_mode`. -/
def RecordsMode (_ : List Readings) (s : State) (r : Readings) : Prop :=
  (motionModeCalc s r).motionMode ≠ s.motionMode →
    (motionModeCalc s r).lastMotionMode = s.motionMode

/-- A cube that is approached or identified is in view. -/
def KeepsCube (_ : List Readings) (s : State) (r : Readings) : Prop :=
  s.motionMode = .cubeDistancePosition ∨ s.motionMode = .cubeIdentify →
    r.cubeInfo.state ≠ CubeDetectionState.cubeOutsideView.val

/-! ## The invariant -/

/-- The modes that a cycle can be broken off in, and what has been recorded by then. -/
structure LastInv (s : State) : Prop where
  known : s.motionMode ≠ .unknown
  distance : s.motionMode = .cubeDistancePosition → s.lastMotionMode = .lineFollow
  identify : s.motionMode = .cubeIdentify → s.lastMotionMode = .cubeDistancePosition

theorem init_lastInv (h : s.motionMode = .lineFollow) : LastInv s where
  known := by simp [h]
  distance := by simp [h]
  identify := by simp [h]

/-- In the other modes there is nothing to show. -/
theorem lastInv_of_mode (hknown : s.motionMode ≠ .unknown)
    (hdistance : s.motionMode ≠ .cubeDistancePosition) (hidentify : s.motionMode ≠ .cubeIdentify) :
    LastInv s :=
  ⟨hknown, fun hmode => absurd hmode hdistance, fun hmode => absurd hmode hidentify⟩

theorem step_lastInv (inv : LastInv s) (ht : Transition s r s') : LastInv s' := by
  cases ht with
  | spotted hmode => exact ⟨by simp [State.enter], fun _ => hmode, by simp [State.enter]⟩
  | positioned hmode => exact ⟨by simp [State.enter], by simp [State.enter], fun _ => hmode⟩
  | lostApproaching | lostIdentifying => exact init_lastInv rfl
  | waitBegun hmode => exact ⟨inv.known, inv.distance, inv.identify⟩
  | aimed hmode => exact ⟨inv.known, inv.distance, inv.identify⟩
  | turning hmode => exact ⟨inv.known, inv.distance, inv.identify⟩
  | stay => exact inv
  | identified | turned | pushedOut | backOnTrack | aligned =>
    exact lastInv_of_mode (by simp [State.enter]) (by simp [State.enter]) (by simp [State.enter])
  | reset hmode => exact absurd hmode inv.known

theorem lastInv_run (h : s.motionMode = .lineFollow) :
    ∀ tr, LastInv (run motionModeCalc s tr) := by
  refine run_induction motionModeCalc s (fun _ t => LastInv t) (init_lastInv h) ?_
  intro tr r inv
  exact step_lastInv inv (transition_motionModeCalc _ r)

/-! ## The law -/

/-- The cube has gone out of view: the cycle is broken off, and no mode is recorded. -/
theorem brokenOff (hmode : s.motionMode = .cubeDistancePosition ∨ s.motionMode = .cubeIdentify)
    (hview : r.cubeInfo.state = CubeDetectionState.cubeOutsideView.val) :
    (motionModeCalc s r).motionMode = .lineFollow ∧
      (motionModeCalc s r).lastMotionMode = s.lastMotionMode := by
  rcases hmode with hmode | hmode <;> simp [motionModeCalc, hmode, hview]

/-- Every other transition records the mode, or keeps it. -/
theorem recorded_of_view (inv : LastInv s) (ht : Transition s r s')
    (hview : s.motionMode = .cubeDistancePosition ∨ s.motionMode = .cubeIdentify →
      r.cubeInfo.state ≠ CubeDetectionState.cubeOutsideView.val)
    (hchanged : s'.motionMode ≠ s.motionMode) : s'.lastMotionMode = s.motionMode := by
  cases ht with
  | lostApproaching hmode hlost => exact absurd hlost (hview (.inl hmode))
  | lostIdentifying hmode hlost => exact absurd hlost (hview (.inr hmode))
  | reset hmode => exact absurd hmode inv.known
  | waitBegun | aimed | turning | stay => exact absurd rfl hchanged
  | spotted | positioned | identified | turned | pushedOut | backOnTrack | aligned => rfl

/-- A call records the mode it leaves if and only if it does not break a cycle off. -/
theorem LastInv.recordsMode_iff (inv : LastInv s) (before : List Readings) (r : Readings) :
    RecordsMode before s r ↔ KeepsCube before s r := by
  constructor
  · intro hrecords hmode hview
    obtain ⟨hfollow, hlast⟩ := brokenOff hmode hview
    have hchanged : (motionModeCalc s r).motionMode ≠ s.motionMode := by
      rcases hmode with hmode | hmode <;> simp [hfollow, hmode]
    have hsame := hlast.symm.trans (hrecords hchanged)
    -- but the mode recorded is the one before this one
    rcases hmode with hmode | hmode
    · simp [inv.distance hmode, hmode] at hsame
    · simp [inv.identify hmode, hmode] at hsame
  · exact recorded_of_view inv (transition_motionModeCalc s r)

/-- In every run `last_motion_mode` is the mode held before each change if and only if the cube
stays in view wherever it is approached or identified. -/
theorem last_mode_iff (s : State) (h : s.motionMode = .lineFollow) (tr : List Readings) :
    Along motionModeCalc s RecordsMode tr ↔ Along motionModeCalc s KeepsCube tr :=
  along_congr motionModeCalc s _ _
    (fun before r => (lastInv_run h before).recordsMode_iff before r) tr

/-! ## A cube that goes out of view -/

/-- Readings with a report of the cube. -/
def sees (state : CubeDetectionState) : Readings where
  cubeInfo := ⟨state.val, 160, 120, 20000, 0⟩
  angleZ := 0
  grayscaleData := grayInTrack
  currentCubeFaceInfo := Art.initialFaceInfo
  timer := 0

/-- The cube is seen, and gone at the next call. -/
def glimpse : List Readings := [sees .cubeInsideView, sees .cubeOutsideView]

theorem last_mode_iff_glimpse :
    Along motionModeCalc start RecordsMode glimpse ↔ Along motionModeCalc start KeepsCube glimpse :=
  last_mode_iff start rfl glimpse

/-- The way back from `CUBE_DISTANCE_POSITION` is not recorded. -/
theorem glimpse_unrecorded : ¬ Along motionModeCalc start RecordsMode glimpse := by
  intro h
  have hlast := h [sees .cubeInsideView] (sees .cubeOutsideView) [] rfl (by decide +kernel)
  exact absurd hlast (by decide +kernel)

end SmartCar.Motion

import SmartCar.Art.Handled
import SmartCar.Board.Rt1064

/-!
# The RT1064: recognitions that never arrive

In `CUBE_IDENTIFY` the mode machine waits for three seconds, and then lists and pushes whatever
`current_cube_face_info` holds. It does not ask for `valid`: without a frame from OpenART it
handles the defaults of power-up.

* `FaceKnown`: no cube is handled before a recognition has arrived;
* `FrameHandled`: a frame has been handled by the end of each wait;
* `face_known_iff`: the one is the other, in every run.
-/

namespace SmartCar.Board

open Events

/-! ## Law and condition -/

/-- A call that adds a cube finds a record that is valid. -/
def FaceKnown (_ : List Event) (s : Rt1064) : Event → Prop
  | .call v => Motion.Adds (s.modes, s.readings v) → s.art.currentCubeFaceInfo.valid = true
  | _ => True

/-- Before a call that adds a cube, a tail has come from OpenART, not as the byte that wraps the
index, and a PIT interrupt after it. -/
def FrameHandled (s₀ : Rt1064) (before : List Event) (s : Rt1064) : Event → Prop
  | .call v => Motion.Adds (s.modes, s.readings v) → Art.Handled s₀.art (artEvents before)
  | _ => True

instance (before : List Event) (s : Rt1064) (e : Event) : Decidable (FaceKnown before s e) :=
  match e with
  | .call _ => inferInstanceAs (Decidable (_ → _))
  | .artByte _ => inferInstanceAs (Decidable True)
  | .mcxByte _ => inferInstanceAs (Decidable True)
  | .pit _ _ => inferInstanceAs (Decidable True)

/-! ## The law -/

theorem valid_run {s₀ : Rt1064} (h : Art.Ready s₀.art)
    (hvalid : s₀.art.currentCubeFaceInfo.valid = false) (tr : List Event) :
    (run step s₀ tr).art.currentCubeFaceInfo.valid = true ↔
      Art.Handled s₀.art (artEvents tr) := by
  rw [art_run]
  exact Art.valid_iff_handled h hvalid (artEvents tr)

/-- In every run no cube is handled on a recognition that has not arrived if and only if a frame
has been handled by the end of each wait. -/
theorem face_known_iff (s₀ : Rt1064) (h : Art.Ready s₀.art)
    (hvalid : s₀.art.currentCubeFaceInfo.valid = false) (tr : List Event) :
    Along step s₀ FaceKnown tr ↔ Along step s₀ (FrameHandled s₀) tr := by
  refine along_congr step s₀ _ _ ?_ tr
  intro before e
  cases e with
  | call v => exact imp_congr_right fun _ => valid_run h hvalid before
  | artByte b => rfl
  | mcxByte b => rfl
  | pit now now' => rfl

/-! ## A cube without a recognition -/

/-- The cube comes into view, and OpenART is silent. -/
def silent : List Event :=
  reportFrame.map .mcxByte ++ [.pit 0 0] ++
    [0, 0, 0].map fun timer => .call ⟨0, Motion.grayInTrack, timer⟩

theorem face_known_iff_silent :
    Along step start FaceKnown (silent ++ [.call ⟨0, Motion.grayInTrack, 3000⟩]) ↔
      Along step start (FrameHandled start) (silent ++ [.call ⟨0, Motion.grayInTrack, 3000⟩]) :=
  face_known_iff start Art.ready_start rfl _

/-- The defaults of power-up are listed and pushed. -/
theorem silent_unknown :
    ¬ Along step start FaceKnown (silent ++ [.call ⟨0, Motion.grayInTrack, 3000⟩]) := by
  intro h
  have hknown := h silent (.call ⟨0, Motion.grayInTrack, 3000⟩) [] rfl
  revert hknown
  decide +kernel

end SmartCar.Board

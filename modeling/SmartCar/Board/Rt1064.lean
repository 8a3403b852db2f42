import SmartCar.Art.OpenArt
import SmartCar.Lib.Printf
import SmartCar.Mcx.Vision
import SmartCar.Motion.PushSafety

/-!
# The RT1064: its two links and the mode machine

The interrupts of the two UARTs store what comes from the camera modules, the PIT interrupt
parses it, and `motion_mode_calc`, which the main loop calls, reads what has been parsed. An
event of a run is one interrupt or one call.
-/

namespace SmartCar.Board

open Events

/-! ## The machine -/

/-- The receivers of the two links, and the mode machine. -/
structure Rt1064 where
  art : Art.State
  mcx : Mcx.Receiver
  modes : Motion.State

/-- What a call of `motion_mode_calc` reads that does not come over a link. -/
structure Sensors where
  angleZ : ℚ
  grayscaleData : UInt8
  timer : UInt32

/-- A byte from OpenART, a byte from the MCX board, the PIT interrupt with the readings of the
timer, or a call of `motion_mode_calc`. -/
inductive Event
  | artByte (b : UInt8)
  | mcxByte (b : UInt8)
  | pit (now now' : UInt32)
  | call (v : Sensors)

/-- What a call reads: the records that the handlers have left, and the sensors. -/
def Rt1064.readings (s : Rt1064) (v : Sensors) : Motion.Readings where
  cubeInfo := s.mcx.cubeInfo
  angleZ := v.angleZ
  grayscaleData := v.grayscaleData
  currentCubeFaceInfo := s.art.currentCubeFaceInfo
  timer := v.timer

def step (s : Rt1064) : Event → Rt1064
  | .artByte b => { s with art := Art.artReceiveDataCallback s.art b }
  | .mcxByte b => { s with mcx := Mcx.mcxReceiveDataCallback s.mcx b }
  | .pit now now' =>
    { s with
      mcx := Mcx.mcxCubeDataHandlePitCall s.mcx now now'
      art := Art.artCubeDataHandlePitCall s.art }
  | .call v => { s with modes := Motion.motionModeCalc s.modes (s.readings v) }

/-- The board at power-up, with both receivers ready. -/
def start : Rt1064 := ⟨Art.start, Mcx.start, Motion.start⟩

/-- The bytes of a report that has the cube in the middle, and near. -/
def reportFrame : List UInt8 :=
  Mcx.mcxBufferHead :: Printf.ascii "s:1,xf: 160,yf: 120,p: 20000,l:  30\n" ++ [Mcx.mcxBufferTail]

/-! ## The events of the ART receiver -/

/-- What the ART receiver sees of the run. -/
def artEvents (tr : List Event) : List Art.Event :=
  tr.filterMap fun
    | .artByte b => some (.byte b)
    | .pit _ _ => some .pit
    | _ => none

/-- The other events do not touch the ART receiver. -/
theorem art_run (s : Rt1064) (tr : List Event) :
    (run step s tr).art = run Art.step s.art (artEvents tr) := by
  induction tr using List.reverseRecOn with
  | nil => rfl
  | append_singleton tr e ih =>
    rw [run_concat, artEvents, List.filterMap_append, ← artEvents]
    cases e with
    | artByte b => simp [step, Art.step, ih]
    | mcxByte b => simp [step, ih]
    | pit now now' => simp [step, Art.step, ih]
    | call v => simp [step, ih]

end SmartCar.Board

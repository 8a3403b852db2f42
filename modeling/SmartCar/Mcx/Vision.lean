import Mathlib.Data.List.OfFn
import SmartCar.Lib.Events
import SmartCar.Lib.Queue
import SmartCar.Lib.Scanf

/-!
# MCX_Vision: the receiver of cube positions

`MCX_Vision.c` on the RT1064. The UART interrupt collects the bytes of a frame in
a FIFO; the PIT interrupt parses them once a frame of the right length is
complete. The FIFO of the vendor's library is a bounded queue.

`sscanf` stores four bytes for each conversion, whatever its field has. The record takes 16, of
which the enumeration has one (the project is built with short enumerations): `state` stands at
0, `x_center` at 2, `y_center` at 4, `p_count` at 8 and `x_length` at 12.
-/

namespace SmartCar.Mcx

/-! ## Constants and records -/

@[simp] def mcxBufferHead : UInt8 := 0xFE
@[simp] def mcxBufferTail : UInt8 := 0xEF
@[simp] def mcxDataLengthMax : ℕ := 37

/-- `CubeDetectionState` -/
inductive CubeDetectionState
  | cubeOutsideView | cubeInsideView
deriving DecidableEq, Repr

/-- The enumeration's integer value. -/
def CubeDetectionState.val : CubeDetectionState → UInt8
  | cubeOutsideView => 0
  | cubeInsideView => 1

/-- `CubeInfo` of the RT1064. The state is whatever `%d` stored. -/
structure CubeReport where
  state : UInt8
  xCenter : UInt16
  yCenter : UInt16
  pCount : UInt32
  xLength : UInt16
deriving DecidableEq

/-- The variables of the receiver. -/
structure Receiver where
  mcxLastDataTime : UInt32
  mcxDataTime : UInt32
  mcxDataLength : ℕ
  mcxInitFlag : Bool
  mcxDataRecvFinishFlag : Bool
  cubeInfo : CubeReport
  mcxUartFifo : Queue UInt8 64
  mcxDataBuffer : Vector UInt8 37

/-! ## The interrupt of the UART -/

/-- `mcx_receive_data_callback`, when the UART delivers `b`. -/
def mcxReceiveDataCallback (s : Receiver) (b : UInt8) : Receiver :=
  if ¬ s.mcxInitFlag ∨ s.mcxDataRecvFinishFlag then s
  else if b = mcxBufferHead then { s with mcxUartFifo := .empty }
  else if b = mcxBufferTail then
    if s.mcxUartFifo.used ≠ mcxDataLengthMax - 1 then { s with mcxDataRecvFinishFlag := false }
    else { s with mcxDataRecvFinishFlag := true }
  else { s with mcxUartFifo := s.mcxUartFifo.push b }

/-! ## The PIT handler -/

/-- `fifo_read_buffer` with `FIFO_READ_AND_CLEAN`: the corrected length, the data
and the FIFO without them. -/
def fifoReadBuffer (fifo : Queue UInt8 64) (length : ℕ) : ℕ × List UInt8 × Queue UInt8 64 :=
  let n := min length fifo.used
  (n, fifo.front n, fifo.drop n)

/-- Copy `data` to the front of the buffer. -/
def copyIn (buffer : Vector UInt8 37) (data : List UInt8) : Vector UInt8 37 :=
  .ofFn fun i => data.getD i buffer[i]

/-- The format of `sscanf`, `"s:%d,xf:%u,yf:%u,p:%d,l:%d\n"`. -/
def mcxFormat : List Scanf.Directive :=
  [.lit 115, .lit 58, .d, .lit 44, .lit 120, .lit 102, .lit 58, .u, .lit 44,
   .lit 121, .lit 102, .lit 58, .u, .lit 44, .lit 112, .lit 58, .d, .lit 44,
   .lit 108, .lit 58, .d, .white]

/-- The upper two bytes of the four that are stored for `z`. -/
def highHalf (z : ℤ) : UInt16 := .ofInt (z / 65536)

/-- The arguments of `sscanf`. The first two stores reach into the field behind, which the next
one overwrites if it comes; the others end in their field or in padding. -/
def mcxArgs : List (Scanf.Value → CubeReport → CubeReport) :=
  [fun v info =>
    { info with state := .ofInt (Scanf.intOf v), xCenter := highHalf (Scanf.intOf v) },
   fun v info =>
    { info with xCenter := .ofInt (Scanf.intOf v), yCenter := highHalf (Scanf.intOf v) },
   fun v info => { info with yCenter := .ofInt (Scanf.intOf v) },
   fun v info => { info with pCount := .ofInt (Scanf.intOf v) },
   fun v info => { info with xLength := .ofInt (Scanf.intOf v) }]

/-- The buffer that is parsed, with its terminator. -/
def parsedBuffer (s : Receiver) : Vector UInt8 37 :=
  (copyIn s.mcxDataBuffer (fifoReadBuffer s.mcxUartFifo s.mcxDataLength).2.1).set 36 0

/-- `mcx_cube_data_handle_pit_call`, with the two readings of the timer. -/
def mcxCubeDataHandlePitCall (s : Receiver) (now now' : UInt32) : Receiver :=
  if ¬ s.mcxInitFlag ∨ ¬ s.mcxDataRecvFinishFlag then s
  else if s.mcxUartFifo.used ≠ mcxDataLengthMax - 1 then { s with mcxDataRecvFinishFlag := false }
  else
    -- the read may correct the length that it has been asked for
    let (length, data, fifo) := fifoReadBuffer s.mcxUartFifo s.mcxDataLength
    if length = mcxDataLengthMax - 1 then
      { s with
        mcxDataLength := length
        mcxDataBuffer := parsedBuffer s
        mcxUartFifo := fifo
        mcxDataTime := now - s.mcxLastDataTime
        cubeInfo := Scanf.store mcxArgs
          (Scanf.scan mcxFormat (Scanf.cString (parsedBuffer s).toList)) s.cubeInfo
        mcxLastDataTime := now'
        mcxDataRecvFinishFlag := false }
    else
      { s with
        mcxDataLength := mcxDataLengthMax - 1
        mcxDataBuffer := copyIn s.mcxDataBuffer data
        mcxUartFifo := fifo
        mcxDataRecvFinishFlag := false }

/-! ## Runs -/

/-- A byte on the UART, or a call of the PIT handler. -/
inductive Event
  | byte (b : UInt8) | pit (now now' : UInt32)
deriving DecidableEq, Repr

def step (s : Receiver) : Event → Receiver
  | .byte b => mcxReceiveDataCallback s b
  | .pit now now' => mcxCubeDataHandlePitCall s now now'

/-- The bytes that have arrived. -/
def received (tr : List Event) : List UInt8 :=
  tr.filterMap fun
    | .byte b => some b
    | .pit _ _ => none

@[simp] theorem received_nil : received [] = [] := rfl

@[simp] theorem received_byte (tr : List Event) (b : UInt8) :
    received (tr ++ [.byte b]) = received tr ++ [b] := by
  simp [received]

@[simp] theorem received_pit (tr : List Event) (now now' : UInt32) :
    received (tr ++ [.pit now now']) = received tr := by
  simp [received]

/-- The receiver after `mcx_init_wait`: an empty FIFO and no frame pending. -/
structure Ready (s : Receiver) : Prop where
  init : s.mcxInitFlag = true
  idle : s.mcxDataRecvFinishFlag = false
  fifo : s.mcxUartFifo = .empty
  length : s.mcxDataLength = mcxDataLengthMax - 1

/-- The receiver after `mcx_init_wait`, from power-up. -/
def start : Receiver where
  mcxLastDataTime := 0
  mcxDataTime := 0
  mcxDataLength := mcxDataLengthMax - 1
  mcxInitFlag := true
  mcxDataRecvFinishFlag := false
  cubeInfo := ⟨CubeDetectionState.cubeOutsideView.val, 0, 0, 0, 0⟩
  mcxUartFifo := .empty
  mcxDataBuffer := Vector.replicate 37 0

theorem ready_start : Ready start := ⟨rfl, rfl, rfl, rfl⟩

end SmartCar.Mcx

import SmartCar.Lib.Events
import SmartCar.Lib.Printf
import SmartCar.Lib.Scanf
import SmartCar.Lib.Stores

/-!
# OpenART: the label receiver

`OpenART.c` on the RT1064. The camera module sends a text frame between `[` and
`]` for every face it recognises; the UART interrupt stores each byte, and the
PIT interrupt parses the buffer once the tail has been seen. The direction in
which a cube is pushed is decided here too, from the label.

`sscanf` stores four bytes for each conversion, whatever its field has. The record takes 16, of
which the enumeration has one (the project is built with short enumerations): `valid` stands at
0, `class` at 1, `class_prob` at 4, `number` at 8 and `number_prob` at 12.
-/

namespace SmartCar.Art

/-! ## Labels -/

/-- `CubeFaceInfoClass`, in the order of the enumeration. -/
inductive CubeFaceInfoClass
  | electrodrill | headphones | keyboard | tapeMeasure | mobilePhone | monitor | mouse
  | multimeter | number | oscillograph | pliers | printer | screwdriver | solderingIron
  | speaker | wrench
deriving DecidableEq, Repr

/-- The enumeration's integer value. -/
def CubeFaceInfoClass.val : CubeFaceInfoClass → UInt8
  | electrodrill => 0 | headphones => 1 | keyboard => 2 | tapeMeasure => 3
  | mobilePhone => 4 | monitor => 5 | mouse => 6 | multimeter => 7
  | number => 8 | oscillograph => 9 | pliers => 10 | printer => 11
  | screwdriver => 12 | solderingIron => 13 | speaker => 14 | wrench => 15

/-- A `float`: the number that was converted to it, and the byte, if any, that has been stored
over its lowest one since. -/
structure Single where
  value : Scanf.Real
  low : Option UInt8
deriving DecidableEq

/-- `CubeFaceInfo`. The class is whatever `%u` stored, a label or not. -/
structure CubeFaceInfo where
  valid : Bool
  cls : UInt8
  classProb : Single
  number : UInt8
  numberProb : Scanf.Real
deriving DecidableEq

/-- `CubePushDir` -/
inductive CubePushDir
  | left | right
deriving DecidableEq, Repr

/-- `get_cube_push_dir`. In the source the parameter `number` hides the enumeration
constant of that name, so `class == number` compares the two parameters. -/
def getCubePushDir (cls : UInt8) (number : UInt8) : CubePushDir :=
  if cls = number then
    if number % 2 ≠ 0 then .left else .right
  else if cls = CubeFaceInfoClass.mouse.val ∨ cls = CubeFaceInfoClass.keyboard.val ∨
      cls = CubeFaceInfoClass.monitor.val ∨ cls = CubeFaceInfoClass.headphones.val ∨
      cls = CubeFaceInfoClass.speaker.val ∨ cls = CubeFaceInfoClass.printer.val ∨
      cls = CubeFaceInfoClass.mobilePhone.val then .left
  else .right

/-! ## The receiver -/

@[simp] def artReadBufferLen : ℕ := 64

/-- The type of `art_uart_fifo_buffer`, `uint8 [ART_READ_BUFFER_LEN]`. -/
abbrev Buffer := Vector UInt8 64

/-- `ART_BUFFER_HEAD`, the character `[`. -/
abbrev artBufferHead : UInt8 := 91

/-- `ART_BUFFER_TAIL`, the character `]`. -/
abbrev artBufferTail : UInt8 := 93

/-- The variables of the receiver. -/
structure State where
  artInitFlag : Bool
  artDataRecvFinishFlag : Bool
  artUartFifoBuffer : Buffer
  artUartFifoIndex : ℕ
  currentCubeFaceInfo : CubeFaceInfo
deriving DecidableEq

/-- Write `art_uart_fifo_buffer[i]`; outside the buffer the write hits something else. -/
def writeBuffer (buffer : Buffer) (i : ℤ) (b : UInt8) : Buffer :=
  if 0 ≤ i then buffer.setIfInBounds i.toNat b else buffer

/-- `art_receive_data_callback`, when the UART delivers `b`. -/
def artReceiveDataCallback (s : State) (b : UInt8) : State :=
  let s := { s with
    artUartFifoBuffer := writeBuffer s.artUartFifoBuffer s.artUartFifoIndex b
    artUartFifoIndex := (s.artUartFifoIndex + 1) % 256 }
  -- the byte is stored, and the index advanced, whatever the flags say
  if s.artUartFifoIndex ≥ artReadBufferLen then { s with artUartFifoIndex := 0 }
  else if ¬ s.artInitFlag ∨ s.artDataRecvFinishFlag then s
  else
    let last := s.artUartFifoBuffer.toList.getD (s.artUartFifoIndex - 1) 0
    if last = artBufferTail then { s with artDataRecvFinishFlag := true }
    else if last = artBufferHead then
      { s with artDataRecvFinishFlag := false, artUartFifoIndex := 0 }
    else s

/-- The format of `sscanf`, `"o:%u,p:%f,n:%d,p:%f"`. -/
def artFormat : List Scanf.Directive :=
  [.lit 111, .lit 58, .u, .lit 44, .lit 112, .lit 58, .f, .lit 44,
   .lit 110, .lit 58, .d, .lit 44, .lit 112, .lit 58, .f]

/-- The arguments of `sscanf`. The store of the class ends in the lowest byte of `class_prob`. -/
def artArgs : List (Scanf.Value → CubeFaceInfo → CubeFaceInfo) :=
  [fun v info =>
    { info with
      cls := .ofInt (Scanf.intOf v)
      classProb.low := some (Stores.byte (Scanf.intOf v) 3) },
   fun v info => { info with classProb := ⟨Scanf.realOf v, none⟩ },
   fun v info => { info with number := .ofInt (Scanf.intOf v) },
   fun v info => { info with numberProb := Scanf.realOf v }]

/-- The buffer once the handler has written its terminator. -/
def terminated (s : State) : Buffer :=
  writeBuffer s.artUartFifoBuffer ((s.artUartFifoIndex : ℤ) - 1) 0

/-- The string that the handler parses. -/
def parsedText (s : State) : List UInt8 := Scanf.cString (terminated s).toList

/-- `art_cube_data_handle_pit_call` -/
def artCubeDataHandlePitCall (s : State) : State :=
  if ¬ s.artInitFlag ∨ ¬ s.artDataRecvFinishFlag then s
  else
    let info := Scanf.store artArgs (Scanf.scan artFormat (parsedText s)) s.currentCubeFaceInfo
    { s with
      artUartFifoBuffer := terminated s
      currentCubeFaceInfo := { info with valid := true }
      artUartFifoIndex := 0
      artDataRecvFinishFlag := false }

/-! ## Runs -/

/-- A byte on the UART, or a call of the PIT handler. -/
inductive Event
  | byte (b : UInt8) | pit
deriving DecidableEq, Repr

def step (s : State) : Event → State
  | .byte b => artReceiveDataCallback s b
  | .pit => artCubeDataHandlePitCall s

/-- The bytes that have arrived. -/
def received (tr : List Event) : List UInt8 :=
  tr.filterMap fun
    | .byte b => some b
    | .pit => none

@[simp] theorem received_nil : received [] = [] := rfl

@[simp] theorem received_byte (tr : List Event) (b : UInt8) :
    received (tr ++ [.byte b]) = received tr ++ [b] := by
  simp [received]

@[simp] theorem received_pit (tr : List Event) : received (tr ++ [.pit]) = received tr := by
  simp [received]

/-- `current_cube_face_info` at power-up. -/
def initialFaceInfo : CubeFaceInfo where
  valid := false
  cls := CubeFaceInfoClass.electrodrill.val
  classProb := ⟨.fin 0, none⟩
  number := 0
  numberProb := .fin 0

/-- The receiver after `art_init`: index 0 and no frame pending. -/
structure Ready (s : State) : Prop where
  init : s.artInitFlag = true
  idle : s.artDataRecvFinishFlag = false
  index : s.artUartFifoIndex = 0

/-- The receiver after `art_init`, from power-up. -/
def start : State where
  artInitFlag := true
  artDataRecvFinishFlag := false
  artUartFifoBuffer := Vector.replicate 64 0
  artUartFifoIndex := 0
  currentCubeFaceInfo := initialFaceInfo

theorem ready_start : Ready start := ⟨rfl, rfl, rfl⟩

end SmartCar.Art

import SmartCar.Fifo.Refinement
import SmartCar.Mcx.Vision

/-!
# MCX_Vision: the receiver with the vendor's FIFO

The receiver of `MCX_Vision.c` as in `Mcx.Vision`, with the FIFO of `zf_common_fifo` in place of
the bounded queue. `ring_receiver_refines`: in every run the two show the same after each event,
so what is proved about the receiver with the queue holds of the code.
-/

namespace SmartCar.Mcx

open Fifo Replies

/-! ## The code -/

/-- The variables of the receiver, `mcx_uart_fifo` as it is. -/
structure RingReceiver where
  mcxLastDataTime : UInt32
  mcxDataTime : UInt32
  mcxDataLength : UInt32
  mcxInitFlag : Bool
  mcxDataRecvFinishFlag : Bool
  cubeInfo : CubeReport
  mcxUartFifo : FifoStruct UInt8 64
  mcxDataBuffer : Vector UInt8 37

/-- `mcx_receive_data_callback`, when the UART delivers `b`. -/
def ringReceiveDataCallback (s : RingReceiver) (b : UInt8) : Option RingReceiver :=
  if ¬ s.mcxInitFlag ∨ s.mcxDataRecvFinishFlag then some s
  else if b = mcxBufferHead then do
    let fifo ← fifoClear s.mcxUartFifo
    return { s with mcxUartFifo := fifo }
  else if b = mcxBufferTail then
    if fifoUsed s.mcxUartFifo ≠ 36 then some { s with mcxDataRecvFinishFlag := false }
    else some { s with mcxDataRecvFinishFlag := true }
  else do
    let (_, fifo) ← fifoWriteBuffer s.mcxUartFifo (some [b])
    return { s with mcxUartFifo := fifo }

/-- `mcx_cube_data_handle_pit_call`, once a frame of the right length is there. -/
def ringParse (s : RingReceiver) (now now' : UInt32) : Option RingReceiver := do
  let (_, length, data, fifo) ←
    Fifo.fifoReadBuffer s.mcxUartFifo .given s.mcxDataLength .readAndClean
  let buffer := copyIn s.mcxDataBuffer data
  if length = 36 then
    let buffer := buffer.set 36 0 (Nat.lt_succ_self 36)
    return { s with
      mcxDataLength := length
      mcxDataBuffer := buffer
      mcxUartFifo := fifo
      mcxDataTime := now - s.mcxLastDataTime
      cubeInfo := Scanf.store mcxArgs (Scanf.scan mcxFormat (Scanf.cString buffer.toList))
        s.cubeInfo
      mcxLastDataTime := now'
      mcxDataRecvFinishFlag := false }
  else
    return { s with
      mcxDataLength := 36
      mcxDataBuffer := buffer
      mcxUartFifo := fifo
      mcxDataRecvFinishFlag := false }

/-- `mcx_cube_data_handle_pit_call`, with the two readings of the timer. -/
def ringCubeDataHandlePitCall (s : RingReceiver) (now now' : UInt32) : Option RingReceiver :=
  if ¬ s.mcxInitFlag ∨ ¬ s.mcxDataRecvFinishFlag then some s
  else if fifoUsed s.mcxUartFifo ≠ 36 then some { s with mcxDataRecvFinishFlag := false }
  else ringParse s now now'

def ringStep (s : RingReceiver) : Event → Option RingReceiver
  | .byte b => ringReceiveDataCallback s b
  | .pit now now' => ringCubeDataHandlePitCall s now now'

/-- The receiver after `mcx_init_wait`, from power-up. -/
def ringStart : RingReceiver where
  mcxLastDataTime := 0
  mcxDataTime := 0
  mcxDataLength := 36
  mcxInitFlag := true
  mcxDataRecvFinishFlag := false
  cubeInfo := ⟨CubeDetectionState.cubeOutsideView.val, 0, 0, 0, 0⟩
  mcxUartFifo := Fifo.fifoInit (Vector.replicate 64 0) 64 (by decide)
  mcxDataBuffer := Vector.replicate 37 0

/-! ## What the rest of the program sees -/

/-- The flags, the report, the times and the text that has been parsed. -/
structure View where
  mcxLastDataTime : UInt32
  mcxDataTime : UInt32
  mcxInitFlag : Bool
  mcxDataRecvFinishFlag : Bool
  cubeInfo : CubeReport
  mcxDataBuffer : Vector UInt8 37
deriving DecidableEq

def RingReceiver.view (s : RingReceiver) : View :=
  ⟨s.mcxLastDataTime, s.mcxDataTime, s.mcxInitFlag, s.mcxDataRecvFinishFlag, s.cubeInfo,
    s.mcxDataBuffer⟩

def Receiver.view (s : Receiver) : View :=
  ⟨s.mcxLastDataTime, s.mcxDataTime, s.mcxInitFlag, s.mcxDataRecvFinishFlag, s.cubeInfo,
    s.mcxDataBuffer⟩

/-- An event, and what is seen after it. -/
def ringShow (s : RingReceiver) (e : Event) : Option (View × RingReceiver) :=
  (ringStep s e).map fun s => (s.view, s)

def queueShow (s : Receiver) (e : Event) : View × Receiver := ((step s e).view, step s e)

/-- The two receivers agree, and the one's FIFO holds what the other's queue holds. -/
structure Simulates (r : RingReceiver) (s : Receiver) : Prop where
  view : r.view = s.view
  fifo : Represents r.mcxUartFifo s.mcxUartFifo
  length : r.mcxDataLength.toNat = s.mcxDataLength

/-! ## One event -/

variable {r : RingReceiver} {s : Receiver}

theorem simulates_ringStart : Simulates ringStart start :=
  ⟨rfl, represents_fifoInit _ (by decide) rfl, rfl⟩

theorem fifoUsed_ne_iff {fifo : FifoStruct UInt8 64} {queue : Queue UInt8 64}
    (h : Represents fifo queue) : fifoUsed fifo ≠ 36 ↔ queue.used ≠ mcxDataLengthMax - 1 := by
  rw [← h.toNat_fifoUsed, ne_eq, ← UInt32.toNat_inj]
  rfl

theorem Simulates.byte (h : Simulates r s) (b : UInt8) :
    ∃ r', ringReceiveDataCallback r b = some r' ∧ Simulates r' (mcxReceiveDataCallback s b) := by
  obtain ⟨hview, hfifo, hlength⟩ := h
  have hused := fifoUsed_ne_iff hfifo
  cases r
  cases s
  simp only [RingReceiver.view, Receiver.view, View.mk.injEq] at hview hfifo hlength hused
  obtain ⟨rfl, rfl, rfl, rfl, rfl, rfl⟩ := hview
  simp only [ringReceiveDataCallback, mcxReceiveDataCallback, hused]
  split_ifs with hoff hhead htail hlong
  · exact ⟨_, rfl, rfl, hfifo, hlength⟩
  · obtain ⟨fifo, hclear, hrep⟩ := represents_fifoClear hfifo
    exact ⟨_, by rw [hclear]; rfl, rfl, hrep, hlength⟩
  · exact ⟨_, rfl, rfl, hfifo, hlength⟩
  · exact ⟨_, rfl, rfl, hfifo, hlength⟩
  · obtain ⟨state, fifo, hwrite, hrep⟩ := represents_fifoWriteBuffer_singleton hfifo b
    exact ⟨_, by rw [hwrite]; rfl, rfl, hrep, hlength⟩

theorem Simulates.pit (h : Simulates r s) (now now' : UInt32) :
    ∃ r', ringCubeDataHandlePitCall r now now' = some r' ∧
      Simulates r' (mcxCubeDataHandlePitCall s now now') := by
  obtain ⟨hview, hfifo, hlength⟩ := h
  have hused := fifoUsed_ne_iff hfifo
  have hread := represents_fifoReadBuffer hfifo (by decide) r.mcxDataLength .readAndClean
  cases r
  obtain ⟨lastDataTime, dataTime, dataLength, initFlag, finishFlag, info, queue, buffer⟩ := s
  simp only [RingReceiver.view, Receiver.view, View.mk.injEq] at hview hfifo hlength hused hread
  obtain ⟨rfl, rfl, rfl, rfl, rfl, rfl⟩ := hview
  have hlt : min dataLength queue.used < 2 ^ 32 := by
    have hcap : queue.used ≤ 64 := queue.le_cap
    omega
  simp only [ringCubeDataHandlePitCall, mcxCubeDataHandlePitCall, hused]
  split_ifs with hoff hshort hwhole
  · exact ⟨_, rfl, rfl, hfifo, hlength⟩
  · exact ⟨_, rfl, rfl, hfifo, hlength⟩
  · obtain ⟨fifo, hbuffer, hrep⟩ := hread
    rw [hlength] at hbuffer hrep
    have hlength' : UInt32.ofNat _ = 36 := congrArg UInt32.ofNat hwhole
    refine ⟨_, by simp only [ringParse, hbuffer]; exact if_pos hlength', rfl, hrep, ?_⟩
    exact UInt32.toNat_ofNat_of_lt' hlt
  · -- not all of it has been asked for
    obtain ⟨fifo, hbuffer, hrep⟩ := hread
    rw [hlength] at hbuffer hrep
    have hlength' : UInt32.ofNat (min dataLength queue.used) ≠ 36 := by
      intro heq
      rw [← UInt32.toNat_inj, UInt32.toNat_ofNat_of_lt' hlt] at heq
      exact hwhole heq
    exact ⟨_, by simp only [ringParse, hbuffer]; exact if_neg hlength', rfl, hrep, rfl⟩

theorem Simulates.event (h : Simulates r s) (e : Event) :
    ∃ r', ringStep r e = some r' ∧ Simulates r' (step s e) := by
  cases e with
  | byte b => exact h.byte b
  | pit now now' => exact h.pit now now'

/-- In every run the receiver with the vendor's FIFO shows, after each event, what the one with
the queue shows, and no copy leaves the FIFO's buffer. -/
theorem ring_receiver_refines (tr : List Event) :
    ∃ r, serve ringShow ringStart tr = some ((answer queueShow start tr).1, r) ∧
      Simulates r (answer queueShow start tr).2 := by
  refine serve_of_simulation Simulates (fun _ _ => True) ?_ tr _ _ simulates_ringStart
    (permitted_of_forall (fun _ _ => trivial) _ tr)
  intro r s e h _
  obtain ⟨r', hr', h'⟩ := h.event e
  refine ⟨r', ?_, h'⟩
  simp only [ringShow, hr', Option.map_some, h'.view]
  rfl

end SmartCar.Mcx

import SmartCar.Board.Rt1064
import SmartCar.Mcx.Link
import SmartCar.Mcx.RedCube

/-!
# The camera board and the RT1064 together

The main loop of the camera board looks for the cube in each image and puts a frame on the wire;
the RT1064 takes the bytes from the wire one at a time, whenever its UART interrupt comes.

* `Rejected`: the bytes on the wire, on top of those that the FIFO holds, never make up a frame
  of the length that the RT1064 takes;
* `cube_never_seen`: in every run, whatever the images and wherever in a frame the RT1064 has
  begun to listen, it goes on following the line and lists no cube.
-/

namespace SmartCar.Board

open Events Mcx

/-! ## The boards and the wire -/

/-- The variables of the camera board, the bytes that are on their way, and the RT1064. -/
structure TwoBoards where
  cubeInfo : CubeInfo
  writeBuffer : List UInt8
  wire : List UInt8
  rt1064 : Rt1064

/-- `scc8660_finish`: an image is there, and what lies around the two tables in memory; or the
first byte on the wire is delivered; or the RT1064 sees something else. -/
inductive BoardsEvent
  | image (beyondX beyondY : ℤ → UInt8) (image : Image)
  | deliver
  | artByte (b : UInt8)
  | pit (now now' : UInt32)
  | call (v : Sensors)

/-- `while (1)` of the camera board: an image is processed, and the report is sent. -/
def TwoBoards.report (s : TwoBoards) (cubeInfo : CubeInfo) : TwoBoards :=
  let (writeBuffer, sent) := rt1064UartSendCubeInfo s.writeBuffer cubeInfo
  { s with cubeInfo := cubeInfo, writeBuffer := writeBuffer, wire := s.wire ++ sent }

def boardsStep (s : TwoBoards) : BoardsEvent → TwoBoards
  | .image beyondX beyondY image =>
    s.report (findRedCubeCenter beyondX beyondY image s.cubeInfo)
  | .deliver =>
    match s.wire with
    | [] => s
    | b :: wire => { s with wire := wire, rt1064 := step s.rt1064 (.mcxByte b) }
  | .artByte b => { s with rt1064 := step s.rt1064 (.artByte b) }
  | .pit now now' => { s with rt1064 := step s.rt1064 (.pit now now') }
  | .call v => { s with rt1064 := step s.rt1064 (.call v) }

/-- `cube_info` of the camera board at power-up. -/
def noCube : CubeInfo where
  exist := false
  pixelCount := 0
  xCenter := 0
  yCenter := 0
  xMin := 0
  xMax := 0
  yMin := 0
  yMax := 0

theorem inRange_noCube : noCube.InRange := ⟨by decide, by decide, by decide⟩

/-- The RT1064 begins to listen when `wire` is left of what the camera board has sent. -/
def boardsStart (wire : List UInt8) : TwoBoards := ⟨noCube, [], wire, start⟩

/-! ## Frames that are too short -/

/-- With `used` bytes in the FIFO, no tail among the bytes comes when 36 are there. -/
def Rejected : ℕ → List UInt8 → Prop
  | _, [] => True
  | used, b :: bytes =>
    if b = mcxBufferHead then Rejected 0 bytes
    else if b = mcxBufferTail then used ≠ 36 ∧ Rejected used bytes
    else Rejected (min 64 (used + 1)) bytes

theorem rejected_head (used : ℕ) (bytes : List UInt8) :
    Rejected used (mcxBufferHead :: bytes) ↔ Rejected 0 bytes := by
  rw [Rejected, if_pos rfl]

/-- A head starts afresh, whatever has come before it. -/
theorem Rejected.append_head {used : ℕ} {bytes frame : List UInt8} (h : Rejected used bytes)
    (hframe : Rejected 0 frame) : Rejected used (bytes ++ mcxBufferHead :: frame) := by
  induction bytes generalizing used with
  | nil => exact (rejected_head used frame).mpr hframe
  | cons b bytes ih =>
    simp only [List.cons_append, Rejected] at h ⊢
    split_ifs at h ⊢ with hhead htail
    · exact ih h
    · exact ⟨h.1, ih h.2⟩
    · exact ih h

/-- Text that stays short, up to its tail. -/
theorem rejected_text {text : List UInt8} (htext : Printf.IsText text) {used : ℕ}
    (hshort : used + text.length < 36) : Rejected used (text ++ [mcxBufferTail]) := by
  induction text generalizing used with
  | nil =>
    have hlt : used < 36 := hshort
    have hne : mcxBufferTail ≠ mcxBufferHead := by decide
    rw [List.nil_append, Rejected, if_neg hne, if_pos rfl]
    exact ⟨by omega, trivial⟩
  | cons b text ih =>
    have hb := htext b List.mem_cons_self
    have hhead : b ≠ mcxBufferHead := by
      rintro rfl
      exact absurd hb (by decide)
    have htail : b ≠ mcxBufferTail := by
      rintro rfl
      exact absurd hb (by decide)
    rw [List.length_cons] at hshort
    simp only [List.cons_append, Rejected, if_neg hhead, if_neg htail]
    rw [min_eq_right (by omega)]
    exact ih (fun c hc => htext c (List.mem_cons_of_mem b hc)) (by omega)

/-- A frame, or what is left of one, is rejected. -/
theorem rejected_suffix {cube : CubeInfo} (h : cube.InRange) {writeBuffer wire : List UInt8}
    (hwire : wire <:+ (rt1064UartSendCubeInfo writeBuffer cube).2) : Rejected 0 wire := by
  rw [sent_eq h] at hwire
  have htext := isText_cubeText cube
  have hlength := length_cubeText h
  rcases List.suffix_cons_iff.mp (List.cons_append ▸ hwire) with rfl | hsuffix
  · -- the whole frame
    exact (rejected_head 0 _).mpr (rejected_text htext (by omega))
  · rcases List.suffix_concat_iff.mp hsuffix with rfl | ⟨text, rfl, htail⟩
    · trivial
    · obtain ⟨front, hfront⟩ := htail
      refine rejected_text (fun b hb => htext b ?_) ?_
      · rw [← hfront]
        exact List.mem_append_right front hb
      · rw [← hfront, List.length_append] at hlength
        omega

/-! ## The invariant -/

/-- No frame is pending, none that is on the wire will be taken, and the RT1064 is as it was. -/
structure Unseen (s : TwoBoards) : Prop where
  camera : s.cubeInfo.InRange
  init : s.rt1064.mcx.mcxInitFlag = true
  idle : s.rt1064.mcx.mcxDataRecvFinishFlag = false
  info : s.rt1064.mcx.cubeInfo = Mcx.start.cubeInfo
  wire : Rejected s.rt1064.mcx.mcxUartFifo.used s.wire
  modes : s.rt1064.modes = Motion.start

variable {s : TwoBoards}

theorem unseen_boardsStart {wire : List UInt8} (h : Rejected 0 wire) : Unseen (boardsStart wire) :=
  ⟨inRange_noCube, rfl, rfl, rfl, h, rfl⟩

/-- A report goes behind what is on the wire. -/
theorem Unseen.report (h : Unseen s) {cubeInfo : CubeInfo} (hrange : cubeInfo.InRange) :
    Unseen (s.report cubeInfo) := by
  refine ⟨hrange, h.init, h.idle, h.info, ?_, h.modes⟩
  simp only [TwoBoards.report, sent_eq hrange]
  refine h.wire.append_head (rejected_text (isText_cubeText cubeInfo) ?_)
  rw [length_cubeText hrange]
  decide

/-- A byte is delivered: a tail finds the FIFO with the wrong length. -/
theorem Unseen.deliver (h : Unseen s) {b : UInt8} {wire : List UInt8} (hwire : s.wire = b :: wire) :
    Unseen { s with wire := wire, rt1064 := step s.rt1064 (.mcxByte b) } := by
  have hrejected := h.wire
  rw [hwire, Rejected] at hrejected
  have hopen : ¬ (¬ s.rt1064.mcx.mcxInitFlag ∨ s.rt1064.mcx.mcxDataRecvFinishFlag) := by
    simp [h.init, h.idle]
  simp only [step, mcxReceiveDataCallback, if_neg hopen]
  split_ifs at hrejected ⊢ with hhead htail hlong
  · exact ⟨h.camera, h.init, h.idle, h.info, hrejected, h.modes⟩
  · exact ⟨h.camera, h.init, rfl, h.info, hrejected.2, h.modes⟩
  · exact absurd (not_not.mp hlong) hrejected.1
  · refine ⟨h.camera, h.init, h.idle, h.info, ?_, h.modes⟩
    rw [Queue.used_push]
    exact hrejected

/-- With no report of a cube, `motion_mode_calc` changes nothing. -/
theorem Unseen.call (h : Unseen s) (v : Sensors) :
    Unseen { s with rt1064 := step s.rt1064 (.call v) } := by
  refine ⟨h.camera, h.init, h.idle, h.info, h.wire, ?_⟩
  simp only [step, Rt1064.readings, h.info, h.modes]
  rfl

theorem unseen_step (h : Unseen s) (e : BoardsEvent) : Unseen (boardsStep s e) := by
  cases e with
  | image beyondX beyondY image =>
    exact h.report (inRange_findRedCubeCenter beyondX beyondY image h.camera)
  | deliver =>
    unfold boardsStep
    cases hwire : s.wire with
    | nil => exact h
    | cons b wire => exact h.deliver hwire
  | artByte b => exact ⟨h.camera, h.init, h.idle, h.info, h.wire, h.modes⟩
  | pit now now' =>
    -- no frame is pending, so there is nothing to parse
    have hpit : mcxCubeDataHandlePitCall s.rt1064.mcx now now' = s.rt1064.mcx := by
      simp [mcxCubeDataHandlePitCall, h.idle]
    refine ⟨h.camera, ?_, ?_, ?_, ?_, h.modes⟩ <;> simp only [boardsStep, step, hpit]
    · exact h.init
    · exact h.idle
    · exact h.info
    · exact h.wire
  | call v => exact h.call v

/-- In every run the RT1064 keeps following the line: no report of the camera board is ever
taken, whatever the images show, and no cube is listed. -/
theorem cube_never_seen {cube : CubeInfo} (h : cube.InRange) (writeBuffer wire : List UInt8)
    (hwire : wire <:+ (rt1064UartSendCubeInfo writeBuffer cube).2) (tr : List BoardsEvent) :
    let s := run boardsStep (boardsStart wire) tr
    s.rt1064.mcx.cubeInfo = Mcx.start.cubeInfo ∧ s.rt1064.modes.motionMode = .lineFollow ∧
      s.rt1064.modes.cubeInfoList = .empty := by
  have hunseen : Unseen (run boardsStep (boardsStart wire) tr) :=
    run_induction boardsStep (boardsStart wire) (fun _ => Unseen)
      (unseen_boardsStart (rejected_suffix h hwire)) (fun _ e h => unseen_step h e) tr
  refine ⟨hunseen.info, ?_, ?_⟩
  · rw [hunseen.modes]
    rfl
  · rw [hunseen.modes]
    rfl

/-- An image in which every pixel is red. -/
def allRed : Image := fun _ _ => 0x00F8

/-- The first frame is on its way when the RT1064 begins to listen, and its head is lost. -/
theorem cube_never_seen_allRed :
    let s := run boardsStep
      (boardsStart (rt1064UartSendCubeInfo [] noCube).2.tail)
      (.image (fun _ => 0) (fun _ => 0) allRed :: List.replicate 100 .deliver)
    s.rt1064.mcx.cubeInfo = Mcx.start.cubeInfo ∧ s.rt1064.modes.motionMode = .lineFollow ∧
      s.rt1064.modes.cubeInfoList = .empty :=
  cube_never_seen inRange_noCube [] _ (List.tail_suffix _) _

end SmartCar.Board

import SmartCar.Mcx.Rt1064Uart
import SmartCar.Mcx.Vision

/-!
# The link from the MCX board to the RT1064

The board prints 29 bytes of text between the delimiters; the RT1064 takes a
frame only if it has counted 36. So no report gets across: whatever the report and
whatever was in the FIFO, the tail is rejected and `cube_info` stays as it was.
-/

namespace SmartCar.Mcx

open Events Printf

/-! ## What is sent -/

theorem length_cubeText {cube : CubeInfo} (h : cube.InRange) : (cubeText cube).length = 29 := by
  have hx : cube.xCenter.toNat < 320 := h.xCenter
  have hy : cube.yCenter.toNat < 240 := h.yCenter
  have hp : cube.pixelCount.toNat ≤ 76800 := h.pixelCount
  have hi32 : CInt.i32 cube.pixelCount.toNat = (cube.pixelCount.toNat : ℤ) :=
    CInt.i32_of_range (by omega)
  have hexist : cube.exist.toNat < 10 ^ 1 := by cases cube.exist <;> decide
  have h1 := length_padLeft_of_le (length_decimal_le (by decide) hexist)
  have h2 := length_padLeft_of_le (length_decimal_le (k := 4) (by decide)
    (show cube.xCenter.toNat < 10 ^ 4 by omega))
  have h3 := length_padLeft_of_le (length_decimal_le (k := 4) (by decide)
    (show cube.yCenter.toNat < 10 ^ 4 by omega))
  have h4 := length_padLeft_of_le (length_decimal_le (k := 6) (by decide)
    (show cube.pixelCount.toNat < 10 ^ 6 by omega))
  simp only [cubeText, List.length_append, hi32, signed_natCast, h1, h2, h3, h4]
  decide

theorem isText_cubeText (cube : CubeInfo) : IsText (cubeText cube) := by
  have hs : IsText (padLeft 1 (signed cube.exist.toNat)) := (isText_signed _).padLeft 1
  have hx : IsText (padLeft 4 (decimal cube.xCenter.toNat)) := (isText_decimal _).padLeft 4
  have hy : IsText (padLeft 4 (decimal cube.yCenter.toNat)) := (isText_decimal _).padLeft 4
  have hp : IsText (padLeft 6 (signed (CInt.i32 cube.pixelCount.toNat))) :=
    (isText_signed _).padLeft 6
  have ht : IsText (ascii "s:") := by decide +kernel
  have htx : IsText (ascii ",xf:") := by decide +kernel
  have hty : IsText (ascii ",yf:") := by decide +kernel
  have htp : IsText (ascii ",p:") := by decide +kernel
  have htn : IsText (ascii "\n") := by decide +kernel
  exact ((((((((ht.append hs).append htx).append hx).append hty).append hy).append htp).append
    hp).append htn)

/-- The bytes sent are the text between the delimiters: the NUL that the sender makes
sure of is where `sprintf` has put one. -/
theorem sent_eq {cube : CubeInfo} (h : cube.InRange) (writeBuffer : List UInt8) :
    (rt1064UartSendCubeInfo writeBuffer cube).2 =
      rt1064BufferHead :: cubeText cube ++ [rt1064BufferTail] := by
  have hlen := length_cubeText h
  have hzero : (0 : UInt8) ∉ cubeText cube := (isText_cubeText cube).not_mem (by decide)
  have hset : ((cubeText cube ++ 0 :: writeBuffer.drop 30).set 29 0) =
      cubeText cube ++ 0 :: writeBuffer.drop 30 := by
    rw [List.set_append_right _ _ (by omega), hlen]
    rfl
  simp only [rt1064UartSendCubeInfo, hlen, rt1064CubeDataLength]
  rw [hset, Scanf.cString_append hzero]

/-! ## What is received -/

/-- Bytes that are no delimiters go into the FIFO while no frame is pending. -/
theorem receive_text {s : Receiver} (hinit : s.mcxInitFlag = true)
    (hidle : s.mcxDataRecvFinishFlag = false) {text : List UInt8}
    (hhead : mcxBufferHead ∉ text) (htail : mcxBufferTail ∉ text) :
    run step s (text.map .byte) =
      { s with mcxUartFifo := text.foldl Queue.push s.mcxUartFifo } := by
  induction text generalizing s with
  | nil => rfl
  | cons b text ih =>
    simp only [List.mem_cons, not_or] at hhead htail
    have hb : mcxReceiveDataCallback s b = { s with mcxUartFifo := s.mcxUartFifo.push b } := by
      simp only [mcxReceiveDataCallback, if_neg (Ne.symm hhead.1), if_neg (Ne.symm htail.1)]
      simp [hinit, hidle]
    rw [List.map_cons, run_cons, step, hb]
    exact ih (s := { s with mcxUartFifo := s.mcxUartFifo.push b }) hinit hidle hhead.2 htail.2

/-- The receiver after the bytes of the frame that carries `cube`. -/
def afterFrame (writeBuffer : List UInt8) (cube : CubeInfo) (s : Receiver) : Receiver :=
  run step s ((rt1064UartSendCubeInfo writeBuffer cube).2.map .byte)

/-- The frame leaves its text in the FIFO, and is not accepted. -/
theorem afterFrame_eq {cube : CubeInfo} (h : cube.InRange) (writeBuffer : List UInt8)
    {s : Receiver} (hinit : s.mcxInitFlag = true) (hidle : s.mcxDataRecvFinishFlag = false) :
    afterFrame writeBuffer cube s =
      { s with
        mcxUartFifo := (cubeText cube).foldl Queue.push .empty
        mcxDataRecvFinishFlag := false } := by
  have hhead : mcxBufferHead ∉ cubeText cube := (isText_cubeText cube).not_mem (by decide)
  have htail : mcxBufferTail ∉ cubeText cube := (isText_cubeText cube).not_mem (by decide)
  -- 29 bytes are in the FIFO when the tail comes
  have hused : ((cubeText cube).foldl Queue.push (.empty : Queue UInt8 64)).used = 29 := by
    rw [Queue.used_foldl_push, length_cubeText h]
    rfl
  have hmap : (rt1064BufferHead :: cubeText cube ++ [rt1064BufferTail]).map Event.byte =
      (.byte mcxBufferHead :: (cubeText cube).map .byte) ++ [.byte mcxBufferTail] := by
    simp
  have hfirst : step s (.byte mcxBufferHead) = { s with mcxUartFifo := .empty } := by
    simp [step, mcxReceiveDataCallback, hinit, hidle]
  rw [afterFrame, sent_eq h, hmap, run_concat, run_cons, hfirst,
    receive_text (s := { s with mcxUartFifo := .empty }) hinit hidle hhead htail]
  simp [step, mcxReceiveDataCallback, hinit, hidle, hused]

/-! ## Nothing gets across -/

/-- The frame is accepted, and the handler takes the report over. -/
structure Delivered (writeBuffer : List UInt8) (cube : CubeInfo) (s : Receiver)
    (now now' : UInt32) : Prop where
  accepted : (afterFrame writeBuffer cube s).mcxDataRecvFinishFlag = true
  state : (mcxCubeDataHandlePitCall (afterFrame writeBuffer cube s) now now').cubeInfo.state =
    UInt8.ofNat cube.exist.toNat
  xCenter : (mcxCubeDataHandlePitCall (afterFrame writeBuffer cube s) now now').cubeInfo.xCenter =
    cube.xCenter
  yCenter : (mcxCubeDataHandlePitCall (afterFrame writeBuffer cube s) now now').cubeInfo.yCenter =
    cube.yCenter
  pCount : (mcxCubeDataHandlePitCall (afterFrame writeBuffer cube s) now now').cubeInfo.pCount =
    cube.pixelCount

theorem afterFrame_idle {cube : CubeInfo} (h : cube.InRange) (writeBuffer : List UInt8)
    {s : Receiver} (hinit : s.mcxInitFlag = true) (hidle : s.mcxDataRecvFinishFlag = false) :
    (afterFrame writeBuffer cube s).mcxDataRecvFinishFlag = false := by
  rw [afterFrame_eq h writeBuffer hinit hidle]

/-- No report is ever delivered; `cube_info` stays as it was. -/
theorem never_delivered (writeBuffer : List UInt8) (cube : CubeInfo) (h : cube.InRange)
    (s : Receiver) (hinit : s.mcxInitFlag = true) (hidle : s.mcxDataRecvFinishFlag = false)
    (now now' : UInt32) :
    ¬ Delivered writeBuffer cube s now now' ∧
      (mcxCubeDataHandlePitCall (afterFrame writeBuffer cube s) now now').cubeInfo =
        s.cubeInfo := by
  have hrejected := afterFrame_idle h writeBuffer hinit hidle
  refine ⟨fun hd => by simp [hd.accepted] at hrejected, ?_⟩
  have hstep : mcxCubeDataHandlePitCall (afterFrame writeBuffer cube s) now now' =
      afterFrame writeBuffer cube s := by
    simp [mcxCubeDataHandlePitCall, hrejected]
  rw [hstep, afterFrame_eq h writeBuffer hinit hidle]

/-- A cube in the middle of the image. -/
def centred : CubeInfo :=
  { exist := true, pixelCount := 20000, xCenter := 160, yCenter := 120
    xMin := 90, xMax := 230, yMin := 50, yMax := 190 }

theorem inRange_centred : centred.InRange := ⟨by decide, by decide, by decide⟩

theorem never_delivered_centred :
    ¬ Delivered [] centred start 0 0 ∧
      (mcxCubeDataHandlePitCall (afterFrame [] centred start) 0 0).cubeInfo = start.cubeInfo :=
  never_delivered [] centred inRange_centred start rfl rfl 0 0

theorem not_delivered_centred : ¬ Delivered [] centred start 0 0 := fun h =>
  absurd h.accepted (by simp [afterFrame_idle inRange_centred [] (s := start) rfl rfl])

end SmartCar.Mcx

import SmartCar.Lib.CInt
import SmartCar.Lib.Printf
import SmartCar.Lib.Scanf
import SmartCar.Mcx.CubeDetection

/-!
# rt1064_uart: the sender on the MCX board

`rt1064_uart_send_cube_info` prints `cube_info` and sends it as a frame.
-/

namespace SmartCar.Mcx

open Printf

@[simp] def rt1064BufferHead : UInt8 := 0xFE
@[simp] def rt1064BufferTail : UInt8 := 0xEF
@[simp] def rt1064CubeDataLength : ℕ := 30

/-- What `sprintf` prints: `"s:%1d,xf:%4u,yf:%4u,p:%6d\n"`. -/
def cubeText (cubeInfo : CubeInfo) : List UInt8 :=
  ascii "s:" ++ padLeft 1 (signed cubeInfo.exist.toNat) ++
  ascii ",xf:" ++ padLeft 4 (decimal cubeInfo.xCenter.toNat) ++
  ascii ",yf:" ++ padLeft 4 (decimal cubeInfo.yCenter.toNat) ++
  ascii ",p:" ++ padLeft 6 (signed (CInt.i32 cubeInfo.pixelCount.toNat)) ++ ascii "\n"

/-- `rt1064_uart_send_cube_info`: the write buffer afterwards, and the bytes sent. -/
def rt1064UartSendCubeInfo (writeBuffer : List UInt8) (cubeInfo : CubeInfo) :
    List UInt8 × List UInt8 :=
  let text := cubeText cubeInfo
  let buffer := text ++ 0 :: writeBuffer.drop (text.length + 1)
  let buffer := buffer.set (rt1064CubeDataLength - 1) 0
  (buffer, rt1064BufferHead :: Scanf.cString buffer ++ [rt1064BufferTail])

end SmartCar.Mcx

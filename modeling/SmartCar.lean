import SmartCar.Lib.Events
import SmartCar.Lib.Framing
import SmartCar.Lib.Queue
import SmartCar.Lib.Ring
import SmartCar.Lib.Replies
import SmartCar.Lib.Visits
import SmartCar.Lib.CInt
import SmartCar.Lib.Counting
import SmartCar.Lib.Goto
import SmartCar.Lib.Scan
import SmartCar.Lib.WeightedMean
import SmartCar.Lib.Window
import SmartCar.Lib.Clamp
import SmartCar.Lib.Printf
import SmartCar.Lib.Best
import SmartCar.Lib.HillClimb
import SmartCar.Lib.Scanf
import SmartCar.Lib.Numerals
import SmartCar.Lib.Scanset
import SmartCar.Lib.Doubles
import SmartCar.Lib.Stores
import SmartCar.Lib.Exchange
import SmartCar.Lib.Elapsed
import SmartCar.Lib.Line
import SmartCar.Lib.Stretch
import SmartCar.Lib.Actions
import SmartCar.Lib.Dial
import SmartCar.Lib.OmniDrive
import SmartCar.Fifo.Operations
import SmartCar.Fifo.Refinement
import SmartCar.Art.OpenArt
import SmartCar.Art.Frames
import SmartCar.Art.Link
import SmartCar.Art.Handled
import SmartCar.Art.Stream
import SmartCar.Mcx.CubeDetection
import SmartCar.Mcx.RedCube
import SmartCar.Mcx.Bounds
import SmartCar.Mcx.Rt1064Uart
import SmartCar.Mcx.Vision
import SmartCar.Mcx.Frames
import SmartCar.Mcx.Link
import SmartCar.Mcx.RingReceiver
import SmartCar.Mcx.InitWait
import SmartCar.Mcx.WakeCall
import SmartCar.Motion.Pid
import SmartCar.Motion.PidForms
import SmartCar.Motion.Modes
import SmartCar.Motion.LastMode
import SmartCar.Motion.PushCycle
import SmartCar.Motion.PushSafety
import SmartCar.Motion.PushLedger
import SmartCar.Motion.OuterLoop
import SmartCar.Motion.Motor
import SmartCar.Motion.MovingAverage
import SmartCar.Motion.HeldSpeed
import SmartCar.Motion.ControlLoop
import SmartCar.Motion.Wheels
import SmartCar.Motion.Standstill
import SmartCar.Motion.Interleaving
import SmartCar.Motion.Gyroscope
import SmartCar.Board.Records
import SmartCar.Board.Payloads
import SmartCar.Board.Rt1064
import SmartCar.Board.Recognition
import SmartCar.Board.TwoBoards
import SmartCar.Board.Labels
import SmartCar.Board.Handshake
import SmartCar.Menu.CubeInfoTable
import SmartCar.Menu.Keys
import SmartCar.Menu.Params
import SmartCar.Menu.MainLoop
import SmartCar.Menu.ParamRow
import SmartCar.Menu.Panel
import SmartCar.Menu.MotorSwitch
import SmartCar.MtImage.State
import SmartCar.MtImage.Search
import SmartCar.MtImage.Record
import SmartCar.MtImage.Invariant
import SmartCar.MtImage.Midline
import SmartCar.MtImage.Termination
import SmartCar.MtImage.Range
import SmartCar.MtImage.Reads
import SmartCar.MtImage.Mean
import SmartCar.MtImage.Elements
import SmartCar.MtImage.Flow
import SmartCar.MtImage.Zebra
import SmartCar.MtImage.Bottom
import SmartCar.MtImage.RowCases
import SmartCar.MtImage.Edges
import SmartCar.MtImage.Tracks
import SmartCar.MtImage.RowScan
import SmartCar.MtImage.LostRow
import SmartCar.MtImage.Border
import SmartCar.MtImage.Convexity
import SmartCar.MtImage.Extrapolation
import SmartCar.MtImage.Debounce
import SmartCar.MtImage.RightColumn
import SmartCar.MtImage.Same
import SmartCar.MtImage.Locals
import SmartCar.MtImage.Abandon
import SmartCar.MtImage.Debug
import SmartCar.MtImage.Threshold
import SmartCar.MtImage.Otsu
import SmartCar.MtImage.Settling
import SmartCar.MtImage.Exposure
import SmartCar.MtImage.Append
import SmartCar.MtImage.Segments
import SmartCar.Debugger.Backend
import SmartCar.Debugger.Sessions
import SmartCar.Debugger.Stepping
import SmartCar.Debugger.Report
import SmartCar.Debugger.Carried
import SmartCar.Test.DataFile
import SmartCar.Test.Control

import Mathlib.Data.Rat.Defs
import Mathlib.Data.List.Permutation
import SmartCar.Lib.Events

/-!
# The debugger's backend

`main.ts` keeps a session for each data set that is being stepped through. A frame is
run by the program `image_test`, which is handed the text it printed for the frame
before (`prevDataStr`); the element in that text can be replaced by hand.

A handler runs without interruption up to its next `await`, and goes on when the
awaited promise has settled. Between the two the other handlers may run, on the same
session. Modelled are the requests that read and write a session, of which there is one;
neither the program nor its data files change meanwhile.
-/

namespace SmartCar.Debugger

open Events

/-! ## Sessions -/

/-- `Session`. A frame index is a JSON number. -/
structure Session where
  id : String
  datasetName : String
  frameIndex : ℚ
  prevDataStr : String
  controlStr : String
deriving DecidableEq

/-- `ElementDisplay` -/
inductive ElementDisplay
  | zebra | curveLeft | curveRight | normal
  | crossBefore | cross
  | loopLeftBefore | loopRightBefore
  | loopLeftBefore2 | loopRightBefore2
  | loopLeft | loopRight
deriving DecidableEq, Repr

namespace ElementDisplay

/-- `ELEMENT_DISPLAY` -/
def display : List ElementDisplay :=
  [zebra, curveLeft, curveRight, normal, crossBefore, cross, loopLeftBefore, loopRightBefore,
   loopLeftBefore2, loopRightBefore2, loopLeft, loopRight]

/-- The text of an element. -/
def name : ElementDisplay → String
  | zebra => "Zebra" | curveLeft => "CurveLeft" | curveRight => "CurveRight"
  | normal => "Normal"
  | crossBefore => "CrossBefore" | cross => "Cross"
  | loopLeftBefore => "LoopLeftBefore" | loopRightBefore => "LoopRightBefore"
  | loopLeftBefore2 => "LoopLeftBefore2" | loopRightBefore2 => "LoopRightBefore2"
  | loopLeft => "LoopLeft" | loopRight => "LoopRight"

end ElementDisplay

/-- An element as `image_test` prints it. -/
def elementText (element : ElementDisplay) : String :=
  "[element = " ++ toString (ElementDisplay.display.idxOf element) ++ " (" ++ element.name ++ ")]"

/-! ## The replacement of `/set-element` -/

/-- `\w` -/
def isWord (c : Char) : Bool := c.isAlphanum || c = '_'

/-- Characters of a class, at least one. No class used here has the character that
follows it in the pattern, so taking as many as possible is the only way to match. -/
def many (p : Char → Bool) (s : List Char) : Option (List Char) :=
  if s.takeWhile p = [] then none else some (s.dropWhile p)

/-- What follows a match of `/\[element = \d+ \(\w+\)\]/` at the front of `s`. -/
def matchElement (s : List Char) : Option (List Char) := do
  let s ← s.dropPrefix? "[element = ".toList
  let s ← many Char.isDigit s
  let s ← s.dropPrefix? " (".toList
  let s ← many isWord s
  s.dropPrefix? ")]".toList

/-- `replace`: the first match, from left to right. -/
def replaceFirst (text : List Char) : List Char → List Char
  | [] => []
  | c :: s =>
    match matchElement (c :: s) with
    | some rest => text ++ rest
    | none => c :: replaceFirst text s

def replaceElement (element : ElementDisplay) (prevDataStr : String) : String :=
  .ofList (replaceFirst (elementText element).toList prevDataStr.toList)

/-- The pattern does not begin at `[prev element`. -/
example : replaceElement .cross "[prev element = 3 (Normal)]\n[element = 3 (Normal)]\n" =
    "[prev element = 3 (Normal)]\n[element = 5 (Cross)]\n" := by decide +kernel

/-! ## Requests and handlers -/

/-- `RunFrameReq` and `SetElementReq`. -/
inductive Request
  | runFrame (id : String) (frameIndex : Option ℚ)
  | setElement (id : String) (element : ElementDisplay)
deriving DecidableEq

/-- The session that a request is about. -/
def Request.id : Request → String
  | .runFrame id _ | .setElement id _ => id

/-- What `image_test` is started with: the data file of a frame, and two texts. -/
structure Args where
  datasetName : String
  frameIndex : ℚ
  prevDataStr : String
  controlStr : String
deriving DecidableEq

/-- What `image_test` prints. -/
structure Output where
  stdout : String
  stderr : String
deriving DecidableEq

/-- What the handlers find outside: whether `fs.stat` finds the executable, and what
running it gives. A run that fails leaves its `stderr` only. -/
structure Env where
  found : Bool
  imageTest : Args → Except String Output

/-- The replies. -/
inductive Reply
  | ran (value : Output)
  | elementSet
  | failure (reason : String)
  | sessionNotFound (error : String)
deriving DecidableEq

/-- How far a request has been handled: at `await fs.stat`, at `await execa` (the run
of `image_test` is on its way), or replied to. -/
inductive Handler
  | stat (frameIndex : Option ℚ)
  | execa (frameIndex : Option ℚ) (args : Args)
  | replied (reply : Reply)
deriving DecidableEq

/-- The arguments that `runSession` reads from the session. -/
def runSession (session : Session) : Args where
  datasetName := session.datasetName
  frameIndex := session.frameIndex
  prevDataStr := session.prevDataStr
  controlStr := session.controlStr

/-- `SessionNotFoundError` -/
def sessionNotFound (id : String) : Reply := .sessionNotFound ("Session " ++ id ++ " not found")

/-- A handler up to its first `await`. -/
def handle (session : Session) : Request → Session × Handler
  | .runFrame id frameIndex =>
    if id ≠ session.id then (session, .replied (sessionNotFound id))
    else
      match frameIndex with
      | some frameIndex => ({ session with frameIndex }, .stat (some frameIndex))
      | none => (session, .stat none)
  | .setElement id element =>
    if id ≠ session.id then (session, .replied (sessionNotFound id))
    else
      ({ session with prevDataStr := replaceElement element session.prevDataStr },
       .replied .elementSet)

/-- A handler from an `await` to the next one. -/
def resume (env : Env) (session : Session) : Handler → Session × Handler
  | .stat frameIndex =>
    if env.found then (session, .execa frameIndex (runSession session))
    else (session, .replied (.failure "Executable not found"))
  | .execa _ args =>
    match env.imageTest args with
    | .ok result => ({ session with prevDataStr := result.stderr }, .replied (.ran result))
    | .error stderr => (session, .replied (.failure stderr))
  | .replied reply => (session, .replied reply)

/-! ## Runs -/

/-- The session, and the handlers in the order in which their requests have come. -/
structure Backend where
  session : Session
  handlers : List Handler
deriving DecidableEq

/-- A request comes in, or what the handler of the `i`th request awaits has settled. -/
inductive Event
  | request (req : Request)
  | settled (i : ℕ)
deriving DecidableEq

def step (env : Env) (b : Backend) : Event → Backend
  | .request req =>
    let (session, handler) := handle b.session req
    { session, handlers := b.handlers ++ [handler] }
  | .settled i =>
    match b.handlers[i]? with
    | none => b
    | some handler =>
      let (session, handler) := resume env b.session handler
      { session, handlers := b.handlers.set i handler }

/-- The requests of a run. -/
def requests (tr : List Event) : List Request :=
  tr.filterMap fun
    | .request req => some req
    | .settled _ => none

@[simp] theorem requests_nil : requests [] = [] := rfl

@[simp] theorem requests_request (tr : List Event) (req : Request) :
    requests (tr ++ [.request req]) = requests tr ++ [req] := by
  simp [requests]

@[simp] theorem requests_settled (tr : List Event) (i : ℕ) :
    requests (tr ++ [.settled i]) = requests tr := by
  simp [requests]

/-- A request is handled with no other one in between. -/
def handleAlone (env : Env) (b : Backend) (req : Request) : Backend :=
  run (step env) b
    [.request req, .settled b.handlers.length, .settled b.handlers.length]

end SmartCar.Debugger

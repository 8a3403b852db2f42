import Mathlib.Data.UInt
import SmartCar.Lib.Ring

/-!
# zf_common_fifo

The FIFO of the vendor's library: a buffer that is written at `head` and read at the field `end`
(here `tail`), the number of elements that there is still room for in `size`. An element has 8,
16 or 32 bits; `α` is its type. `execution` has a bit for each operation that is under way.

A copy that would reach past the end of the buffer is undefined in C; here it is `none`.
-/

namespace SmartCar.Fifo

/-! ## Data -/

/-- `fifo_state_enum`. `FIFO_RESET_UNDO` is never returned: the test in `fifo_clear` that would
return it is commented out. -/
inductive FifoState
  | success | resetUndo | clearUndo | bufferNull | writeUndo | spaceNoEnough | readUndo
  | dataNoEnough
deriving DecidableEq, Repr

/-- `fifo_operation_enum` -/
inductive FifoOperation
  | readAndClean | readOnly
deriving DecidableEq, Repr

/-- The pointer that a read stores through. -/
inductive Pointer
  | null | given
deriving DecidableEq, Repr

/-- `FIFO_IDLE` -/
def fifoIdle : UInt8 := 0x00
/-- `FIFO_RESET` -/
def fifoReset : UInt8 := 0x01
/-- `FIFO_CLEAR` -/
def fifoClearing : UInt8 := 0x02
/-- `FIFO_WRITE` -/
def fifoWrite : UInt8 := 0x04
/-- `FIFO_READ` -/
def fifoRead : UInt8 := 0x08

/-- `fifo_struct`, on a buffer of `n` elements. With no room at all, the loops that bring the
indices back into the buffer would not end. -/
structure FifoStruct (α : Type*) (n : ℕ) where
  execution : UInt8
  buffer : Vector α n
  head : UInt32
  tail : UInt32
  size : UInt32
  max : UInt32
  max_pos : 0 < max

section Code

variable {α : Type*} {n : ℕ}

/-! ## The code -/

theorem toNat_sub_lt {max p : UInt32} (h : 0 < max) (hp : max ≤ p) :
    (p - max).toNat < p.toNat := by
  rw [UInt32.toNat_sub_of_le p max hp]
  have hpos := UInt32.lt_iff_toNat_lt.mp h
  have hle := UInt32.le_iff_toNat_le.mp hp
  simp only [UInt32.toNat_zero] at hpos
  omega

/-- `while(fifo->max <= fifo->head) fifo->head -= fifo->max;` -/
def wrap (max : UInt32) (h : 0 < max) (p : UInt32) : UInt32 :=
  if max ≤ p then wrap max h (p - max) else p
termination_by p.toNat
decreasing_by exact toNat_sub_lt h ‹_›

/-- `fifo_head_offset` -/
def fifoHeadOffset (f : FifoStruct α n) (offset : UInt32) : FifoStruct α n :=
  { f with head := wrap f.max f.max_pos (f.head + offset) }

/-- `fifo_end_offset` -/
def fifoEndOffset (f : FifoStruct α n) (offset : UInt32) : FifoStruct α n :=
  { f with tail := wrap f.max f.max_pos (f.tail + offset) }

/-- `fifo_init` -/
def fifoInit (buffer : Vector α n) (size : UInt32) (h : 0 < size) : FifoStruct α n where
  execution := fifoIdle
  buffer := buffer
  head := 0
  tail := 0
  size := size
  max := size
  max_pos := h

/-- `fifo_clear`; it returns `FIFO_SUCCESS`. -/
def fifoClear [Zero α] (f : FifoStruct α n) : Option (FifoStruct α n) := do
  let f := { f with
    execution := f.execution ||| fifoReset
    head := 0
    tail := 0
    size := f.max }
  let buffer ← Ring.put f.buffer 0 (List.replicate f.max.toNat 0)
  return { f with buffer := buffer, execution := fifoIdle }

/-- `fifo_used` -/
def fifoUsed (f : FifoStruct α n) : UInt32 := f.max - f.size

/-- `memcpy` to the buffer, at the head. -/
def copyToHead (f : FifoStruct α n) (block : List α) : Option (FifoStruct α n) := do
  let buffer ← Ring.put f.buffer f.head.toNat block
  return { f with buffer := buffer }

/-- `fifo_write_element` -/
def fifoWriteElement (f : FifoStruct α n) (dat : α) : Option (FifoState × FifoStruct α n) :=
  if (fifoReset ||| fifoWrite) &&& f.execution ≠ 0 then some (.writeUndo, f)
  else do
    let f := { f with execution := f.execution ||| fifoWrite }
    if 1 ≤ f.size then
      let f ← copyToHead f [dat]
      let f := fifoHeadOffset f 1
      return (.success, { f with size := f.size - 1, execution := f.execution &&& ~~~fifoWrite })
    else return (.spaceNoEnough, { f with execution := f.execution &&& ~~~fifoWrite })

/-- `memcpy` to the buffer, at the head, round the end of the buffer; the head moves on. -/
def writeBlock (f : FifoStruct α n) (dat : List α) (length : UInt32) : Option (FifoStruct α n) :=
  let tempLength := f.max - f.head
  if length > tempLength then do
    let f ← copyToHead f (dat.take tempLength.toNat)
    let f := fifoHeadOffset f tempLength
    let f ← copyToHead f (dat.drop tempLength.toNat)
    return fifoHeadOffset f (length - tempLength)
  else do
    let f ← copyToHead f dat
    return fifoHeadOffset f length

/-- `fifo_write_buffer`, with as many elements as `length` says; `none` is `NULL`, for which the
length is not looked at. -/
def fifoWriteBuffer (f : FifoStruct α n) :
    Option (List α) → Option (FifoState × FifoStruct α n)
  | none => some (.bufferNull, f)
  | some dat =>
    let length := UInt32.ofNat dat.length
    if (fifoReset ||| fifoWrite) &&& f.execution ≠ 0 then some (.writeUndo, f)
    else do
      let f := { f with execution := f.execution ||| fifoWrite }
      if length ≤ f.size then
        let f ← writeBlock f dat length
        return (.success,
          { f with size := f.size - length, execution := f.execution &&& ~~~fifoWrite })
      else return (.spaceNoEnough, { f with execution := f.execution &&& ~~~fifoWrite })

/-- `FIFO_READ_AND_CLEAN`: the elements that have been read make room; with the state that is
returned. -/
def release (f : FifoStruct α n) (flag : FifoOperation) (state : FifoState) (length : UInt32) :
    FifoState × FifoStruct α n :=
  match flag with
  | .readOnly => (state, f)
  | .readAndClean =>
    if fifoReset ||| fifoClearing ||| fifoRead = f.execution then (.clearUndo, f)
    else
      let f := { f with execution := f.execution ||| fifoClearing }
      let f := fifoEndOffset f length
      (state, { f with
        size := f.size + length
        execution := f.execution &&& ~~~fifoClearing })

/-- `fifo_read_element`, with the element that is stored through `dat`. Without a buffer nothing
is read, and an element is dropped all the same. -/
def fifoReadElement (f : FifoStruct α n) (dat : Pointer) (flag : FifoOperation) :
    Option (FifoState × List α × FifoStruct α n) :=
  if dat = .null then
    let (state, f) := release f flag .bufferNull 1
    some (state, [], f)
  else if (fifoReset ||| fifoClearing) &&& f.execution ≠ 0 then some (.readUndo, [], f)
  else if 1 > fifoUsed f then some (.dataNoEnough, [], f)
  else do
    let f := { f with execution := f.execution ||| fifoRead }
    let dat ← Ring.get f.buffer f.tail.toNat 1
    let f := { f with execution := f.execution &&& ~~~fifoRead }
    let (state, f) := release f flag .success 1
    return (state, dat, f)

/-- `memcpy` from the buffer, at the tail, round the end of the buffer. -/
def copyFromTail (f : FifoStruct α n) (length : UInt32) : Option (List α) := do
  let tempLength := f.max - f.tail
  if length ≤ tempLength then Ring.get f.buffer f.tail.toNat length.toNat
  else
    let first ← Ring.get f.buffer f.tail.toNat tempLength.toNat
    let second ← Ring.get f.buffer 0 (length - tempLength).toNat
    return first ++ second

/-- `fifo_read_buffer`, once the length has been corrected. -/
def readBlock (f : FifoStruct α n) (length : UInt32) (flag : FifoOperation) (state : FifoState) :
    Option (FifoState × UInt32 × List α × FifoStruct α n) := do
  let f := { f with execution := f.execution ||| fifoRead }
  let dat ← copyFromTail f length
  let f := { f with execution := f.execution &&& ~~~fifoRead }
  let (state, f) := release f flag state length
  return (state, length, dat, f)

/-- `fifo_read_buffer`, with the corrected `length` and the elements that are stored through
`dat`. Without a buffer nothing is read, the length is not corrected, and so many elements are
dropped. -/
def fifoReadBuffer (f : FifoStruct α n) (dat : Pointer) (length : UInt32) (flag : FifoOperation) :
    Option (FifoState × UInt32 × List α × FifoStruct α n) :=
  if dat = .null then
    let (state, f) := release f flag .bufferNull length
    some (state, length, [], f)
  else if (fifoReset ||| fifoClearing) &&& f.execution ≠ 0 then some (.readUndo, 0, [], f)
  else
    let fifoDataLength := fifoUsed f
    let (state, length) : FifoState × UInt32 :=
      if length > fifoDataLength then (.dataNoEnough, fifoDataLength) else (.success, length)
    -- nothing to read, though something has been asked for
    if state = .dataNoEnough ∧ fifoDataLength = 0 then
      some (state, length, [], { f with execution := f.execution &&& ~~~fifoRead })
    else readBlock f length flag state

/-- `memcpy` from the buffer, the elements before the head. The index of the second part is an
unsigned difference. -/
def copyFromHead (f : FifoStruct α n) (length : UInt32) : Option (List α) := do
  if f.head > f.tail ∨ f.head ≥ length then
    Ring.get f.buffer (f.head - length).toNat length.toNat
  else
    let tempLength := length - f.head
    let first ← Ring.get f.buffer (f.max - tempLength).toNat tempLength.toNat
    let second ← Ring.get f.buffer (f.head - length).toNat (length - tempLength).toNat
    return first ++ second

/-- `FIFO_READ_AND_CLEAN` of a read from the other end: the whole FIFO is cleared. -/
def discard [Zero α] (f : FifoStruct α n) (flag : FifoOperation) (state : FifoState) :
    Option (FifoState × FifoStruct α n) :=
  match flag with
  | .readOnly => some (state, f)
  | .readAndClean =>
    if fifoReset ||| fifoClearing ||| fifoRead = f.execution then some (.clearUndo, f)
    else do
      let f ← fifoClear f
      return (state, f)

/-- `fifo_read_tail_buffer`, once the length has been corrected. -/
def readTailBlock [Zero α] (f : FifoStruct α n) (length : UInt32) (flag : FifoOperation)
    (state : FifoState) : Option (FifoState × UInt32 × List α × FifoStruct α n) := do
  let f := { f with execution := f.execution ||| fifoRead }
  let dat ← copyFromHead f length
  let f := { f with execution := f.execution &&& ~~~fifoRead }
  let (state, f) ← discard f flag state
  return (state, length, dat, f)

/-- `fifo_read_tail_buffer` -/
def fifoReadTailBuffer [Zero α] (f : FifoStruct α n) (dat : Pointer) (length : UInt32)
    (flag : FifoOperation) : Option (FifoState × UInt32 × List α × FifoStruct α n) :=
  if dat = .null then do
    let (state, f) ← discard f flag .bufferNull
    return (state, length, [], f)
  else if (fifoReset ||| fifoClearing ||| fifoWrite) &&& f.execution ≠ 0 then
    some (.readUndo, 0, [], f)
  else
    let fifoDataLength := fifoUsed f
    let (state, length) : FifoState × UInt32 :=
      if length > fifoDataLength then (.dataNoEnough, fifoDataLength) else (.success, length)
    if state = .dataNoEnough ∧ fifoDataLength = 0 then
      some (state, length, [], { f with execution := f.execution &&& ~~~fifoRead })
    else readTailBlock f length flag state

end Code

end SmartCar.Fifo

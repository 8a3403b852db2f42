import SmartCar.Fifo.Operations
import SmartCar.Lib.Queue
import SmartCar.Lib.Replies

/-!
# The FIFO is a bounded queue

What the operations of `zf_common_fifo` do to the buffer and its indices, they do to a `Queue`.

* `Row` says which elements stand in the buffer between the tail and the head;
* `Represents` adds that no operation is under way, and that `size` is what is left;
* `fifo_refines_queue`: every reply, in every run of operations, is the queue's. A read without a
  buffer drops elements that it has not counted, so it may ask for no more than there are
  (`size_fifoReadBuffer_null`).

Reading from the other end is not among the operations of a run: `tail_read_iff` says when
`fifo_read_tail_buffer` copies the newest elements, and when it leaves the buffer.
-/

namespace SmartCar.Fifo

open Replies

/-! ## Requests and replies -/

/-- A call of one of the operations. -/
inductive Request (α : Type*)
  | clear
  | used
  | writeElement (dat : α)
  | writeBuffer (dat : Option (List α))
  | readElement (dat : Pointer) (flag : FifoOperation)
  | readBuffer (dat : Pointer) (length : UInt32) (flag : FifoOperation)

/-- What a call returns, and what it stores through its pointers. -/
inductive Reply (α : Type*)
  | state (state : FifoState)
  | used (length : UInt32)
  | element (state : FifoState) (dat : List α)
  | buffer (state : FifoState) (length : UInt32) (dat : List α)

section

variable {α : Type*} {n : ℕ}

/-- A call on the FIFO. -/
def call [Zero α] (f : FifoStruct α n) : Request α → Option (Reply α × FifoStruct α n)
  | .clear => (fifoClear f).map fun f => (.state .success, f)
  | .used => some (.used (fifoUsed f), f)
  | .writeElement dat => (fifoWriteElement f dat).map fun (state, f) => (.state state, f)
  | .writeBuffer dat => (fifoWriteBuffer f dat).map fun (state, f) => (.state state, f)
  | .readElement dat flag =>
    (fifoReadElement f dat flag).map fun (state, dat, f) => (.element state dat, f)
  | .readBuffer dat length flag =>
    (fifoReadBuffer f dat length flag).map fun (state, length, dat, f) =>
      (.buffer state length dat, f)

/-- What has been read is dropped, if it is to be. -/
def leave (q : Queue α n) (flag : FifoOperation) (k : ℕ) : Queue α n :=
  match flag with
  | .readOnly => q
  | .readAndClean => q.drop k

/-- What a call means. -/
def meaning (q : Queue α n) : Request α → Reply α × Queue α n
  | .clear => (.state .success, .empty)
  | .used => (.used (.ofNat q.used), q)
  | .writeElement dat => (.state (if q.used < n then .success else .spaceNoEnough), q.push dat)
  | .writeBuffer none => (.state .bufferNull, q)
  | .writeBuffer (some dat) =>
    -- a block that does not fit is not written in part
    if q.used + dat.length ≤ n then (.state .success, dat.foldl Queue.push q)
    else (.state .spaceNoEnough, q)
  | .readElement .null flag => (.element .bufferNull [], leave q flag 1)
  | .readElement .given flag =>
    (.element (if 0 < q.used then .success else .dataNoEnough) (q.front 1), leave q flag 1)
  | .readBuffer .null length flag =>
    -- what is asked for is dropped unseen
    (.buffer .bufferNull length [], leave q flag length.toNat)
  | .readBuffer .given length flag =>
    let k := min length.toNat q.used
    (.buffer (if length.toNat ≤ q.used then .success else .dataNoEnough) (.ofNat k) (q.front k),
      leave q flag k)

/-- A block that is written has a `length` that fits in 32 bits, and no more is dropped unseen
than the queue holds. -/
def Request.Ok (q : Queue α n) : Request α → Prop
  | .writeBuffer (some dat) => dat.length < 2 ^ 32
  | .readElement .null .readAndClean => 0 < q.used
  | .readBuffer .null length .readAndClean => length.toNat ≤ q.used
  | _ => True

instance (q : Queue α n) : ∀ r : Request α, Decidable (r.Ok q)
  | .writeBuffer (some dat) => inferInstanceAs (Decidable (dat.length < 2 ^ 32))
  | .readElement .null .readAndClean => inferInstanceAs (Decidable (0 < q.used))
  | .readBuffer .null length .readAndClean => inferInstanceAs (Decidable (length.toNat ≤ q.used))
  | .clear | .used | .writeElement _ | .writeBuffer none | .readElement .null .readOnly
  | .readElement .given _ | .readBuffer .null _ .readOnly | .readBuffer .given _ _ =>
    inferInstanceAs (Decidable True)

/-! ## The indices -/

/-- A pointer is brought back into the ring. -/
theorem toNat_wrap (max : UInt32) (h : 0 < max) (p : UInt32) :
    (wrap max h p).toNat = p.toNat % max.toNat := by
  induction p using wrap.induct max h with
  | case1 p hp ih =>
    rw [wrap, if_pos hp, ih, UInt32.toNat_sub_of_le p max hp]
    exact (Nat.mod_eq_sub_mod (UInt32.le_iff_toNat_le.mp hp)).symm
  | case2 p hp =>
    rw [wrap, if_neg hp, Nat.mod_eq_of_lt]
    exact UInt32.lt_iff_toNat_lt.mp (UInt32.not_le.mp hp)

/-- What a write to the buffer leaves as it is. -/
def FifoStruct.rest (f : FifoStruct α n) : UInt8 × UInt32 × UInt32 × UInt32 :=
  (f.execution, f.tail, f.size, f.max)

variable [NeZero n]

/-- The elements `items` stand in the buffer from the tail on, up to the head. -/
structure Row (f : FifoStruct α n) (items : List α) : Prop where
  max : f.max.toNat = n
  tail : f.tail.toNat < n
  head : f.head.toNat = (f.tail.toNat + items.length) % n
  contents : Ring.window f.buffer f.tail.toNat items.length = items

/-- The FIFO is at rest and holds the elements of `q`. -/
structure Represents (f : FifoStruct α n) (q : Queue α n) : Prop where
  row : Row f q.items
  idle : f.execution = fifoIdle
  size : f.size.toNat + q.used = n

variable {f : FifoStruct α n} {q : Queue α n} {items block : List α}

/-- What lies in the ring depends on its bounds and its cells only. -/
theorem Row.congr {f' : FifoStruct α n} (h : Row f items) (hmax : f'.max = f.max)
    (htail : f'.tail = f.tail) (hhead : f'.head = f.head) (hbuffer : f'.buffer = f.buffer) :
    Row f' items := by
  refine ⟨?_, ?_, ?_, ?_⟩
  · rw [hmax]; exact h.max
  · rw [htail]; exact h.tail
  · rw [htail, hhead]; exact h.head
  · rw [htail, hbuffer]; exact h.contents

/-- The head points into the ring. -/
theorem Row.head_lt (h : Row f items) : f.head.toNat < n := by
  rw [h.head]
  exact Nat.mod_lt _ (Nat.pos_of_neZero n)

/-! ## Writing -/

/-- A block is copied behind the row, where it does not reach past the end. -/
theorem Row.copyToHead (h : Row f items) {length : UInt32} (hlength : length.toNat = block.length)
    (hroom : items.length + block.length ≤ n) (hend : f.head.toNat + block.length ≤ n) :
    ∃ f', copyToHead f block = some f' ∧ f'.rest = f.rest ∧ f'.head = f.head ∧
      Row (fifoHeadOffset f' length) (items ++ block) := by
  obtain ⟨buffer, hbuffer⟩ : ∃ buffer, Ring.put f.buffer f.head.toNat block = some buffer :=
    Ring.exists_put hend
  refine ⟨{ f with buffer := buffer }, ?_, rfl, rfl, h.max, h.tail, ?_, ?_⟩
  · simp only [Fifo.copyToHead, hbuffer]
    rfl
  · -- the sum fits: the head is at most moved to the end
    have hsum : (f.head + length).toNat = f.head.toNat + block.length := by
      have hlt := f.max.toNat_lt
      have hmax := h.max
      rw [UInt32.toNat_add, hlength, Nat.mod_eq_of_lt (by omega)]
    simp only [fifoHeadOffset, toNat_wrap, hsum, h.max, h.head, List.length_append]
    rw [Nat.mod_add_mod, Nat.add_assoc]
  · simp only [fifoHeadOffset, List.length_append]
    rw [Ring.window_put hbuffer h.head hroom, h.contents]

/-- A block that fits is put behind what lies there, in one piece or in two. -/
theorem Row.writeBlock (h : Row f items) {length : UInt32} (hlength : length.toNat = block.length)
    (hroom : items.length + block.length ≤ n) :
    ∃ f', writeBlock f block length = some f' ∧ f'.rest = f.rest ∧ Row f' (items ++ block) := by
  have hhead := h.head_lt
  have hle : f.head ≤ f.max := by
    rw [UInt32.le_iff_toNat_le, h.max]
    omega
  have htemp : (f.max - f.head).toNat = n - f.head.toNat := by
    rw [UInt32.toNat_sub_of_le _ _ hle, h.max]
  unfold Fifo.writeBlock
  by_cases hwrap : length > f.max - f.head
  · have hlong : n - f.head.toNat < block.length := by
      rw [← htemp, ← hlength]
      exact UInt32.lt_iff_toNat_lt.mp hwrap
    -- the first part ends where the buffer ends
    have htake : (f.max - f.head).toNat = (block.take (f.max - f.head).toNat).length := by
      rw [List.length_take, htemp]
      omega
    obtain ⟨f₁, hf₁, hrest₁, hhead₁, hrow₁⟩ := h.copyToHead htake
      (by rw [← htake, htemp]; omega) (by rw [← htake, htemp]; omega)
    have hzero : (fifoHeadOffset f₁ (f.max - f.head)).head.toNat = 0 := by
      have hmax₁ : f₁.max.toNat = n := hrow₁.max
      have hsum : (f.head + (f.max - f.head)).toNat = n := by
        have hlt := f.max.toNat_lt
        rw [UInt32.toNat_add, htemp, Nat.add_sub_cancel' hhead.le, Nat.mod_eq_of_lt]
        rw [← h.max]
        exact hlt
      simp only [fifoHeadOffset, toNat_wrap, hhead₁, hsum, hmax₁, Nat.mod_self]
    have hdrop : (length - (f.max - f.head)).toNat =
        (block.drop (f.max - f.head).toNat).length := by
      rw [UInt32.toNat_sub_of_le _ _ (UInt32.le_of_lt hwrap), hlength, List.length_drop]
    obtain ⟨f₂, hf₂, hrest₂, -, hrow₂⟩ := hrow₁.copyToHead hdrop
      (by rw [List.length_append, ← htake, List.length_drop]; omega)
      (by rw [hzero, List.length_drop]; omega)
    rw [List.append_assoc, List.take_append_drop] at hrow₂
    refine ⟨fifoHeadOffset f₂ _, ?_, hrest₂.trans hrest₁, hrow₂⟩
    rw [if_pos hwrap, hf₁]
    simp only [Option.bind_eq_bind, Option.bind_some, hf₂]
    rfl
  · have hshort : block.length ≤ n - f.head.toNat := by
      rw [← htemp, ← hlength]
      exact UInt32.le_iff_toNat_le.mp (UInt32.not_lt.mp hwrap)
    obtain ⟨f₁, hf₁, hrest₁, -, hrow₁⟩ := h.copyToHead hlength hroom (by omega)
    refine ⟨fifoHeadOffset f₁ _, ?_, hrest₁, hrow₁⟩
    rw [if_neg hwrap, hf₁]
    rfl

/-! ## The flags -/

/-- A queue that is at rest takes a write, -/
theorem idle_write : ¬ ((fifoReset ||| fifoWrite) &&& fifoIdle ≠ 0) := by decide

/-- a read, -/
theorem idle_read : ¬ ((fifoReset ||| fifoClearing) &&& fifoIdle ≠ 0) := by decide

/-- and a read from the tail. -/
theorem idle_read_tail : ¬ ((fifoReset ||| fifoClearing ||| fifoWrite) &&& fifoIdle ≠ 0) := by
  decide

theorem not_busy : ¬ fifoReset ||| fifoClearing ||| fifoRead = fifoIdle := by decide

/-- Each call takes back the mark that it has set. -/
theorem write_done : (fifoIdle ||| fifoWrite) &&& ~~~fifoWrite = fifoIdle := by decide

theorem read_done : (fifoIdle ||| fifoRead) &&& ~~~fifoRead = fifoIdle := by decide

/-- Taking back the mark of a read that is not set does nothing. -/
theorem read_undone : fifoIdle &&& ~~~fifoRead = fifoIdle := by decide

theorem clear_done : (fifoIdle ||| fifoClearing) &&& ~~~fifoClearing = fifoIdle := by decide

/-! ## One operation -/

/-- `fifo_used` counts what lies in the queue. -/
theorem Represents.toNat_fifoUsed (h : Represents f q) : (fifoUsed f).toNat = q.used := by
  have hsize := h.size
  have hmax := h.row.max
  rw [fifoUsed, UInt32.toNat_sub_of_le _ _ (UInt32.le_iff_toNat_le.mpr (by omega))]
  omega

/-- The count as a `uint32`. -/
theorem Represents.fifoUsed_eq (h : Represents f q) : fifoUsed f = .ofNat q.used := by
  rw [← h.toNat_fifoUsed, UInt32.ofNat_toNat]

/-- A queue that is set up is empty. -/
theorem represents_fifoInit (buffer : Vector α n) {size : UInt32} (h : 0 < size)
    (hsize : size.toNat = n) : Represents (fifoInit buffer size h) .empty := by
  refine ⟨⟨hsize, ?_, ?_, rfl⟩, rfl, hsize⟩
  · exact Nat.pos_of_neZero n
  · simp [fifoInit]

/-- A queue that is cleared is empty. -/
theorem represents_fifoClear [Zero α] (h : Represents f q) :
    ∃ f', fifoClear f = some f' ∧ Represents f' .empty := by
  have hmax := h.row.max
  have hend : 0 + (List.replicate f.max.toNat (0 : α)).length ≤ n := by
    rw [List.length_replicate]
    omega
  obtain ⟨buffer, hbuffer⟩ :
      ∃ buffer, Ring.put f.buffer 0 (List.replicate f.max.toNat 0) = some buffer :=
    Ring.exists_put hend
  refine ⟨{ f with
    execution := fifoIdle, head := 0, tail := 0, size := f.max, buffer := buffer }, ?_,
    ⟨⟨hmax, ?_, ?_, rfl⟩, rfl, hmax⟩⟩
  · simp only [fifoClear, hbuffer]
    rfl
  · exact Nat.pos_of_neZero n
  · simp

/-- The queue once a block has been written behind the row. -/
theorem Represents.written (h : Represents f q) {f' : FifoStruct α n} {length : UInt32}
    (hrest : f'.rest = { f with execution := f.execution ||| fifoWrite }.rest)
    (hrow : Row f' (q.items ++ block)) (hlength : length.toNat = block.length)
    (hroom : q.used + block.length ≤ n) :
    Represents { f' with
      size := f'.size - length, execution := f'.execution &&& ~~~fifoWrite }
      (block.foldl Queue.push q) := by
  simp only [FifoStruct.rest, Prod.mk.injEq] at hrest
  obtain ⟨hexecution, -, hsize', -⟩ := hrest
  have hsize := h.size
  refine ⟨?_, ?_, ?_⟩
  · rw [Queue.items_foldl_push hroom]
    exact hrow.congr rfl rfl rfl rfl
  · simp only [hexecution, h.idle, write_done]
  · have hle : length ≤ f.size := UInt32.le_iff_toNat_le.mpr (by omega)
    simp only [hsize', UInt32.toNat_sub_of_le _ _ hle, Queue.used_foldl_push]
    omega

/-- An operation that is over has left the elements as they are. -/
theorem Represents.untouched (h : Represents f q) :
    Represents { f with execution := fifoIdle } q :=
  ⟨h.row.congr rfl rfl rfl rfl, rfl, h.size⟩

/-- An element is put in while there is room. -/
theorem represents_fifoWriteElement (h : Represents f q) (dat : α) :
    ∃ f', fifoWriteElement f dat =
        some (if q.used < n then .success else .spaceNoEnough, f') ∧
      Represents f' (q.push dat) := by
  have hsize := h.size
  have hbusy : Row { f with execution := fifoIdle ||| fifoWrite } q.items :=
    h.row.congr rfl rfl rfl rfl
  unfold fifoWriteElement
  simp only [h.idle, idle_write, if_false]
  by_cases hroom : q.used < n
  · have hone : (1 : UInt32) ≤ f.size := UInt32.le_iff_toNat_le.mpr (by
      rw [UInt32.toNat_one]
      omega)
    have hlength : (1 : UInt32).toNat = [dat].length := rfl
    obtain ⟨f', hf', hrest, -, hrow⟩ := hbusy.copyToHead hlength hroom hbusy.head_lt
    rw [← h.idle] at hrest
    have hmoved : (fifoHeadOffset f' 1).rest = _ := hrest
    refine ⟨_, ?_, h.written hmoved hrow hlength hroom⟩
    rw [if_pos hone, if_pos hroom, hf']
    rfl
  · have hfull : ¬ (1 : UInt32) ≤ f.size := by
      rw [UInt32.le_iff_toNat_le, UInt32.toNat_one]
      omega
    rw [Queue.push_of_full hroom]
    refine ⟨_, ?_, h.untouched⟩
    rw [if_neg hfull, if_neg hroom, write_done]
    rfl

/-- A block is put in if there is room for all of it. -/
theorem represents_fifoWriteBuffer (h : Represents f q) {dat : List α}
    (hdat : dat.length < 2 ^ 32) :
    ∃ f', fifoWriteBuffer f (some dat) =
        some (if q.used + dat.length ≤ n then .success else .spaceNoEnough, f') ∧
      Represents f' (if q.used + dat.length ≤ n then dat.foldl Queue.push q else q) := by
  have hsize := h.size
  have hlength : (UInt32.ofNat dat.length).toNat = dat.length :=
    UInt32.toNat_ofNat_of_lt' hdat
  have hbusy : Row { f with execution := fifoIdle ||| fifoWrite } q.items :=
    h.row.congr rfl rfl rfl rfl
  simp only [fifoWriteBuffer, h.idle, idle_write, if_false]
  by_cases hroom : q.used + dat.length ≤ n
  · have hle : UInt32.ofNat dat.length ≤ f.size := UInt32.le_iff_toNat_le.mpr (by omega)
    obtain ⟨f', hf', hrest, hrow⟩ := hbusy.writeBlock hlength hroom
    rw [← h.idle] at hrest
    rw [if_pos hle, if_pos hroom, if_pos hroom, hf']
    exact ⟨_, rfl, h.written hrest hrow hlength hroom⟩
  · have hfull : ¬ UInt32.ofNat dat.length ≤ f.size := by
      rw [UInt32.le_iff_toNat_le]
      omega
    rw [if_neg hfull, if_neg hroom, if_neg hroom, write_done]
    exact ⟨_, rfl, h.untouched⟩

/-- A single element is written, or there is no room for it. -/
theorem represents_fifoWriteBuffer_singleton (h : Represents f q) (dat : α) :
    ∃ state f', fifoWriteBuffer f (some [dat]) = some (state, f') ∧ Represents f' (q.push dat) := by
  have hdat : [dat].length < 2 ^ 32 := by simp
  obtain ⟨f', hf', hrep⟩ := represents_fifoWriteBuffer h hdat
  refine ⟨_, f', hf', ?_⟩
  by_cases hroom : q.used < n
  · rw [if_pos (by exact hroom)] at hrep
    exact hrep
  · rw [if_neg (by exact hroom)] at hrep
    rw [Queue.push_of_full hroom]
    exact hrep

/-! ## Reading -/

/-- A block is copied from the front of the queue, in one piece or in two. -/
theorem Row.copyFromTail (h : Row f items) {length : UInt32} (hlength : length.toNat ≤ items.length)
    (hitems : items.length ≤ n) : copyFromTail f length = some (items.take length.toNat) := by
  have htail := h.tail
  have htemp : (f.max - f.tail).toNat = n - f.tail.toNat := by
    rw [UInt32.toNat_sub_of_le, h.max]
    rw [UInt32.le_iff_toNat_le, h.max]
    omega
  have hwindow : items.take length.toNat = Ring.window f.buffer f.tail.toNat length.toNat := by
    rw [← Ring.window_take f.buffer f.tail.toNat hlength, h.contents]
  rw [hwindow, Fifo.copyFromTail]
  by_cases hshort : length ≤ f.max - f.tail
  · have hle := UInt32.le_iff_toNat_le.mp hshort
    simp only [hshort, if_true]
    exact Ring.get_eq_window (by omega) f.buffer
  · -- the second part starts with the first cell
    have hlt := UInt32.lt_iff_toNat_lt.mp (UInt32.not_le.mp hshort)
    have hsecond : (length - (f.max - f.tail)).toNat = length.toNat - (n - f.tail.toNat) := by
      rw [UInt32.toNat_sub_of_le _ _ (UInt32.le_of_lt (UInt32.not_le.mp hshort)), htemp]
    have hparts : length.toNat =
        (n - f.tail.toNat) + (length.toNat - (n - f.tail.toNat)) := by omega
    simp only [hshort, if_false, htemp, hsecond]
    rw [Ring.get_eq_window (by omega), Ring.get_eq_window (by omega)]
    simp only [Option.bind_eq_bind, Option.bind_some]
    rw [hparts, Ring.window_add, ← hparts, Nat.add_sub_cancel' htail.le,
      ← Ring.window_mod f.buffer n, Nat.mod_self]
    rfl

omit [NeZero n] in
/-- What a read that cleans does after it has copied. -/
theorem release_readAndClean (h : f.execution = fifoIdle) (state : FifoState) (length : UInt32) :
    release f .readAndClean state length =
      (state, { fifoEndOffset f length with size := f.size + length, execution := fifoIdle }) := by
  simp only [release, h, if_neg not_busy, fifoEndOffset, clear_done]

omit [NeZero n] in
/-- From an empty queue nothing is taken. -/
theorem leave_of_empty (h : q.used = 0) (flag : FifoOperation) (k : ℕ) : leave q flag k = q := by
  have hitems : q.items = [] := List.length_eq_zero_iff.mp h
  cases flag with
  | readOnly => rfl
  | readAndClean =>
    cases q
    simp_all [leave, Queue.drop]

/-- Elements that have been read make room. -/
theorem represents_release (h : Represents f q) (hn : 2 * n ≤ 2 ^ 32) (flag : FifoOperation)
    (state : FifoState) {length : UInt32} (hlength : length.toNat ≤ q.used) :
    ∃ f', release f flag state length = (state, f') ∧
      Represents f' (leave q flag length.toNat) := by
  cases flag with
  | readOnly => exact ⟨f, rfl, h⟩
  | readAndClean =>
    have hsize := h.size
    have hmax := h.row.max
    have htail := h.row.tail
    have hused : q.items.length = q.used := rfl
    have hsum : (f.tail + length).toNat = f.tail.toNat + length.toNat := by
      rw [UInt32.toNat_add, Nat.mod_eq_of_lt (by omega)]
    have hfit : (f.size + length).toNat = f.size.toNat + length.toNat := by
      rw [UInt32.toNat_add, Nat.mod_eq_of_lt (by omega)]
    refine ⟨_, release_readAndClean h.idle state length, ⟨⟨hmax, ?_, ?_, ?_⟩, rfl, ?_⟩⟩
    · simp only [fifoEndOffset, toNat_wrap, hmax]
      exact Nat.mod_lt _ (Nat.pos_of_neZero n)
    · -- the head stays where it is
      simp only [fifoEndOffset, toNat_wrap, hmax, hsum, h.row.head, leave, Queue.items_drop,
        List.length_drop, Nat.mod_add_mod]
      congr 1
      omega
    · simp only [fifoEndOffset, toNat_wrap, hmax, hsum, leave, Queue.items_drop, List.length_drop]
      rw [Ring.window_mod, ← Ring.window_drop _ _ (by omega), h.row.contents]
    · simp only [hfit, leave, Queue.used_drop]
      omega

/-- An element is read from the front, if there is one. -/
theorem represents_fifoReadElement (h : Represents f q) (hn : 2 * n ≤ 2 ^ 32)
    (flag : FifoOperation) :
    ∃ f', fifoReadElement f .given flag =
        some (if 0 < q.used then .success else .dataNoEnough, q.front 1, f') ∧
      Represents f' (leave q flag 1) := by
  have hused := h.toNat_fifoUsed
  simp only [fifoReadElement, reduceCtorEq, h.idle, idle_read, if_false]
  by_cases hempty : 0 < q.used
  · have hone : ¬ (1 : UInt32) > fifoUsed f := by
      rw [gt_iff_lt, UInt32.lt_iff_toNat_lt, hused, UInt32.toNat_one]
      omega
    have hget : Ring.get f.buffer f.tail.toNat 1 = some (q.front 1) := by
      rw [Ring.get_eq_window h.row.tail, ← Ring.window_take f.buffer f.tail.toNat hempty]
      exact congrArg some (congrArg (List.take 1) h.row.contents)
    have hlength : (1 : UInt32).toNat ≤ q.used := hempty
    obtain ⟨f', hf', hrep⟩ := represents_release h.untouched hn flag .success hlength
    refine ⟨f', ?_, hrep⟩
    rw [if_neg hone, if_pos hempty, hget]
    simp only [Option.bind_eq_bind, Option.bind_some, read_done, hf']
    rfl
  · -- nothing is stored, and nothing is dropped
    have hzero : q.used = 0 := by omega
    have hone : (1 : UInt32) > fifoUsed f := by
      rw [gt_iff_lt, UInt32.lt_iff_toNat_lt, hused, UInt32.toNat_one]
      omega
    have hitems : q.items = [] := List.length_eq_zero_iff.mp hzero
    have hsame : leave q flag 1 = q := leave_of_empty hzero flag 1
    refine ⟨f, ?_, by rw [hsame]; exact h⟩
    rw [if_pos hone, if_neg hempty, Queue.front, hitems]
    rfl

/-- A block is read from the front, and taken out if the read cleans. -/
theorem represents_readBlock (h : Represents f q) (hn : 2 * n ≤ 2 ^ 32) {length : UInt32}
    (hlength : length.toNat ≤ q.used) (flag : FifoOperation) (state : FifoState) :
    ∃ f', readBlock f length flag state = some (state, length, q.front length.toNat, f') ∧
      Represents f' (leave q flag length.toNat) := by
  have hcopy : copyFromTail { f with execution := fifoIdle ||| fifoRead } length =
      some (q.front length.toNat) :=
    Row.copyFromTail (h.row.congr rfl rfl rfl rfl) hlength q.le_cap
  obtain ⟨f', hf', hrep⟩ := represents_release h.untouched hn flag state hlength
  refine ⟨f', ?_, hrep⟩
  simp only [readBlock, h.idle, hcopy]
  simp only [Option.bind_eq_bind, Option.bind_some, read_done, hf']
  rfl

/-- As much is read as asked for and there is. -/
theorem represents_fifoReadBuffer (h : Represents f q) (hn : 2 * n ≤ 2 ^ 32) (length : UInt32)
    (flag : FifoOperation) :
    let k := min length.toNat q.used
    ∃ f', fifoReadBuffer f .given length flag =
        some (if length.toNat ≤ q.used then .success else .dataNoEnough, .ofNat k, q.front k,
          f') ∧
      Represents f' (leave q flag k) := by
  intro k
  have hused := h.toNat_fifoUsed
  have hlong : length > fifoUsed f ↔ ¬ length.toNat ≤ q.used := by
    rw [gt_iff_lt, UInt32.lt_iff_toNat_lt, hused]
    omega
  simp only [fifoReadBuffer, reduceCtorEq, h.idle, idle_read, if_false, hlong]
  by_cases hfits : length.toNat ≤ q.used
  · have hk : k = length.toNat := by omega
    have hread : ¬ (FifoState.success = .dataNoEnough ∧ fifoUsed f = 0) := by simp
    obtain ⟨f', hf', hrep⟩ := represents_readBlock h hn hfits flag .success
    refine ⟨f', ?_, by rw [hk]; exact hrep⟩
    simp only [hfits, not_true_eq_false, if_false, if_true, hread, hf', hk, UInt32.ofNat_toNat]
  · have hk : k = q.used := by omega
    simp only [hfits, not_false_eq_true, if_true, if_false, true_and, hk, ← h.fifoUsed_eq]
    by_cases hempty : fifoUsed f = 0
    · -- the early exit: there is nothing to copy
      have hzero : q.used = 0 := by
        rw [← hused, hempty]
        rfl
      have hsame : leave q flag q.used = q := leave_of_empty hzero flag q.used
      refine ⟨_, ?_, by rw [hsame]; exact h.untouched⟩
      rw [if_pos hempty, read_undone, hzero]
      rfl
    · obtain ⟨f', hf', hrep⟩ := represents_readBlock h hn hused.le flag .dataNoEnough
      rw [hused] at hf' hrep
      exact ⟨f', by rw [if_neg hempty, hf'], hrep⟩

/-! ### Reads without a buffer -/

theorem represents_release_null (h : Represents f q) (hn : 2 * n ≤ 2 ^ 32) (flag : FifoOperation)
    (length : UInt32) (hok : flag = .readAndClean → length.toNat ≤ q.used) :
    ∃ f', release f flag .bufferNull length = (.bufferNull, f') ∧
      Represents f' (leave q flag length.toNat) := by
  cases flag with
  | readOnly => exact ⟨f, rfl, h⟩
  | readAndClean => exact represents_release h hn .readAndClean .bufferNull (hok rfl)

omit [NeZero n] in
/-- What is dropped unseen makes room, whether it was there or not: `size` is not held against
`max`. -/
theorem size_fifoReadBuffer_null (h : f.execution = fifoIdle) (length : UInt32) :
    ∃ f', fifoReadBuffer f .null length .readAndClean = some (.bufferNull, length, [], f') ∧
      f'.size = f.size + length ∧ f'.max = f.max := by
  refine ⟨{ fifoEndOffset f length with size := f.size + length, execution := fifoIdle }, ?_,
    rfl, rfl⟩
  rw [fifoReadBuffer, if_pos rfl, release_readAndClean h]

/-- Of an empty FIFO of 64 elements, five are dropped: there seems to be room for 69. -/
example : (fifoReadBuffer (fifoInit (Vector.replicate 64 (0 : UInt8)) 64 (by decide)) .null 5
    .readAndClean).map (fun (_, _, _, f) => (f.size, f.max)) = some (69, 64) := by decide

/-! ## Runs -/

theorem represents_call [Zero α] (hn : 2 * n ≤ 2 ^ 32) (f : FifoStruct α n) (q : Queue α n)
    (r : Request α) (h : Represents f q) (hr : r.Ok q) :
    ∃ f', call f r = some ((meaning q r).1, f') ∧ Represents f' (meaning q r).2 := by
  cases r with
  | clear =>
    obtain ⟨f', hf', hrep⟩ := represents_fifoClear h
    exact ⟨f', by simp only [call, hf', Option.map_some]; rfl, hrep⟩
  | used =>
    refine ⟨f, ?_, h⟩
    simp only [call, h.fifoUsed_eq]
    rfl
  | writeElement dat =>
    obtain ⟨f', hf', hrep⟩ := represents_fifoWriteElement h dat
    exact ⟨f', by simp only [call, hf', Option.map_some]; rfl, hrep⟩
  | writeBuffer dat =>
    cases dat with
    | none => exact ⟨f, rfl, h⟩
    | some dat =>
      obtain ⟨f', hf', hrep⟩ := represents_fifoWriteBuffer h hr
      refine ⟨f', ?_, ?_⟩
      · simp only [call, hf', Option.map_some, meaning]
        split_ifs <;> rfl
      · simp only [meaning]
        split_ifs at hrep ⊢ <;> exact hrep
  | readElement dat flag =>
    cases dat with
    | null =>
      obtain ⟨f', hf', hrep⟩ := represents_release_null h hn flag 1
        (by rintro rfl; exact hr)
      refine ⟨f', ?_, hrep⟩
      simp only [call, fifoReadElement, if_true, hf']
      rfl
    | given =>
      obtain ⟨f', hf', hrep⟩ := represents_fifoReadElement h hn flag
      exact ⟨f', by simp only [call, hf', Option.map_some]; rfl, hrep⟩
  | readBuffer dat length flag =>
    cases dat with
    | null =>
      obtain ⟨f', hf', hrep⟩ := represents_release_null h hn flag length
        (by rintro rfl; exact hr)
      refine ⟨f', ?_, hrep⟩
      simp only [call, fifoReadBuffer, if_true, hf']
      rfl
    | given =>
      obtain ⟨f', hf', hrep⟩ := represents_fifoReadBuffer h hn length flag
      exact ⟨f', by simp only [call, hf', Option.map_some]; rfl, hrep⟩

end

/-- In every run of operations after `fifo_init` no copy leaves the buffer, and every state,
length and element that is delivered is what a queue of that size delivers, if no more is ever
dropped unseen than it holds. -/
theorem fifo_refines_queue {α : Type*} [Zero α] {n : ℕ} [NeZero n] (hn : 2 * n ≤ 2 ^ 32)
    (buffer : Vector α n) (size : UInt32) (hpos : 0 < size) (hsize : size.toNat = n)
    (rs : List (Request α))
    (hrs : Permitted meaning Request.Ok (Queue.empty : Queue α n) rs) :
    ∃ f, serve call (fifoInit buffer size hpos) rs =
        some ((answer meaning (Queue.empty : Queue α n) rs).1, f) ∧
      Represents f (answer meaning Queue.empty rs).2 :=
  serve_of_simulation Represents Request.Ok (represents_call hn) rs _ _
    (represents_fifoInit buffer hpos hsize) hrs

/-- Three elements are written and two read, the third is dropped unseen, and then four are
written, in a buffer of four. -/
def roundTheEnd : List (Request UInt8) :=
  [.writeBuffer (some [1, 2, 3]), .readBuffer .given 2 .readAndClean,
    .readElement .null .readAndClean, .readBuffer .given 5 .readAndClean,
    .writeBuffer (some [4, 5, 6, 7]), .writeBuffer none, .used, .readElement .given .readOnly]

theorem fifo_refines_queue_roundTheEnd :
    ∃ f, serve call (fifoInit (Vector.replicate 4 (0 : UInt8)) 4 (by decide)) roundTheEnd =
        some ((answer meaning (Queue.empty : Queue UInt8 4) roundTheEnd).1, f) ∧
      Represents f (answer meaning Queue.empty roundTheEnd).2 :=
  fifo_refines_queue (n := 4) (by decide) _ 4 (by decide) rfl roundTheEnd (by decide)

/-! ## Reading from the other end -/

section

variable {α : Type*} {n : ℕ} [NeZero n] {f : FifoStruct α n} {q : Queue α n}

/-- The newest elements, in the cells before the head. -/
theorem Represents.newest (h : Represents f q) {k p : ℕ} (hk : k ≤ q.used)
    (hp : (p + k) % n = f.head.toNat) : q.items.drop (q.used - k) = Ring.window f.buffer p k := by
  have hused : q.items.length = q.used := rfl
  have hdrop := Ring.window_drop f.buffer f.tail.toNat (j := q.used - k) (k := q.used) (by omega)
  have hcontents := h.row.contents
  rw [hused] at hcontents
  rw [hcontents, Nat.sub_sub_self hk] at hdrop
  -- the two windows end at the head
  have hend : f.tail.toNat + (q.used - k) + k ≡ p + k [MOD n] := by
    rw [Nat.add_assoc, Nat.sub_add_cancel hk]
    exact h.row.head.symm.trans hp.symm
  rw [hdrop, ← Ring.window_mod, Nat.ModEq.add_right_cancel' k hend, Ring.window_mod]

/-- A queue that does not wrap round lies below its head. -/
theorem Represents.used_le_head (h : Represents f q) (hhead : f.head > f.tail) :
    q.used ≤ f.head.toNat := by
  have hlt := UInt32.lt_iff_toNat_lt.mp hhead
  have htail := h.row.tail
  have hsize := h.size
  have hused : q.items.length = q.used := rfl
  have hmod := h.row.head
  rw [hused] at hmod
  by_contra hlong
  -- a row that goes round the end has the head before the tail, or on it
  have hround : f.head.toNat = f.tail.toNat + q.used - n := by
    rw [hmod, Nat.mod_eq_sub_mod (by
      by_contra hshort
      rw [Nat.mod_eq_of_lt (by omega)] at hmod
      omega), Nat.mod_eq_of_lt (by omega)]
  omega

/-- A block is copied from the back of the queue, unless it lies on both sides of the end. -/
theorem Represents.copyFromHead (h : Represents f q) (hn : 2 * n ≤ 2 ^ 32) {length : UInt32}
    (hlength : length.toNat ≤ q.used) :
    copyFromHead f length =
      if 0 < f.head.toNat ∧ f.head.toNat < length.toNat then none
      else some (q.items.drop (q.used - length.toNat)) := by
  have hlt := h.row.head_lt
  have hsize := h.size
  have hmax := h.row.max
  unfold Fifo.copyFromHead
  by_cases hle : length ≤ f.head
  · have hle' := UInt32.le_iff_toNat_le.mp hle
    rw [if_pos (.inr hle), UInt32.toNat_sub_of_le _ _ hle, Ring.get_eq_window (by omega),
      if_neg (by omega), h.newest hlength]
    rw [Nat.sub_add_cancel hle', Nat.mod_eq_of_lt hlt]
  · have hlong : f.head.toNat < length.toNat :=
      UInt32.lt_iff_toNat_lt.mp (UInt32.not_le.mp hle)
    have hbehind : ¬ (f.head > f.tail ∨ f.head ≥ length) := by
      rintro (hhead | hhead)
      · have hused := h.used_le_head hhead
        omega
      · exact hle hhead
    have htemp : (length - f.head).toNat = length.toNat - f.head.toNat :=
      UInt32.toNat_sub_of_le _ _ (UInt32.le_of_lt (UInt32.not_le.mp hle))
    have hfirst : (f.max - (length - f.head)).toNat = n - (length.toNat - f.head.toNat) := by
      rw [UInt32.toNat_sub_of_le, hmax, htemp]
      rw [UInt32.le_iff_toNat_le, htemp]
      omega
    have hsecond : (length - (length - f.head)).toNat = f.head.toNat := by
      rw [UInt32.toNat_sub_of_le, htemp]
      · omega
      · rw [UInt32.le_iff_toNat_le, htemp]
        omega
    rw [if_neg hbehind]
    simp only [htemp, hfirst, hsecond]
    rw [Ring.get_eq_window (by omega)]
    by_cases hzero : f.head.toNat = 0
    · rw [hzero, Ring.get_zero, if_neg (by omega), Nat.sub_zero,
        h.newest hlength (p := n - length.toNat)]
      · simp
      · rw [Nat.sub_add_cancel (by omega), Nat.mod_self, hzero]
    · -- the index of the second part has wrapped, to somewhere past the buffer
      have hindex : (f.head - length).toNat = 2 ^ 32 + f.head.toNat - length.toNat := by
        rw [UInt32.toNat_sub]
        omega
      rw [hindex, Ring.get_eq_none (by omega) (by omega), if_pos (by omega)]
      rfl

/-- What is left after a read from the other end. -/
def leaveTail (q : Queue α n) (flag : FifoOperation) : Queue α n :=
  match flag with
  | .readOnly => q
  | .readAndClean => .empty

/-- A reply with the newest elements, in their order. -/
def DeliversNewest [Zero α] (f : FifoStruct α n) (q : Queue α n) (length : UInt32)
    (flag : FifoOperation) : Prop :=
  let k := min length.toNat q.used
  ∃ f', fifoReadTailBuffer f .given length flag =
      some (if length.toNat ≤ q.used then .success else .dataNoEnough, .ofNat k,
        q.items.drop (q.used - k), f') ∧
    Represents f' (leaveTail q flag)

/-- The elements that are asked for lie on both sides of the end of the buffer. -/
def BothSides (f : FifoStruct α n) (q : Queue α n) (length : UInt32) : Prop :=
  0 < f.head.toNat ∧ f.head.toNat < min length.toNat q.used

/-- A read from the other end that cleans clears the whole queue. -/
theorem represents_discard [Zero α] (h : Represents f q) (flag : FifoOperation)
    (state : FifoState) :
    ∃ f', discard f flag state = some (state, f') ∧ Represents f' (leaveTail q flag) := by
  cases flag with
  | readOnly => exact ⟨f, rfl, h⟩
  | readAndClean =>
    obtain ⟨f', hf', hrep⟩ := represents_fifoClear h
    refine ⟨f', ?_, hrep⟩
    simp only [discard, h.idle, if_neg not_busy, hf']
    rfl

/-- Without a buffer nothing is read; what is left is the same. -/
theorem represents_fifoReadTailBuffer_null [Zero α] (h : Represents f q) (length : UInt32)
    (flag : FifoOperation) :
    ∃ f', fifoReadTailBuffer f .null length flag = some (.bufferNull, length, [], f') ∧
      Represents f' (leaveTail q flag) := by
  obtain ⟨f', hf', hrep⟩ := represents_discard h flag .bufferNull
  refine ⟨f', ?_, hrep⟩
  rw [fifoReadTailBuffer, if_pos rfl, hf']
  rfl

/-- A block that lies in one piece is read from the back; of one that does not, the copy fails. -/
theorem represents_readTailBlock [Zero α] (h : Represents f q) (hn : 2 * n ≤ 2 ^ 32)
    {length : UInt32} (hlength : length.toNat ≤ q.used) (flag : FifoOperation)
    (state : FifoState) :
    if 0 < f.head.toNat ∧ f.head.toNat < length.toNat then
      readTailBlock f length flag state = none
    else
      ∃ f', readTailBlock f length flag state =
          some (state, length, q.items.drop (q.used - length.toNat), f') ∧
        Represents f' (leaveTail q flag) := by
  have hcopy : copyFromHead { f with execution := fifoIdle ||| fifoRead } length = _ :=
    h.copyFromHead hn hlength
  simp only [readTailBlock, h.idle, hcopy, read_done]
  by_cases hround : 0 < f.head.toNat ∧ f.head.toNat < length.toNat
  · rw [if_pos hround, if_pos hround]
    rfl
  · rw [if_neg hround, if_neg hround]
    obtain ⟨f', hf', hrep⟩ := represents_discard h.untouched flag state
    refine ⟨f', ?_, hrep⟩
    simp only [Option.bind_eq_bind, Option.bind_some, hf']
    rfl

end

/-- `fifo_read_tail_buffer` delivers the newest elements if and only if they do not lie on both
sides of the end of the buffer. Where they do, it copies from outside the buffer. -/
theorem tail_read_iff {α : Type*} [Zero α] {n : ℕ} [NeZero n] (hn : 2 * n ≤ 2 ^ 32)
    (f : FifoStruct α n) (q : Queue α n) (h : Represents f q) (length : UInt32)
    (flag : FifoOperation) :
    (DeliversNewest f q length flag ↔ ¬ BothSides f q length) ∧
      (BothSides f q length → fifoReadTailBuffer f .given length flag = none) := by
  have hused := h.toNat_fifoUsed
  have hlong : length > fifoUsed f ↔ ¬ length.toNat ≤ q.used := by
    rw [gt_iff_lt, UInt32.lt_iff_toNat_lt, hused]
    omega
  simp only [DeliversNewest, BothSides, fifoReadTailBuffer, reduceCtorEq, h.idle, idle_read_tail,
    if_false, hlong]
  by_cases hfits : length.toNat ≤ q.used
  · have hread : ¬ (FifoState.success = .dataNoEnough ∧ fifoUsed f = 0) := by simp
    have hblock := represents_readTailBlock h hn hfits flag .success
    simp only [hfits, not_true_eq_false, if_false, if_true, hread, min_eq_left hfits,
      UInt32.ofNat_toNat]
    split_ifs at hblock with hround
    · simp [hblock, hround]
    · exact ⟨iff_of_true hblock hround, fun hboth => absurd hboth hround⟩
  · have hle : q.used ≤ length.toNat := by omega
    simp only [hfits, not_false_eq_true, if_true, if_false, true_and, min_eq_right hle,
      ← h.fifoUsed_eq]
    by_cases hempty : fifoUsed f = 0
    · -- the early exit: nothing is copied, and nothing lies anywhere
      have hzero : q.used = 0 := by
        rw [← hused, hempty]
        rfl
      have hitems : q.items = [] := List.length_eq_zero_iff.mp hzero
      have hsame : leaveTail q flag = q := by
        cases flag with
        | readOnly => rfl
        | readAndClean =>
          cases q
          simp_all [leaveTail, Queue.empty]
      rw [if_pos hempty, read_undone, hsame]
      refine ⟨iff_of_true ⟨_, ?_, h.untouched⟩ (by omega), fun hboth => by omega⟩
      rw [hitems, List.drop_nil]
    · have hblock := represents_readTailBlock h hn hused.le flag .dataNoEnough
      rw [hused] at hblock
      rw [if_neg hempty]
      split_ifs at hblock with hround
      · simp [hblock, hround]
      · exact ⟨iff_of_true hblock hround, fun hboth => absurd hboth hround⟩

/-- A buffer of two, full, with its older element in the last cell. -/
def roundTheEndOfTwo : FifoStruct UInt8 2 := ⟨fifoIdle, #v[2, 1], 1, 1, 0, 2, by decide⟩

/-- The queue holds 1 and 2, on both sides of the end of the ring. -/
theorem represents_roundTheEndOfTwo : Represents roundTheEndOfTwo ⟨[1, 2], by decide⟩ :=
  ⟨⟨rfl, by decide, by decide, by decide⟩, rfl, by decide⟩

/-- Both elements are asked for. -/
theorem tail_read_iff_bothSides :
    (DeliversNewest roundTheEndOfTwo ⟨[1, 2], by decide⟩ 2 .readOnly ↔
        ¬ BothSides roundTheEndOfTwo ⟨[1, 2], by decide⟩ 2) ∧
      (BothSides roundTheEndOfTwo ⟨[1, 2], by decide⟩ 2 →
        fifoReadTailBuffer roundTheEndOfTwo .given 2 .readOnly = none) :=
  tail_read_iff (by decide) _ _ represents_roundTheEndOfTwo 2 .readOnly

end SmartCar.Fifo

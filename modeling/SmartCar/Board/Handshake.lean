import SmartCar.Board.TwoBoards
import SmartCar.Mcx.InitWait
import SmartCar.Mcx.WakeCall

/-!
# The wake-up handshake of the two boards

`mcx_init_wait` on the RT1064 sends a wake byte every 10 ms; `rt1064_uart_init_wait` on the
camera board waits for one, answers with another, once, and the board goes on to send frames.
The wires may lose any byte, and the boards run at any speed; nothing but the boards' own bytes
is on the wires.

* `initPoll_initCall`: the two halves of an iteration, before and after its delay, make up the
  iteration;
* `Shaken` is the invariant: the answer is given once, and is on the wire, lost, or taken;
* `handshake_safe`: an RT1064 that is ready has a camera board that runs; the camera board's
  buffer is never closed in the wait; and an answer that is lost is lost for good.
-/

namespace SmartCar.Board

open Events Mcx

/-! ## The caller -/

/-- `mcx_init_wait`; `calling` says that the wake byte of an iteration has been sent, and the
delay is on. -/
structure Caller where
  wait : InitWait
  calling : Bool

/-- An iteration up to the delay, and the bytes sent. -/
def initCall (s : Caller) (now : UInt32) : Caller × List UInt8 :=
  if s.wait.pc ≠ .waiting ∨ s.calling then (s, [])
  else
    let timeOut := now - s.wait.timeOut
    if timeOut > mcxUartInitTimeOutMs then
      ({ s with wait := { s.wait with timeOut := timeOut, timerOn := false, pc := .returned 1 } },
        [])
    else (⟨{ s.wait with timeOut := timeOut }, true⟩, [mcxUartInitWakeData])

/-- The iteration after the delay, with the byte that `uart_query_byte` finds. -/
def initPoll (s : Caller) (byte : Option UInt8) : Caller :=
  if ¬ s.calling then s
  else
    let wait := { s.wait with datTemp := byte.getD s.wait.datTemp }
    if wait.datTemp = mcxUartInitWakeData then
      if fifoInit.2 then
        ⟨{ wait with
          receiver := { wait.receiver with mcxUartFifo := fifoInit.1, mcxInitFlag := true }
          pc := .returned 0 }, false⟩
      else
        ⟨{ wait with
          receiver := { wait.receiver with mcxUartFifo := fifoInit.1 }
          timerOn := false
          pc := .returned 1 }, false⟩
    else ⟨wait, false⟩

/-- The two halves make up the iteration. -/
theorem initPoll_initCall {s : Caller} (h : s.calling = false) (now : UInt32)
    (byte : Option UInt8) :
    initPoll (initCall s now).1 byte = ⟨mcxInitIteration s.wait now byte, false⟩ := by
  obtain ⟨wait, calling⟩ := s
  obtain rfl : calling = false := h
  cases hpc : wait.pc with
  | returned code => simp [initCall, initPoll, mcxInitIteration, hpc]
  | waiting =>
    by_cases hpast : now - wait.timeOut > mcxUartInitTimeOutMs
    · simp only [initCall, mcxInitIteration, hpc, if_pos hpast]
      rfl
    · simp only [initCall, mcxInitIteration, hpc, if_neg hpast]
      simp only [ne_eq, not_true, Bool.false_eq_true, or_self, if_false, initPoll]
      split_ifs <;> rfl

/-! ## The boards and the wires -/

/-- The RT1064, the bytes on their way to the camera board and back, and the camera board. -/
structure Handshake where
  caller : Caller
  down : List UInt8
  up : List UInt8
  camera : WakeWait
  cubeInfo : CubeInfo
  writeBuffer : List UInt8

/-- A half of an iteration of the RT1064, which may find a byte; an access of the camera board's
wait, or its UART interrupt; an image, once it waits no more; or a byte is lost. -/
inductive HandshakeEvent
  | call (now : UInt32)
  | poll (found : Bool)
  | main
  | receive
  | image (beyondX beyondY : ℤ → UInt8) (image : Image)
  | loseDown (i : ℕ)
  | loseUp (i : ℕ)

def handshakeStep (s : Handshake) : HandshakeEvent → Handshake
  | .call now =>
    let (caller, sent) := initCall s.caller now
    { s with caller := caller, down := s.down ++ sent }
  | .poll found =>
    if s.caller.calling ∧ found then
      { s with caller := initPoll s.caller s.up.head?, up := s.up.tail }
    else { s with caller := initPoll s.caller none }
  | .main =>
    let camera := rt1064UartInitWait s.camera
    { s with camera := camera, up := s.up ++ camera.sent.drop s.camera.sent.length }
  | .receive =>
    match s.down with
    | [] => s
    | b :: down => { s with down := down, camera := rt1064UartReceiveCallback s.camera b }
  | .image beyondX beyondY image =>
    if s.camera.pc = .returned then
      let cubeInfo := findRedCubeCenter beyondX beyondY image s.cubeInfo
      let (writeBuffer, sent) := rt1064UartSendCubeInfo s.writeBuffer cubeInfo
      { s with cubeInfo := cubeInfo, writeBuffer := writeBuffer, up := s.up ++ sent }
    else s
  | .loseDown i => { s with down := s.down.eraseIdx i }
  | .loseUp i => { s with up := s.up.eraseIdx i }

/-- The receiver of the RT1064 at power-up. -/
def receiverPowerUp : Receiver := { Mcx.start with mcxInitFlag := false }

/-- Both boards at power-up; `now` is the RT1064's first reading of its timer. -/
def handshakeStart (now : UInt32) : Handshake where
  caller := ⟨mcxInitStart receiverPowerUp now, false⟩
  down := []
  up := []
  camera := wakePowerUp
  cubeInfo := noCube
  writeBuffer := []

/-! ## The steps of the parts -/

section Caller

variable {s : Caller}

/-- The ways a call can go: nothing is done, the wait is given up, or a wake byte is sent. -/
theorem initCall_cases (s : Caller) (now : UInt32) :
    initCall s now = (s, []) ∨ (s.wait.pc = .waiting ∧ s.calling = false ∧ ∃ timeOut,
      initCall s now = ({ s with wait :=
        { s.wait with timeOut := timeOut, timerOn := false, pc := .returned 1 } }, []) ∨
      initCall s now = (⟨{ s.wait with timeOut := timeOut }, true⟩, [mcxUartInitWakeData])) := by
  by_cases hbusy : s.wait.pc ≠ .waiting ∨ s.calling
  · exact .inl (if_pos hbusy)
  · right
    obtain ⟨hpc, hcalling⟩ := not_or.mp hbusy
    refine ⟨not_not.mp hpc, by simpa using hcalling, now - s.wait.timeOut, ?_⟩
    simp only [initCall, if_neg hbusy]
    split_ifs
    · exact .inl rfl
    · exact .inr rfl

/-- A call changes neither the byte that has been read last nor the receiver, and does not end
the wait with success. -/
theorem initCall_frame (s : Caller) (now : UInt32) :
    (initCall s now).1.wait.datTemp = s.wait.datTemp ∧
      (initCall s now).1.wait.receiver = s.wait.receiver ∧
      ((initCall s now).1.wait.pc = .waiting → s.wait.pc = .waiting) ∧
      ((initCall s now).1.wait.pc = .returned 0 ↔ s.wait.pc = .returned 0) ∧
      ∀ b ∈ (initCall s now).2, b = mcxUartInitWakeData := by
  rcases initCall_cases s now with heq | ⟨hpc, -, timeOut, heq | heq⟩
  · simp [heq]
  · simp [heq, hpc]
  · simp [heq]

/-- The wake byte ends the wait. -/
theorem initPoll_wake (h : s.calling = true) :
    initPoll s (some mcxUartInitWakeData) =
      ⟨{ s.wait with
        datTemp := mcxUartInitWakeData
        receiver := { s.wait.receiver with mcxUartFifo := .empty, mcxInitFlag := true }
        pc := .returned 0 }, false⟩ := by
  simp [initPoll, h, fifoInit]

/-- Another byte, or none, does not. -/
theorem initPoll_other {byte : Option UInt8}
    (h : s.calling = true → byte.getD s.wait.datTemp ≠ mcxUartInitWakeData) :
    (initPoll s byte).wait.pc = s.wait.pc ∧ (initPoll s byte).wait.receiver = s.wait.receiver ∧
      (s.calling = false → (initPoll s byte).wait.datTemp = s.wait.datTemp) ∧
      (s.calling = true → (initPoll s byte).wait.datTemp = byte.getD s.wait.datTemp) := by
  cases hcalling : s.calling with
  | false => simp [initPoll, hcalling]
  | true =>
    have hne := h hcalling
    simp only [initPoll, hcalling, not_true, if_false, if_neg hne]
    simp

end Caller

/-- A frame has no wake byte in it. -/
theorem wake_not_mem_frame {cube : CubeInfo} (h : cube.InRange) (writeBuffer : List UInt8) :
    mcxUartInitWakeData ∉ (rt1064UartSendCubeInfo writeBuffer cube).2 := by
  have htext : mcxUartInitWakeData ∉ cubeText cube := (isText_cubeText cube).not_mem (by decide)
  rw [sent_eq h, List.mem_append, List.mem_cons, not_or, not_or]
  exact ⟨⟨by decide, htext⟩, by decide⟩

/-- A frame on the wire adds no answer to it. -/
theorem count_wake_frame {cube : CubeInfo} (h : cube.InRange) (writeBuffer up : List UInt8) :
    (up ++ (rt1064UartSendCubeInfo writeBuffer cube).2).count mcxUartInitWakeData =
      up.count mcxUartInitWakeData := by
  rw [List.count_append]
  exact Nat.add_eq_left.mpr (List.count_eq_zero.mpr (wake_not_mem_frame h writeBuffer))

/-- What the camera board has sent: the answer, and only at the end of the wait. -/
def Answered (s : WakeWait) : Prop :=
  s.sent = if s.pc = .returned then [rt1064UartInitWakeData] else []

theorem answered_main {s : WakeWait} (h : Answered s) : Answered (rt1064UartInitWait s) := by
  unfold Answered at h ⊢
  unfold rt1064UartInitWait
  split <;> (try split_ifs) <;> simp_all

theorem answered_receive {s : WakeWait} (h : Answered s) (b : UInt8) :
    Answered (rt1064UartReceiveCallback s b) := by
  unfold Answered at h ⊢
  unfold rt1064UartReceiveCallback
  split_ifs at h ⊢ <;> exact h

/-! ## The invariant -/

/-- How many answers the RT1064 has taken: one, once it is ready. -/
def taken (pc : InitWaitPc) : ℕ := if pc = .returned 0 then 1 else 0

theorem taken_congr {pc pc' : InitWaitPc} (h : pc = .returned 0 ↔ pc' = .returned 0) :
    taken pc = taken pc' := by
  simp only [taken, h]

/-- The answer is given once; it is on the wire, or lost, or the RT1064 has taken it. -/
structure Shaken (s : Handshake) : Prop where
  calls : ∀ b ∈ s.down, b = mcxUartInitWakeData
  opened : s.camera.readBufferFinish = false
  camera : s.cubeInfo.InRange
  awaits : Awaits receiverPowerUp s.caller.wait
  waiting : s.caller.wait.pc = .waiting → s.caller.wait.datTemp ≠ mcxUartInitWakeData
  calling : s.caller.calling = true → s.caller.wait.pc = .waiting
  answered : Answered s.camera
  once : s.up.count mcxUartInitWakeData + taken s.caller.wait.pc ≤ s.camera.sent.length

variable {s : Handshake}

theorem shaken_handshakeStart (now : UInt32) : Shaken (handshakeStart now) where
  calls := by simp [handshakeStart]
  opened := rfl
  camera := inRange_noCube
  awaits := ⟨fun _ => rfl, fun h => nomatch h⟩
  waiting := fun _ => by simp [handshakeStart, mcxInitStart]
  calling := fun h => nomatch h
  answered := rfl
  once := le_rfl

theorem Shaken.call (h : Shaken s) (now : UInt32) : Shaken (handshakeStep s (.call now)) := by
  obtain ⟨hdat, hreceiver, hwaiting, hwoken, hsent⟩ := initCall_frame s.caller now
  have hcalling : (initCall s.caller now).1.calling = true →
      (initCall s.caller now).1.wait.pc = .waiting := by
    rcases initCall_cases s.caller now with heq | ⟨hpc, hidle, timeOut, heq | heq⟩
    · rw [heq]
      exact h.calling
    · simp [heq, hidle]
    · simp [heq, hpc]
  refine ⟨?_, h.opened, h.camera, ⟨fun hpc => ?_, fun hpc => ?_⟩, fun hpc => ?_, hcalling,
    h.answered, ?_⟩
  · intro b hb
    rcases List.mem_append.mp hb with hold | hnew
    · exact h.calls b hold
    · exact hsent b hnew
  · exact hreceiver.trans (h.awaits.same (hwaiting hpc))
  · exact hreceiver.trans (h.awaits.woken (hwoken.mp hpc))
  · exact fun heq => h.waiting (hwaiting hpc) (hdat.symm.trans heq)
  · simp only [handshakeStep, taken_congr hwoken]
    exact h.once

/-- Another byte, or none, leaves another one in `dat_temp`. -/
theorem Shaken.read (h : Shaken s) {byte : Option UInt8} (hbyte : byte ≠ some mcxUartInitWakeData)
    (hcalling : s.caller.calling = true) :
    byte.getD s.caller.wait.datTemp ≠ mcxUartInitWakeData := by
  cases byte with
  | none => exact h.waiting (h.calling hcalling)
  | some b =>
    rintro rfl
    exact hbyte rfl

/-- A poll that does not find the answer. -/
theorem Shaken.pollOther (h : Shaken s) {byte : Option UInt8} {up : List UInt8}
    (hbyte : byte ≠ some mcxUartInitWakeData)
    (hup : up.count mcxUartInitWakeData ≤ s.up.count mcxUartInitWakeData) :
    Shaken { s with caller := initPoll s.caller byte, up := up } := by
  have hne := h.read hbyte
  obtain ⟨hpc, hreceiver, hkept, hread⟩ := initPoll_other hne
  refine ⟨h.calls, h.opened, h.camera, ⟨fun hwaiting => ?_, fun hwoken => ?_⟩,
    fun hwaiting heq => ?_, fun hcalling => ?_, h.answered, ?_⟩
  · exact hreceiver.trans (h.awaits.same (hpc.symm.trans hwaiting))
  · exact hreceiver.trans (h.awaits.woken (hpc.symm.trans hwoken))
  · cases hcalling : s.caller.calling with
    | false => exact h.waiting (hpc.symm.trans hwaiting) ((hkept hcalling).symm.trans heq)
    | true => exact hne hcalling ((hread hcalling).symm.trans heq)
  · refine hpc.trans (h.calling ?_)
    by_contra hno
    simp [initPoll, hno] at hcalling
  · have honce := h.once
    rw [← hpc] at honce
    exact (Nat.add_le_add_right hup _).trans honce

theorem Shaken.poll (h : Shaken s) (found : Bool) : Shaken (handshakeStep s (.poll found)) := by
  simp only [handshakeStep]
  split_ifs with hfound
  · cases hup : s.up with
    | nil => exact h.pollOther (by simp) (by simp)
    | cons b up =>
      by_cases hb : b = mcxUartInitWakeData
      · -- the answer is taken off the wire
        have honce := h.once
        subst hb
        rw [hup, List.count_cons_self, h.calling hfound.1] at honce
        rw [List.head?_cons, List.tail_cons, initPoll_wake hfound.1]
        refine ⟨h.calls, h.opened, h.camera, ⟨fun hpc => (nomatch hpc), fun _ => ?_⟩,
          fun hpc => (nomatch hpc), fun hpc => (nomatch hpc), h.answered, honce⟩
        rw [h.awaits.same (h.calling hfound.1)]
      · refine h.pollOther (by simpa using hb) ?_
        rw [hup, List.tail_cons, List.count_cons_of_ne hb]
  · exact h.pollOther (by simp) le_rfl

theorem Shaken.main (h : Shaken s) : Shaken (handshakeStep s .main) := by
  have hanswered := answered_main h.answered
  have hopened : (rt1064UartInitWait s.camera).readBufferFinish = false := by
    by_contra hclosed
    have hfinish := (finish_wait s.camera).mp (by simpa using hclosed)
    exact absurd (h.opened.symm.trans hfinish.1) (by decide)
  refine ⟨h.calls, hopened, h.camera, h.awaits, h.waiting, h.calling, hanswered, ?_⟩
  have honce := h.once
  have hold := h.answered
  simp only [handshakeStep, List.count_append]
  unfold Answered at hold hanswered
  by_cases hpc : s.camera.pc = .returned
  · -- the board is past its wait
    have hsame : rt1064UartInitWait s.camera = s.camera := by simp [rt1064UartInitWait, hpc]
    rw [hsame, List.drop_length, List.count_nil]
    exact honce
  · -- the answer goes behind what is on the wire, which is nothing
    rw [hold, if_neg hpc, List.length_nil] at honce ⊢
    rw [hanswered, List.drop_zero]
    split_ifs
    · have hone : [rt1064UartInitWakeData].count mcxUartInitWakeData = 1 := rfl
      rw [hone, List.length_singleton]
      omega
    · rw [List.count_nil, List.length_nil]
      omega

theorem Shaken.receive (h : Shaken s) : Shaken (handshakeStep s .receive) := by
  cases hdown : s.down with
  | nil =>
    simp only [handshakeStep, hdown]
    exact h
  | cons b down =>
    have hcalls := h.calls
    rw [hdown] at hcalls
    obtain rfl := hcalls b List.mem_cons_self
    have hopened : (rt1064UartReceiveCallback s.camera mcxUartInitWakeData).readBufferFinish =
        false := by
      by_contra hclosed
      rcases (finish_callback s.camera _).mp (by simpa using hclosed) with htail | hfinish
      · exact absurd htail (by decide)
      · exact absurd (h.opened.symm.trans hfinish) (by decide)
    have hanswered := answered_receive h.answered mcxUartInitWakeData
    have hsent : (rt1064UartReceiveCallback s.camera mcxUartInitWakeData).sent =
        s.camera.sent := by
      unfold rt1064UartReceiveCallback
      split_ifs <;> rfl
    simp only [handshakeStep, hdown]
    refine ⟨fun c hc => hcalls c (List.mem_cons_of_mem _ hc), hopened, h.camera, h.awaits,
      h.waiting, h.calling, hanswered, ?_⟩
    rw [hsent]
    exact h.once

theorem Shaken.report (h : Shaken s) {cubeInfo : CubeInfo} (hrange : cubeInfo.InRange) :
    Shaken { s with
      cubeInfo := cubeInfo
      writeBuffer := (rt1064UartSendCubeInfo s.writeBuffer cubeInfo).1
      up := s.up ++ (rt1064UartSendCubeInfo s.writeBuffer cubeInfo).2 } := by
  refine ⟨h.calls, h.opened, hrange, h.awaits, h.waiting, h.calling, h.answered, ?_⟩
  rw [count_wake_frame hrange]
  exact h.once

theorem Shaken.image (h : Shaken s) (beyondX beyondY : ℤ → UInt8) (image : Image) :
    Shaken (handshakeStep s (.image beyondX beyondY image)) := by
  simp only [handshakeStep]
  split_ifs
  · exact h.report (inRange_findRedCubeCenter beyondX beyondY image h.camera)
  · exact h

theorem shaken_step (h : Shaken s) (e : HandshakeEvent) : Shaken (handshakeStep s e) := by
  cases e with
  | call now => exact h.call now
  | poll found => exact h.poll found
  | main => exact h.main
  | receive => exact h.receive
  | image beyondX beyondY image => exact h.image beyondX beyondY image
  | loseDown i =>
    exact ⟨fun b hb => h.calls b (List.mem_of_mem_eraseIdx hb), h.opened, h.camera, h.awaits,
      h.waiting, h.calling, h.answered, h.once⟩
  | loseUp i =>
    have hcount := (List.eraseIdx_sublist s.up i).count_le mcxUartInitWakeData
    refine ⟨h.calls, h.opened, h.camera, h.awaits, h.waiting, h.calling, h.answered, ?_⟩
    exact (Nat.add_le_add_right hcount _).trans h.once

/-! ## The answer is lost -/

/-- The camera board runs, and its answer is neither on the wire nor taken. -/
structure Lost (s : Handshake) : Prop where
  shaken : Shaken s
  running : s.camera.pc = .returned
  gone : mcxUartInitWakeData ∉ s.up
  deaf : s.caller.wait.pc ≠ .returned 0

theorem pc_receive (s : WakeWait) (b : UInt8) : (rt1064UartReceiveCallback s b).pc = s.pc := by
  unfold rt1064UartReceiveCallback
  split_ifs <;> rfl

/-- No frame makes up for it. -/
theorem lost_step (h : Lost s) (e : HandshakeEvent) : Lost (handshakeStep s e) := by
  have hshaken := shaken_step h.shaken e
  cases e with
  | call now =>
    obtain ⟨-, -, -, hwoken, -⟩ := initCall_frame s.caller now
    exact ⟨hshaken, h.running, h.gone, fun hpc => h.deaf (hwoken.mp hpc)⟩
  | poll found =>
    simp only [handshakeStep] at hshaken ⊢
    split_ifs at hshaken ⊢
    · have hhead : s.up.head? ≠ some mcxUartInitWakeData :=
        fun hhead => h.gone (List.mem_of_mem_head? hhead)
      have hpc := (initPoll_other (h.shaken.read hhead)).1
      exact ⟨hshaken, h.running, fun hmem => h.gone (List.mem_of_mem_tail hmem),
        fun hwoken => h.deaf (hpc.symm.trans hwoken)⟩
    · have hnone : (none : Option UInt8) ≠ some mcxUartInitWakeData := by simp
      have hpc := (initPoll_other (h.shaken.read hnone)).1
      exact ⟨hshaken, h.running, h.gone, fun hwoken => h.deaf (hpc.symm.trans hwoken)⟩
  | main =>
    -- the board is past its wait, and sends no second answer
    have hsame : rt1064UartInitWait s.camera = s.camera := by
      simp [rt1064UartInitWait, h.running]
    refine ⟨hshaken, ?_, ?_, h.deaf⟩
    · simp only [handshakeStep, hsame]
      exact h.running
    · simp only [handshakeStep, hsame, List.drop_length, List.append_nil]
      exact h.gone
  | receive =>
    cases hdown : s.down with
    | nil =>
      simp only [handshakeStep, hdown]
      exact h
    | cons b down =>
      simp only [handshakeStep, hdown] at hshaken ⊢
      exact ⟨hshaken, (pc_receive s.camera b).trans h.running, h.gone, h.deaf⟩
  | image beyondX beyondY image =>
    simp only [handshakeStep, if_pos h.running] at hshaken ⊢
    have hrange := inRange_findRedCubeCenter beyondX beyondY image h.shaken.camera
    refine ⟨hshaken, h.running, ?_, h.deaf⟩
    rw [List.mem_append, not_or]
    exact ⟨h.gone, wake_not_mem_frame hrange s.writeBuffer⟩
  | loseDown i => exact ⟨hshaken, h.running, h.gone, h.deaf⟩
  | loseUp i =>
    exact ⟨hshaken, h.running, fun hmem => h.gone (List.mem_of_mem_eraseIdx hmem), h.deaf⟩

/-! ## The law -/

/-- In every run, whatever the wires lose and however the steps of the boards interleave:

* the camera board's buffer is open;
* if the RT1064 is ready, the camera board runs, and the receiver takes frames;
* if the camera board runs, and its answer is neither on the wire nor taken, then the RT1064
  is not ready in any state that follows. -/
theorem handshake_safe (now : UInt32) (tr : List HandshakeEvent) :
    let s := run handshakeStep (handshakeStart now) tr
    s.camera.readBufferFinish = false ∧
      (s.caller.wait.pc = .returned 0 → s.camera.pc = .returned ∧ Ready s.caller.wait.receiver) ∧
      (s.camera.pc = .returned → mcxUartInitWakeData ∉ s.up → s.caller.wait.pc ≠ .returned 0 →
        ∀ tr', (run handshakeStep s tr').caller.wait.pc ≠ .returned 0) := by
  have hshaken : Shaken (run handshakeStep (handshakeStart now) tr) :=
    run_induction handshakeStep (handshakeStart now) (fun _ => Shaken)
      (shaken_handshakeStart now) (fun _ e h => shaken_step h e) tr
  refine ⟨hshaken.opened, fun hwoken => ⟨?_, ?_⟩, fun hrunning hgone hdeaf tr' => ?_⟩
  · -- the answer that has been taken has been given
    by_contra hwaiting
    have honce := hshaken.once
    rw [hwoken, hshaken.answered, if_neg hwaiting] at honce
    exact absurd honce (Nat.not_succ_le_zero _)
  · rw [hshaken.awaits.woken hwoken]
    exact ⟨rfl, rfl, rfl, rfl⟩
  · have hlost : Lost (run handshakeStep (run handshakeStep (handshakeStart now) tr) tr') :=
      run_induction handshakeStep _ (fun _ => Lost) ⟨hshaken, hrunning, hgone, hdeaf⟩
        (fun _ e h => lost_step h e) tr'
    exact hlost.deaf

end SmartCar.Board

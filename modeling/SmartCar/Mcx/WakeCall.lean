import SmartCar.Lib.Events
import SmartCar.Mcx.Rt1064Uart

/-!
# rt1064_uart: the wake-up call on the MCX board

`rt1064_uart_init_wait` looks for a wake byte at the end of what the receive callback has stored.
The callback is that of the frames: a tail closes the buffer until the flag is cleared, which
the function does once, and a byte that finds the buffer full is lost. The UART interrupt comes
between any two accesses of the function.

* `finish_iff`: the buffer is closed if and only if a tail has come since the flag was cleared;
* `wake_heard_iff`: no wake byte is missed if and only if each one finds the buffer open and
  not full, or closed with a wake byte at its end;
* `deaf_run`: a tail in the wait, with no wake byte stored, keeps the function waiting forever.
-/

namespace SmartCar.Mcx

open Events

/-! ## The receiver -/

@[simp] def rt1064UartReadBufferSize : ℕ := 64
@[simp] def rt1064UartInitWakeData : UInt8 := 0x01

/-- The next access of `rt1064_uart_init_wait`; the first one comes after `user_uart_init`. -/
inductive WakePc
  | resetIndex | resetFinish | testIndex | testByte | putchar | returned
  /-- It has read in front of the buffer. -/
  | outside
deriving DecidableEq, Repr

/-- The variables of the receiver, and the bytes sent. -/
structure WakeWait where
  pc : WakePc
  readBuffer : Vector UInt8 64
  readBufferIndex : ℕ
  readBufferFinish : Bool
  sent : List UInt8

/-- `rt1064_uart_receive_callback` -/
def rt1064UartReceiveCallback (s : WakeWait) (data : UInt8) : WakeWait :=
  if s.readBufferFinish then s
  else if data = rt1064BufferHead then { s with readBufferIndex := 0 }
  else if data = rt1064BufferTail then { s with readBufferFinish := true }
  else if h : s.readBufferIndex < rt1064UartReadBufferSize then
    { s with
      readBuffer := s.readBuffer.set s.readBufferIndex data
      readBufferIndex := s.readBufferIndex + 1 }
  else { s with readBufferIndex := 0 }

/-- The next access of `rt1064_uart_init_wait`. -/
def rt1064UartInitWait (s : WakeWait) : WakeWait :=
  match s.pc with
  | .resetIndex => { s with readBufferIndex := 0, pc := .resetFinish }
  | .resetFinish => { s with readBufferFinish := false, pc := .testIndex }
  | .testIndex => if s.readBufferIndex ≠ 0 then { s with pc := .testByte } else s
  | .testByte =>
    -- a head may have come since the index was tested
    if s.readBufferIndex = 0 then { s with pc := .outside }
    else if s.readBuffer[s.readBufferIndex - 1]? = some rt1064UartInitWakeData then
      { s with pc := .putchar }
    else { s with pc := .testIndex }
  | .putchar => { s with sent := s.sent ++ [rt1064UartInitWakeData], pc := .returned }
  | .returned => s
  | .outside => s

/-- A byte on the UART, or an access of the function. -/
inductive WakeEvent
  | byte (data : UInt8) | main
deriving DecidableEq, Repr

def wakeStep (s : WakeWait) : WakeEvent → WakeWait
  | .byte data => rt1064UartReceiveCallback s data
  | .main => rt1064UartInitWait s

def wakePowerUp : WakeWait := ⟨.resetIndex, .replicate 64 0, 0, false, []⟩

variable {s : WakeWait} {tr : List WakeEvent} {data : UInt8} {e : WakeEvent}

/-! ## The law -/

/-- What ends the loop. -/
def ExitCondition (s : WakeWait) : Prop :=
  s.readBufferIndex ≠ 0 ∧
    s.readBuffer[s.readBufferIndex - 1]? = some rt1064UartInitWakeData

instance (s : WakeWait) : Decidable (ExitCondition s) := inferInstanceAs (Decidable (_ ∧ _))

/-- A wake byte has come until the function has returned: the loop can end. -/
def WakeHeard (_ : List WakeEvent) (s : WakeWait) (e : WakeEvent) : Prop :=
  e = .byte rt1064UartInitWakeData → s.pc ≠ .returned → ExitCondition (wakeStep s e)

instance (before : List WakeEvent) (s : WakeWait) (e : WakeEvent) :
    Decidable (WakeHeard before s e) := inferInstanceAs (Decidable (_ → _ → _))

/-- The index stays in the buffer, and no wake byte is missed. -/
def CannotMiss (tr : List WakeEvent) : Prop :=
  Throughout wakeStep wakePowerUp (fun s => s.readBufferIndex ≤ rt1064UartReadBufferSize) tr ∧
    Along wakeStep wakePowerUp WakeHeard tr

/-! ## The index and the flag -/

theorem index_callback (h : s.readBufferIndex ≤ 64) (data : UInt8) :
    (rt1064UartReceiveCallback s data).readBufferIndex ≤ 64 := by
  unfold rt1064UartReceiveCallback
  split_ifs with hfinish hhead htail hroom
  · exact h
  · exact Nat.zero_le _
  · exact h
  · exact hroom
  · exact Nat.zero_le _

theorem index_wait (h : s.readBufferIndex ≤ 64) :
    (rt1064UartInitWait s).readBufferIndex ≤ 64 := by
  unfold rt1064UartInitWait
  split <;> (try split_ifs) <;> first | exact h | exact Nat.zero_le _

theorem index_run (tr : List WakeEvent) :
    (run wakeStep wakePowerUp tr).readBufferIndex ≤ 64 := by
  refine run_induction wakeStep wakePowerUp (fun _ s => s.readBufferIndex ≤ 64)
    (Nat.zero_le _) ?_ tr
  rintro tr (data | _) h
  · exact index_callback h data
  · exact index_wait h

/-- The function clears the flag. -/
def FinishCleared (_ : List WakeEvent) (s : WakeWait) (e : WakeEvent) : Prop :=
  e = .main ∧ s.pc = .resetFinish

/-- A tail comes. -/
def TailReceived (_ : List WakeEvent) (_ : WakeWait) (e : WakeEvent) : Prop :=
  e = .byte rt1064BufferTail

/-- A tail has come since the flag was cleared, or since power-up. -/
def Latched (tr : List WakeEvent) : Prop :=
  Since wakeStep wakePowerUp FinishCleared TailReceived tr

theorem finish_callback (s : WakeWait) (data : UInt8) :
    (rt1064UartReceiveCallback s data).readBufferFinish = true ↔
      data = rt1064BufferTail ∨ s.readBufferFinish = true := by
  unfold rt1064UartReceiveCallback
  split_ifs with hfinish hhead htail hroom
  · simp [hfinish]
  · simp [hfinish, hhead]
  · simp [htail]
  · simpa [hfinish] using htail
  · simpa [hfinish] using htail

theorem finish_wait (s : WakeWait) :
    (rt1064UartInitWait s).readBufferFinish = true ↔
      s.readBufferFinish = true ∧ s.pc ≠ .resetFinish := by
  unfold rt1064UartInitWait
  split <;> (try split_ifs) <;> simp_all

/-- The buffer is closed if and only if a tail has come since the flag was cleared. -/
theorem finish_iff (tr : List WakeEvent) :
    (run wakeStep wakePowerUp tr).readBufferFinish = true ↔ Latched tr := by
  refine run_induction wakeStep wakePowerUp
    (fun tr s => s.readBufferFinish = true ↔ Latched tr) (by simp [wakePowerUp, Latched]) ?_ tr
  intro tr e ih
  rw [Latched, since_concat, ← Latched, ← ih]
  cases e with
  | byte data =>
    rw [wakeStep, finish_callback]
    simp [TailReceived, FinishCleared]
  | main =>
    rw [wakeStep, finish_wait]
    simp [TailReceived, FinishCleared]

/-! ## Wake bytes -/

/-- The byte is stored if the buffer is open and not full. -/
theorem exitCondition_callback (h : s.readBufferIndex ≤ 64) :
    ExitCondition (rt1064UartReceiveCallback s rt1064UartInitWakeData) ↔
      if s.readBufferFinish then ExitCondition s else s.readBufferIndex ≠ 64 := by
  cases hfinish : s.readBufferFinish with
  | true => simp [rt1064UartReceiveCallback, hfinish]
  | false =>
    by_cases hroom : s.readBufferIndex < 64
    · have hne : s.readBufferIndex ≠ 64 := by omega
      have hstored : rt1064UartReceiveCallback s rt1064UartInitWakeData =
          { s with
            readBuffer := s.readBuffer.set s.readBufferIndex rt1064UartInitWakeData
            readBufferIndex := s.readBufferIndex + 1 } := by
        simp [rt1064UartReceiveCallback, hfinish, hroom]
      have hlast : (s.readBuffer.set s.readBufferIndex rt1064UartInitWakeData)[
          s.readBufferIndex]? = some rt1064UartInitWakeData := by
        rw [Vector.getElem?_set_self]
      rw [hstored]
      exact iff_of_true ⟨Nat.succ_ne_zero _, hlast⟩ (by simpa using hne)
    · have heq : s.readBufferIndex = 64 := by omega
      simp [rt1064UartReceiveCallback, ExitCondition, hfinish, heq]

/-- A wake byte finds the buffer open and not full, or closed with a wake byte at its end. -/
def Receptive (before : List WakeEvent) (s : WakeWait) (e : WakeEvent) : Prop :=
  e = .byte rt1064UartInitWakeData → s.pc ≠ .returned →
    (¬ Latched before ∧ s.readBufferIndex ≠ 64) ∨ (Latched before ∧ ExitCondition s)

theorem wakeHeard_iff (tr : List WakeEvent) (e : WakeEvent) :
    WakeHeard tr (run wakeStep wakePowerUp tr) e ↔
      Receptive tr (run wakeStep wakePowerUp tr) e := by
  refine imp_congr_right fun he => imp_congr_right fun _ => ?_
  subst he
  rw [wakeStep, exitCondition_callback (index_run tr), ← finish_iff]
  cases (run wakeStep wakePowerUp tr).readBufferFinish <;> simp

/-- No wake byte is missed if and only if each one finds the buffer open and not full, or closed
with a wake byte at its end. -/
theorem wake_heard_iff (tr : List WakeEvent) :
    CannotMiss tr ↔ Along wakeStep wakePowerUp Receptive tr := by
  have hindex : Throughout wakeStep wakePowerUp
      (fun s => s.readBufferIndex ≤ rt1064UartReadBufferSize) tr :=
    fun before _ _ => index_run before
  rw [CannotMiss, and_iff_right hindex]
  exact along_congr wakeStep wakePowerUp WakeHeard Receptive wakeHeard_iff tr

/-- A byte of noise in the wait, and the wake byte. -/
theorem noise_missed : ¬ ∀ tr, CannotMiss tr := by
  intro h
  have hheard := (h [.main, .main, .byte rt1064BufferTail, .byte rt1064UartInitWakeData]).2
  exact absurd hheard (by decide)

/-! ## Deaf -/

/-- The function is in its loop, with the buffer closed and no wake byte at its end. -/
structure Deaf (s : WakeWait) : Prop where
  finish : s.readBufferFinish = true
  noWake : ¬ ExitCondition s
  loop : s.pc = .testIndex ∨ s.pc = .testByte ∧ s.readBufferIndex ≠ 0

theorem deaf_step (h : Deaf s) (e : WakeEvent) : Deaf (wakeStep s e) := by
  cases e with
  | byte data =>
    have hsame : rt1064UartReceiveCallback s data = s := by
      rw [rt1064UartReceiveCallback, if_pos h.finish]
    rw [wakeStep, hsame]
    exact h
  | main =>
    rcases h.loop with hpc | ⟨hpc, hne⟩
    · by_cases hzero : s.readBufferIndex = 0
      · simpa [wakeStep, rt1064UartInitWait, hpc, hzero] using h
      · simp only [wakeStep, rt1064UartInitWait, hpc, if_pos hzero]
        exact ⟨h.finish, h.noWake, .inr ⟨rfl, hzero⟩⟩
    · have hbyte : ¬ s.readBuffer[s.readBufferIndex - 1]? = some rt1064UartInitWakeData :=
        fun hwake => h.noWake ⟨hne, hwake⟩
      simp only [wakeStep, rt1064UartInitWait, hpc, if_neg hne, if_neg hbyte]
      exact ⟨h.finish, h.noWake, .inl rfl⟩

/-- Whatever comes then, the function does not return. -/
theorem deaf_run (h : Deaf s) (tr : List WakeEvent) : (run wakeStep s tr).pc ≠ .returned := by
  have hdeaf : Deaf (run wakeStep s tr) :=
    run_induction wakeStep s (fun _ s => Deaf s) h (fun _ e hs => deaf_step hs e) tr
  rcases hdeaf.loop with hpc | ⟨hpc, -⟩ <;> simp [hpc]

end SmartCar.Mcx

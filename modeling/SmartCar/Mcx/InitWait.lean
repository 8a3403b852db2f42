import SmartCar.Lib.Elapsed
import SmartCar.Mcx.Vision

/-!
# MCX_Vision: waiting for the camera board

`mcx_init_wait` sends a wake byte every 10 ms until the board answers with one, or until
`MCX_UART_INIT_TIME_OUT_MS` have passed. `time_out` starts with a reading of the timer, and each
iteration replaces it by its difference to the next reading: it is an alternating sum of the
readings, and shows the time of every second iteration only.

* `ready_of_woken`: where the function returns 0, the receiver is ready for frames;
* `compared_eq`: the value that is compared with the timeout;
* `times_out_iff`: the function gives up where the timeout has passed if and only if that
  value happens to pass it there too, and not before.
-/

namespace SmartCar.Mcx

open Elapsed

/-! ## The function -/

@[simp] def mcxUartInitTimeOutMs : UInt32 := 2000
@[simp] def mcxUartInitWakeData : UInt8 := 0x01

/-- In the loop, or returned. -/
inductive InitWaitPc
  | waiting | returned (code : UInt8)
deriving DecidableEq, Repr

/-- The variables of `mcx_init_wait`, and those of the receiver. -/
structure InitWait where
  pc : InitWaitPc
  timeOut : UInt32
  datTemp : UInt8
  timerOn : Bool
  receiver : Receiver

/-- `fifo_init`: the FIFO, and whether the state is `FIFO_SUCCESS`, as it always is. -/
def fifoInit : Queue UInt8 64 × Bool := (.empty, true)

/-- Up to the loop, with the first reading of the timer. -/
def mcxInitStart (receiver : Receiver) (now : UInt32) : InitWait :=
  ⟨.waiting, now, 0x00, true, receiver⟩

/-- An iteration of the loop, with its reading of the timer, and the byte that
`uart_query_byte` finds after the delay, if there is one. -/
def mcxInitIteration (s : InitWait) (now : UInt32) (byte : Option UInt8) : InitWait :=
  match s.pc with
  | .returned _ => s
  | .waiting =>
    let timeOut := now - s.timeOut
    if timeOut > mcxUartInitTimeOutMs then
      { s with timeOut := timeOut, timerOn := false, pc := .returned 1 }
    else
      -- without a byte the variable keeps what it had
      let datTemp := byte.getD s.datTemp
      if datTemp = mcxUartInitWakeData then
        if fifoInit.2 then
          { s with
            timeOut := timeOut
            datTemp := datTemp
            receiver := { s.receiver with mcxUartFifo := fifoInit.1, mcxInitFlag := true }
            pc := .returned 0 }
        else
          { s with
            timeOut := timeOut
            datTemp := datTemp
            receiver := { s.receiver with mcxUartFifo := fifoInit.1 }
            timerOn := false
            pc := .returned 1 }
      else { s with timeOut := timeOut, datTemp := datTemp }

/-- `mcx_init_wait` up to the reading `n`: `t 0` is taken before the loop, and the iteration `n`
takes `t n` and `bytes n`. -/
def mcxInitWait (receiver : Receiver) (t : ℕ → UInt32) (bytes : ℕ → Option UInt8) : ℕ → InitWait
  | 0 => mcxInitStart receiver (t 0)
  | n + 1 => mcxInitIteration (mcxInitWait receiver t bytes n) (t (n + 1)) (bytes (n + 1))

variable {receiver : Receiver} {t : ℕ → UInt32} {bytes : ℕ → Option UInt8} {n : ℕ}
  {s : InitWait} {now : UInt32} {byte : Option UInt8}

theorem iteration_returned {code : UInt8} (h : s.pc = .returned code) :
    mcxInitIteration s now byte = s := by
  simp [mcxInitIteration, h]

theorem iteration_past (h : s.pc = .waiting) (hpast : now - s.timeOut > mcxUartInitTimeOutMs) :
    mcxInitIteration s now byte =
      { s with timeOut := now - s.timeOut, timerOn := false, pc := .returned 1 } := by
  simp only [mcxInitIteration, h, if_pos hpast]

theorem iteration_silent (h : s.pc = .waiting)
    (hpast : ¬ now - s.timeOut > mcxUartInitTimeOutMs)
    (hbyte : byte.getD s.datTemp ≠ mcxUartInitWakeData) :
    mcxInitIteration s now byte =
      { s with timeOut := now - s.timeOut, datTemp := byte.getD s.datTemp } := by
  simp only [mcxInitIteration, h, if_neg hpast, if_neg hbyte]

/-! ## The board has answered -/

/-- While the function waits, the receiver is as it was; once it has returned 0, the receiver
takes frames. -/
structure Awaits (receiver : Receiver) (s : InitWait) : Prop where
  same : s.pc = .waiting → s.receiver = receiver
  woken : s.pc = .returned 0 →
    s.receiver = { receiver with mcxUartFifo := .empty, mcxInitFlag := true }

theorem awaits_iteration (h : Awaits receiver s) :
    Awaits receiver (mcxInitIteration s now byte) := by
  cases hpc : s.pc with
  | returned code =>
    rw [iteration_returned hpc]
    exact h
  | waiting =>
    have hsame := h.same hpc
    simp only [mcxInitIteration, hpc]
    split_ifs <;> constructor <;> simp_all [fifoInit]

theorem mcxInitWait_awaits (receiver : Receiver) (t : ℕ → UInt32) (bytes : ℕ → Option UInt8)
    (n : ℕ) : Awaits receiver (mcxInitWait receiver t bytes n) := by
  induction n with
  | zero => exact ⟨fun _ => rfl, fun h => nomatch h⟩
  | succ n ih => exact awaits_iteration ih

/-- A receiver that no frame has reached is ready once the function has returned 0. -/
theorem ready_of_woken (hidle : receiver.mcxDataRecvFinishFlag = false)
    (hlength : receiver.mcxDataLength = mcxDataLengthMax - 1)
    (h : (mcxInitWait receiver t bytes n).pc = .returned 0) :
    Ready (mcxInitWait receiver t bytes n).receiver := by
  rw [(mcxInitWait_awaits receiver t bytes n).woken h]
  exact ⟨rfl, hidle, rfl, hlength⟩

/-! ## The value that is compared -/

/-- `time_out` after the reading `n`. -/
def compared (t : ℕ → UInt32) : ℕ → UInt32
  | 0 => t 0
  | n + 1 => t (n + 1) - compared t n

/-- The readings never go back. -/
def Nondecreasing (t : ℕ → UInt32) : Prop := ∀ n, t n ≤ t (n + 1)

theorem Nondecreasing.monotone (ht : Nondecreasing t) : Monotone fun n => (t n).toNat :=
  monotone_nat_of_le_succ fun n => UInt32.le_iff_toNat_le.mp (ht n)

/-- Every second wait is counted, and at an even reading the first reading as well. -/
theorem compared_eq (ht : Nondecreasing t) (n : ℕ) :
    (compared t n).toNat =
      everySecond (fun k => (t k).toNat) n + if Even n then (t 0).toNat else 0 := by
  refine eq_everySecond ht.monotone (a := fun n => (compared t n).toNat) rfl ?_ n
  intro n hle
  exact UInt32.toNat_sub_of_le _ _ (UInt32.le_iff_toNat_le.mpr hle)

/-- The reading `n` ends the wait. -/
def Exceeds (t : ℕ → UInt32) (n : ℕ) : Prop := 1 ≤ n ∧ compared t n > mcxUartInitTimeOutMs

instance (t : ℕ → UInt32) (n : ℕ) : Decidable (Exceeds t n) :=
  inferInstanceAs (Decidable (_ ∧ _))

/-- As long as the board is silent, the function waits for as long as no reading ends the wait. -/
theorem mcxInitWait_of_silent (hsilent : ∀ n, bytes n ≠ some mcxUartInitWakeData) (n : ℕ) :
    ((mcxInitWait receiver t bytes n).pc = .waiting ∧
        (mcxInitWait receiver t bytes n).timeOut = compared t n ∧
        (mcxInitWait receiver t bytes n).datTemp ≠ mcxUartInitWakeData ∧
        ∀ k ≤ n, ¬ Exceeds t k) ∨
      ((mcxInitWait receiver t bytes n).pc = .returned 1 ∧ ∃ k ≤ n, Exceeds t k) := by
  induction n with
  | zero =>
    left
    refine ⟨rfl, rfl, by simp [mcxInitWait, mcxInitStart], ?_⟩
    intro k hk hex
    exact absurd hex.1 (by omega)
  | succ n ih =>
    rcases ih with ⟨hpc, htime, hdat, hnone⟩ | ⟨hpc, k, hk, hex⟩
    · by_cases hpast : compared t (n + 1) > mcxUartInitTimeOutMs
      · right
        refine ⟨?_, n + 1, le_rfl, by omega, hpast⟩
        rw [compared, ← htime] at hpast
        rw [mcxInitWait, iteration_past hpc hpast]
      · left
        -- the byte that is found is another one, or none is found
        have hbyte : (bytes (n + 1)).getD (mcxInitWait receiver t bytes n).datTemp ≠
            mcxUartInitWakeData := by
          cases hb : bytes (n + 1) with
          | none => exact hdat
          | some b =>
            rintro rfl
            exact hsilent _ hb
        have hnone' : ∀ k ≤ n + 1, ¬ Exceeds t k := by
          intro k hk hex
          rcases Nat.lt_or_eq_of_le hk with hlt | rfl
          · exact hnone k (by omega) hex
          · exact hpast hex.2
        rw [compared, ← htime] at hpast ⊢
        rw [mcxInitWait, iteration_silent hpc hpast hbyte]
        exact ⟨hpc, rfl, hbyte, hnone'⟩
    · right
      refine ⟨?_, k, by omega, hex⟩
      rw [mcxInitWait, iteration_returned hpc]
      exact hpc

/-! ## The timeout -/

/-- The reading `n` at which the function returns 1. -/
def GivesUpAt (receiver : Receiver) (t : ℕ → UInt32) (bytes : ℕ → Option UInt8) (n : ℕ) : Prop :=
  FirstAt (fun n => (mcxInitWait receiver t bytes n).pc = .returned 1) n

/-- The timeout has passed at the reading `n`. -/
def TimedOut (t : ℕ → UInt32) (n : ℕ) : Prop := 1 ≤ n ∧ t n - t 0 > mcxUartInitTimeOutMs

instance (t : ℕ → UInt32) (n : ℕ) : Decidable (TimedOut t n) :=
  inferInstanceAs (Decidable (_ ∧ _))

/-- The function gives up at the first reading past the timeout, and at no other. -/
def TimesOut (receiver : Receiver) (t : ℕ → UInt32) (bytes : ℕ → Option UInt8) : Prop :=
  ∀ n, GivesUpAt receiver t bytes n ↔ FirstAt (TimedOut t) n

theorem givesUpAt_iff (hsilent : ∀ n, bytes n ≠ some mcxUartInitWakeData) (n : ℕ) :
    GivesUpAt receiver t bytes n ↔ FirstAt (Exceeds t) n := by
  have hpc : ∀ n, (mcxInitWait receiver t bytes n).pc = .returned 1 ↔ ∃ k ≤ n, Exceeds t k := by
    intro n
    rcases mcxInitWait_of_silent hsilent n with
      ⟨hpc, -, -, hnone⟩ | ⟨hpc, hex⟩
    · rw [hpc]
      simpa using hnone
    · rw [hpc]
      simpa using hex
  simp only [GivesUpAt, FirstAt, hpc]
  constructor
  · rintro ⟨⟨k, hk, hex⟩, hbefore⟩
    have hkn : k = n := by
      by_contra hne
      exact hbefore k (by omega) ⟨k, le_rfl, hex⟩
    subst hkn
    exact ⟨hex, fun j hj hex' => hbefore j hj ⟨j, le_rfl, hex'⟩⟩
  · rintro ⟨hex, hbefore⟩
    refine ⟨⟨n, le_rfl, hex⟩, ?_⟩
    rintro k hk ⟨j, hj, hex'⟩
    exact hbefore j (by omega) hex'

/-- What the readings must be for the time of every second wait to tell the timeout. -/
structure TellsTimeout (t : ℕ → UInt32) : Prop where
  /-- With the first reading, it does not pass the timeout before the time does. -/
  notBefore : ∀ n, 1 ≤ n → Even n → ¬ TimedOut t n →
    everySecond (fun k => (t k).toNat) n + (t 0).toNat ≤ 2000
  /-- It passes the timeout together with the time. -/
  notAfter : ∀ n, FirstAt (TimedOut t) n →
    2000 < everySecond (fun k => (t k).toNat) n + if Even n then (t 0).toNat else 0

theorem timedOut_iff (ht : Nondecreasing t) (n : ℕ) :
    TimedOut t n ↔ 1 ≤ n ∧ 2000 < (t n).toNat - (t 0).toNat := by
  have hle : t 0 ≤ t n := UInt32.le_iff_toNat_le.mpr (ht.monotone (Nat.zero_le n))
  rw [TimedOut, gt_iff_lt, UInt32.lt_iff_toNat_lt, UInt32.toNat_sub_of_le _ _ hle]
  rfl

theorem exceeds_iff (ht : Nondecreasing t) (n : ℕ) :
    Exceeds t n ↔ 1 ≤ n ∧
      2000 < everySecond (fun k => (t k).toNat) n + if Even n then (t 0).toNat else 0 := by
  rw [Exceeds, gt_iff_lt, UInt32.lt_iff_toNat_lt, compared_eq ht]
  rfl

/-- While the board is silent, the function gives up at the first reading past the timeout, and
at no other, if and only if the time of every second wait tells the timeout. -/
theorem times_out_iff (receiver : Receiver) (t : ℕ → UInt32) (bytes : ℕ → Option UInt8)
    (ht : Nondecreasing t) (hsilent : ∀ n, bytes n ≠ some mcxUartInitWakeData) :
    TimesOut receiver t bytes ↔ TellsTimeout t := by
  have hmono := ht.monotone
  simp only [TimesOut, givesUpAt_iff hsilent]
  rw [firstAt_congr_iff]
  constructor
  · intro h
    constructor
    · intro n hn heven hnot
      -- the time has not passed the timeout at any earlier reading either
      have hbefore : ∀ k < n, ¬ TimedOut t k := by
        intro k hk
        rw [timedOut_iff ht] at hnot ⊢
        have hle := hmono hk.le
        dsimp only at hle
        omega
      have hex := mt (h n hbefore).mp hnot
      rw [exceeds_iff ht, if_pos heven] at hex
      omega
    · rintro n ⟨hpast, hbefore⟩
      exact ((exceeds_iff ht n).mp ((h n hbefore).mpr hpast)).2
  · intro h n hbefore
    constructor
    · intro hex
      by_contra hnot
      rw [exceeds_iff ht] at hex
      have hle := everySecond_le hmono n
      by_cases heven : Even n
      · have hsum := h.notBefore n hex.1 heven hnot
        rw [if_pos heven] at hex
        omega
      · -- at an odd reading, only time that has passed is counted
        rw [timedOut_iff ht] at hnot
        rw [if_neg heven] at hex
        omega
    · intro hpast
      exact (exceeds_iff ht n).mpr ⟨hpast.1, h.notAfter n ⟨hpast, hbefore⟩⟩

/-- A timer that reads 0, and 2001 from then on. -/
def slowFirst (n : ℕ) : UInt32 := if n = 0 then 0 else 2001

theorem times_out_iff_slowFirst : TimesOut start slowFirst (fun _ => none) := by
  refine (times_out_iff start slowFirst _ ?_ (by simp)).mpr ⟨?_, ?_⟩
  · rintro (_ | n)
    · decide
    · exact UInt32.le_refl _
  · intro n hn _ hnot
    have hpast : TimedOut slowFirst n := by
      refine ⟨hn, ?_⟩
      rw [slowFirst, if_neg (by omega)]
      decide
    exact absurd hpast hnot
  · rintro n ⟨hpast, hbefore⟩
    have hone : n = 1 := by
      by_contra hne
      have hn := hpast.1
      exact hbefore 1 (by omega) (by decide)
    subst hone
    decide

/-- A timer that is read every 10 ms. -/
def everyTenMs (n : ℕ) : UInt32 := .ofNat (10 * min n 1000)

/-- The reading 201 is the first one past the timeout, and the function still waits. -/
theorem everyTenMs_waits :
    ¬ ∀ receiver t bytes, Nondecreasing t → (∀ n, bytes n ≠ some mcxUartInitWakeData) →
      TimesOut receiver t bytes := by
  intro h
  have hmono : Nondecreasing everyTenMs := by
    have hval : ∀ n, (everyTenMs n).toNat = 10 * min n 1000 := by
      intro n
      refine UInt32.toNat_ofNat_of_lt' ?_
      have hsize : 10000 < UInt32.size := by decide
      omega
    intro n
    rw [UInt32.le_iff_toNat_le, hval, hval]
    omega
  have hfirst : FirstAt (TimedOut everyTenMs) 201 := ⟨by decide, by decide +kernel⟩
  have hgives := (h start everyTenMs (fun _ => none) hmono (by simp) 201).mpr hfirst
  exact absurd hgives.1 (by decide +kernel)

end SmartCar.Mcx

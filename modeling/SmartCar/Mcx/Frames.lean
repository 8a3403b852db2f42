import SmartCar.Lib.Framing
import SmartCar.Mcx.Vision

/-!
# MCX_Vision: which frames are intact

The callback accepts a tail by the number of bytes in the FIFO alone, and only a
head clears the FIFO. So what the handler parses is a frame exactly when each
tail that is accepted closes a frame of 36 bytes that a head has opened; bytes
that come while a frame is pending do no harm.

`frame_intact_of_framed` is the law for every run whose tails are so.
-/

namespace SmartCar.Mcx

open Events Framing

/-! ## Law and condition -/

/-- The bytes that the handler parses, when it parses. -/
def parsedBytes (s : Receiver) : List UInt8 := (parsedBuffer s).toList.take (mcxDataLengthMax - 1)

/-- The handler parses a frame. -/
structure Parses (s : Receiver) : Prop where
  init : s.mcxInitFlag = true
  finish : s.mcxDataRecvFinishFlag = true
  used : s.mcxUartFifo.used = mcxDataLengthMax - 1
  length : (fifoReadBuffer s.mcxUartFifo s.mcxDataLength).1 = mcxDataLengthMax - 1

/-- The tail that comes after `tr` raises the finish flag. -/
def SetsFlag (s₀ : Receiver) (tr : List Event) : Prop :=
  (run step s₀ tr).mcxDataRecvFinishFlag = false ∧
    (run step s₀ (tr ++ [.byte mcxBufferTail])).mcxDataRecvFinishFlag = true

/-- When the handler parses, it parses the 36 bytes between a head and the tail that
raised the flag, with no delimiter among them. -/
def FrameIntact (s₀ : Receiver) (before : List Event) (s : Receiver) : Event → Prop
  | .byte _ => True
  | .pit _ _ => Parses s →
      ∃ tr₁ tr₂ prior, before = tr₁ ++ .byte mcxBufferTail :: tr₂ ∧
        (∀ now now', Event.pit now now' ∉ tr₂) ∧ SetsFlag s₀ tr₁ ∧
        received tr₁ = prior ++ mcxBufferHead :: parsedBytes s ∧
        (parsedBytes s).length = mcxDataLengthMax - 1 ∧
        mcxBufferHead ∉ parsedBytes s ∧ mcxBufferTail ∉ parsedBytes s

/-- The next event is framed: a tail that comes with no frame pending and 36 bytes in
the FIFO closes an open frame of 36 bytes. -/
def Framed (before : List Event) (s : Receiver) : Event → Prop
  | .byte b => s.mcxDataRecvFinishFlag = false → b = mcxBufferTail →
      s.mcxUartFifo.used = mcxDataLengthMax - 1 →
      ∃ p ∈ openFrame mcxBufferHead mcxBufferTail (received before),
        p.length = mcxDataLengthMax - 1
  | .pit _ _ => True

instance (before : List Event) (s : Receiver) (e : Event) : Decidable (Framed before s e) :=
  match e with
  | .byte _ => inferInstanceAs (Decidable (_ → _ → _ → _))
  | .pit _ _ => inferInstanceAs (Decidable True)

/-! ## The handler -/

theorem toList_copyIn (buffer : Vector UInt8 37) {data : List UInt8} (h : data.length = 36) :
    (copyIn buffer data).toList.take 36 = data := by
  apply List.ext_getElem
  · simp [h]
  · intro i hi _
    simp only [List.length_take, Vector.length_toList] at hi
    simp [copyIn, List.getD_eq_getElem?_getD, List.getElem?_eq_getElem (by omega : i < data.length)]

/-- What is parsed is what the FIFO holds. -/
theorem parsedBytes_eq {s : Receiver} (hused : s.mcxUartFifo.used = 36)
    (hlength : s.mcxDataLength = 36) : parsedBytes s = s.mcxUartFifo.items := by
  have hn : min s.mcxDataLength s.mcxUartFifo.used = s.mcxUartFifo.used := by omega
  have hlen : s.mcxUartFifo.items.length = 36 := hused
  have hcopy := toList_copyIn s.mcxDataBuffer hlen
  simp only [parsedBytes, parsedBuffer, fifoReadBuffer, hn, Queue.front_used]
  simpa [Vector.toList_set, List.take_set_of_le] using hcopy

theorem mcxCubeDataHandlePitCall_pending {s : Receiver} (hinit : s.mcxInitFlag = true)
    (hf : s.mcxDataRecvFinishFlag = true) (hused : s.mcxUartFifo.used = 36)
    (hlength : s.mcxDataLength = 36) (now now' : UInt32) :
    let s' := mcxCubeDataHandlePitCall s now now'
    s'.mcxInitFlag = true ∧ s'.mcxDataRecvFinishFlag = false ∧ s'.mcxUartFifo = .empty ∧
      s'.mcxDataLength = 36 := by
  have hdrop : s.mcxUartFifo.drop 36 = .empty := by rw [← hused, Queue.drop_used]
  simp [mcxCubeDataHandlePitCall, fifoReadBuffer, hinit, hf, hused, hlength, hdrop]

/-! ## The invariant of framed runs -/

/-- While no frame is pending, the FIFO holds what has come of the open frame, less
what came before the handler's last call, as far as there is room; while one is
pending, it holds that frame. -/
structure Inv (s₀ : Receiver) (tr : List Event) (s : Receiver) : Prop where
  init : s.mcxInitFlag = true
  length : s.mcxDataLength = 36
  idle : s.mcxDataRecvFinishFlag = false →
    ∀ p, openFrame mcxBufferHead mcxBufferTail (received tr) = some p →
      ∃ k ≤ p.length, s.mcxUartFifo.items = (p.drop k).take 64
  pending : s.mcxDataRecvFinishFlag = true →
    ∃ tr₁ tr₂, tr = tr₁ ++ .byte mcxBufferTail :: tr₂ ∧
      (∀ now now', Event.pit now now' ∉ tr₂) ∧ SetsFlag s₀ tr₁ ∧
      openFrame mcxBufferHead mcxBufferTail (received tr₁) = some s.mcxUartFifo.items ∧
      s.mcxUartFifo.used = 36

theorem init_inv {s₀ : Receiver} (h : Ready s₀) : Inv s₀ [] s₀ where
  init := h.init
  length := h.length
  idle := by simp
  pending := by simp [h.idle]

/-- One more byte of the frame goes into the FIFO, if there is room. -/
theorem push_items {fifo : Queue UInt8 64} {p : List UInt8} {k : ℕ} (hk : k ≤ p.length)
    (h : fifo.items = (p.drop k).take 64) (b : UInt8) :
    (fifo.push b).items = ((p ++ [b]).drop k).take 64 := by
  rw [List.drop_append_of_le_length hk]
  by_cases hroom : fifo.used < 64
  · -- nothing of the frame has been dropped so far
    have hlen : (p.drop k).length < 64 := by
      have : fifo.used = min 64 (p.drop k).length := by simp [Queue.used, h]
      omega
    rw [Queue.items_push_of_lt hroom, h, List.take_of_length_le hlen.le,
      List.take_of_length_le (by simp only [List.length_append, List.length_singleton]; omega)]
  · -- the first 64 bytes of the frame stay in the FIFO
    have hlen : 64 ≤ (p.drop k).length := by
      have : fifo.used = min 64 (p.drop k).length := by simp [Queue.used, h]
      omega
    rw [Queue.push_of_full hroom, h, List.take_append_of_le_length hlen]

/-- A pending frame keeps out every byte. -/
theorem pending_inv {s₀ : Receiver} {tr : List Event} {s : Receiver} (inv : Inv s₀ tr s)
    (hf : s.mcxDataRecvFinishFlag = true) (b : UInt8) :
    Inv s₀ (tr ++ [.byte b]) (mcxReceiveDataCallback s b) := by
  have hsame : mcxReceiveDataCallback s b = s := by simp [mcxReceiveDataCallback, hf]
  rw [hsame]
  refine ⟨inv.init, inv.length, fun h => by simp [hf] at h, fun _ => ?_⟩
  rcases inv.pending hf with ⟨tr₁, tr₂, rfl, hpit, hsets, hframe, hused⟩
  exact ⟨tr₁, tr₂ ++ [.byte b], by simp, by simpa using hpit, hsets, hframe, hused⟩

/-- A head empties the FIFO, and a fresh frame is open. -/
theorem head_inv {s₀ : Receiver} {tr : List Event} {s : Receiver} (inv : Inv s₀ tr s)
    (hidle : s.mcxDataRecvFinishFlag = false) :
    Inv s₀ (tr ++ [.byte mcxBufferHead]) (mcxReceiveDataCallback s mcxBufferHead) := by
  have hstep : mcxReceiveDataCallback s mcxBufferHead = { s with mcxUartFifo := .empty } := by
    simp [mcxReceiveDataCallback, inv.init, hidle]
  rw [hstep]
  refine ⟨inv.init, inv.length, fun _ p hp => ⟨0, by omega, ?_⟩, fun h => by simp [hidle] at h⟩
  rw [received_byte, openFrame_concat, feed_head, Option.some.injEq] at hp
  simp [← hp]

/-- A tail that finds 36 bytes raises the flag over the frame it closes. -/
theorem tail_inv {s₀ : Receiver} {tr : List Event} (inv : Inv s₀ tr (run step s₀ tr))
    (hidle : (run step s₀ tr).mcxDataRecvFinishFlag = false)
    (hframed : Framed tr (run step s₀ tr) (.byte mcxBufferTail)) :
    Inv s₀ (tr ++ [.byte mcxBufferTail])
      (mcxReceiveDataCallback (run step s₀ tr) mcxBufferTail) := by
  have hrun : run step s₀ (tr ++ [.byte mcxBufferTail]) = _ := run_concat step s₀ tr _
  by_cases hused : (run step s₀ tr).mcxUartFifo.used = 36
  · have hstep : mcxReceiveDataCallback (run step s₀ tr) mcxBufferTail =
        { run step s₀ tr with mcxDataRecvFinishFlag := true } := by
      simp [mcxReceiveDataCallback, inv.init, hidle, hused]
    have hsets : SetsFlag s₀ tr := ⟨hidle, by rw [hrun, step, hstep]⟩
    -- 36 bytes came since the head, and 36 are there: none has been lost
    rcases hframed hidle rfl hused with ⟨p, hp, hlen⟩
    rcases inv.idle hidle p hp with ⟨k, hk, hitems⟩
    have hk0 : k = 0 := by
      have : (run step s₀ tr).mcxUartFifo.used = min 64 (p.length - k) := by
        simp [Queue.used, hitems]
      simp only [mcxDataLengthMax] at hlen
      omega
    have hall : (run step s₀ tr).mcxUartFifo.items = p := by
      rw [hitems, hk0, List.drop_zero, List.take_of_length_le (by simp [hlen])]
    rw [hstep]
    refine ⟨inv.init, inv.length, by simp, fun _ => ⟨tr, [], rfl, by simp, hsets, ?_, hused⟩⟩
    rw [hall]
    exact hp
  · -- the tail is rejected, and what it closes is forgotten with the next head
    have hstep : mcxReceiveDataCallback (run step s₀ tr) mcxBufferTail =
        { run step s₀ tr with mcxDataRecvFinishFlag := false } := by
      simp [mcxReceiveDataCallback, inv.init, hidle, hused]
    rw [hstep]
    refine ⟨inv.init, inv.length, fun _ p hp => ?_, by simp⟩
    rw [received_byte, openFrame_concat, feed_tail _ _ (by decide)] at hp
    cases hp

/-- Any other byte extends the frame. -/
theorem plain_inv {s₀ : Receiver} {tr : List Event} {s : Receiver} (inv : Inv s₀ tr s)
    (hidle : s.mcxDataRecvFinishFlag = false) {b : UInt8} (hh : b ≠ mcxBufferHead)
    (ht : b ≠ mcxBufferTail) :
    Inv s₀ (tr ++ [.byte b]) (mcxReceiveDataCallback s b) := by
  have hstep : mcxReceiveDataCallback s b = { s with mcxUartFifo := s.mcxUartFifo.push b } := by
    simp only [mcxReceiveDataCallback, if_neg hh, if_neg ht]
    simp [inv.init, hidle]
  rw [hstep]
  refine ⟨inv.init, inv.length, fun _ q hq => ?_, fun h => by simp [hidle] at h⟩
  rw [received_byte] at hq
  rcases openFrame_concat_eq_some _ _ (by decide) hq with ⟨hb, -⟩ | ⟨-, -, p, hp, rfl⟩
  · exact absurd hb hh
  · rcases inv.idle hidle p hp with ⟨k, hk, hitems⟩
    exact ⟨k, by simp; omega, push_items hk hitems b⟩

theorem byte_inv {s₀ : Receiver} {tr : List Event} {b : UInt8}
    (inv : Inv s₀ tr (run step s₀ tr)) (hframed : Framed tr (run step s₀ tr) (.byte b)) :
    Inv s₀ (tr ++ [.byte b]) (mcxReceiveDataCallback (run step s₀ tr) b) := by
  by_cases hf : (run step s₀ tr).mcxDataRecvFinishFlag = true
  · exact pending_inv inv hf b
  · have hidle : (run step s₀ tr).mcxDataRecvFinishFlag = false := by simpa using hf
    by_cases hh : b = mcxBufferHead
    · subst hh
      exact head_inv inv hidle
    · by_cases ht : b = mcxBufferTail
      · subst ht
        exact tail_inv inv hidle hframed
      · exact plain_inv inv hidle hh ht

/-- The handler empties the FIFO when a frame is pending, and does nothing else. -/
theorem pit_inv {s₀ : Receiver} {tr : List Event} {s : Receiver} (inv : Inv s₀ tr s)
    (now now' : UInt32) :
    Inv s₀ (tr ++ [.pit now now']) (mcxCubeDataHandlePitCall s now now') := by
  by_cases hf : s.mcxDataRecvFinishFlag = true
  · rcases inv.pending hf with ⟨-, -, -, -, -, -, hused⟩
    obtain ⟨hinit, hidle, hfifo, hlength⟩ :=
      mcxCubeDataHandlePitCall_pending inv.init hf hused inv.length now now'
    refine ⟨hinit, hlength, fun _ p _ => ⟨p.length, le_refl _, ?_⟩, fun h => by simp [hidle] at h⟩
    simp [hfifo]
  · have hidle : s.mcxDataRecvFinishFlag = false := by simpa using hf
    have hstep : mcxCubeDataHandlePitCall s now now' = s := by
      simp [mcxCubeDataHandlePitCall, hidle]
    rw [hstep]
    exact ⟨inv.init, inv.length, by simpa using inv.idle, fun h => absurd h hf⟩

theorem framed_inv {s₀ : Receiver} (h : Ready s₀) :
    ∀ tr, Along step s₀ Framed tr → Inv s₀ tr (run step s₀ tr) := by
  refine run_induction_along step s₀ Framed (Inv s₀) (init_inv h) fun tr e inv hframed => ?_
  cases e with
  | byte b => exact byte_inv inv hframed
  | pit now now' => exact pit_inv inv now now'

/-! ## The law -/

theorem frameIntact_of_inv {s₀ : Receiver} {tr : List Event} {s : Receiver} (inv : Inv s₀ tr s)
    (e : Event) : FrameIntact s₀ tr s e := by
  cases e with
  | byte b => trivial
  | pit now now' =>
    intro hparses
    rcases inv.pending hparses.finish with ⟨tr₁, tr₂, htr, hpit, hsets, hframe, hused⟩
    rcases (openFrame_eq_some _ _).mp hframe with ⟨prior, hprior, hhead, htail⟩
    rw [parsedBytes_eq hused inv.length]
    exact ⟨tr₁, tr₂, prior, htr, hpit, hsets, hprior, hused, hhead, htail⟩

/-- In every framed run, every frame that the handler parses is intact. -/
theorem frame_intact_of_framed (s₀ : Receiver) (h : Ready s₀) (tr : List Event)
    (hframed : Along step s₀ Framed tr) : Along step s₀ (FrameIntact s₀) tr :=
  along_of_inv step s₀ Framed (FrameIntact s₀) (Inv s₀) (framed_inv h)
    (fun _ e inv _ => frameIntact_of_inv inv e) tr hframed

/-- A head, 36 bytes `s`, a tail and the handler's call. -/
theorem frame_intact_of_framed_one :
    let tr : List Event := .byte 0xFE :: List.replicate 36 (.byte 115) ++ [.byte 0xEF, .pit 0 0]
    Along step start Framed tr ∧ Along step start (FrameIntact start) tr := by
  intro tr
  have hframed : Along step start Framed tr := by decide +kernel
  exact ⟨hframed, frame_intact_of_framed start ready_start tr hframed⟩

/-- What is parsed before any head has come is not a frame. -/
theorem not_intact_of_no_head {s₀ s : Receiver} {before : List Event}
    (hhead : mcxBufferHead ∉ received before) (hparses : Parses s) (now now' : UInt32) :
    ¬ FrameIntact s₀ before s (.pit now now') := by
  intro h
  rcases h hparses with ⟨tr₁, tr₂, prior, rfl, -, -, hsplit, -⟩
  apply hhead
  rw [received, List.filterMap_append]
  exact List.mem_append_left _ (by rw [← received, hsplit]; simp)

/-- A frame whose head is lost is parsed all the same. -/
theorem frame_not_intact_of_lost_head :
    ¬ Along step start (FrameIntact start)
      (List.replicate 36 (.byte 115) ++ [.byte 0xEF] ++ [.pit 0 0]) := by
  have hparses : Parses (run step start (List.replicate 36 (.byte 115) ++ [.byte 0xEF])) :=
    ⟨by decide +kernel, by decide +kernel, by decide +kernel, by decide +kernel⟩
  rw [along_concat]
  exact fun h => not_intact_of_no_head (by decide +kernel) hparses 0 0 h.2

end SmartCar.Mcx

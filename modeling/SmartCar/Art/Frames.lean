import SmartCar.Art.OpenArt
import SmartCar.Lib.Framing

/-!
# OpenART: which frames are intact

The callback keeps every byte, whatever the flags say, and looks for the tail
only after it has wrapped the index. So the handler parses the payload of a
frame only if the stream is orderly:

* no byte comes between a tail and the handler's call;
* a tail that counts closes a frame that a head has opened, whose payload fits
  the buffer and holds no NUL.

`frame_intact_of_orderly` is the law for every run that is orderly.
-/

namespace SmartCar.Art

open Events Framing

/-! ## Law and condition -/

/-- The tail that comes after `tr` raises the finish flag. -/
def SetsFlag (s₀ : State) (tr : List Event) : Prop :=
  (run step s₀ tr).artDataRecvFinishFlag = false ∧
    (run step s₀ (tr ++ [.byte artBufferTail])).artDataRecvFinishFlag = true

/-- When the handler finds the flag raised, its terminator lands in the buffer and
it parses what came between the last head and the tail that raised the flag. -/
def FrameIntact (s₀ : State) (before : List Event) (s : State) : Event → Prop
  | .byte _ => True
  | .pit => s.artDataRecvFinishFlag = true →
      1 ≤ s.artUartFifoIndex ∧ s.artUartFifoIndex ≤ artReadBufferLen ∧
        ∃ tr₁ tr₂ prior payload, before = tr₁ ++ .byte artBufferTail :: tr₂ ∧
          Event.pit ∉ tr₂ ∧ SetsFlag s₀ tr₁ ∧
          received tr₁ = prior ++ artBufferHead :: payload ∧ artBufferHead ∉ payload ∧
          parsedText s = payload

/-- The next event is orderly: a byte comes only when no frame is pending, and a
tail, unless it is lost in the wrap at index 63, closes an open frame of at most
62 bytes without a NUL. -/
def Orderly (before : List Event) (s : State) : Event → Prop
  | .byte b => s.artDataRecvFinishFlag = false ∧
      (b = artBufferTail → s.artUartFifoIndex = 63 ∨
        ∃ p ∈ openFrame artBufferHead artBufferTail (received before),
          p.length ≤ 62 ∧ (0 : UInt8) ∉ p)
  | .pit => True

instance (before : List Event) (s : State) (e : Event) : Decidable (Orderly before s e) :=
  match e with
  | .byte _ => inferInstanceAs (Decidable (_ ∧ _))
  | .pit => inferInstanceAs (Decidable True)

/-! ## What the callback stores -/

/-- The bytes stored since the index was last reset. -/
def stored (s : State) : List UInt8 := s.artUartFifoBuffer.toList.take s.artUartFifoIndex

/-- The state after the first line of the callback, below the wrap. -/
def accepted (s : State) (b : UInt8) : State :=
  { s with
    artUartFifoBuffer := writeBuffer s.artUartFifoBuffer s.artUartFifoIndex b
    artUartFifoIndex := s.artUartFifoIndex + 1 }

theorem toList_writeBuffer (buffer : Buffer) (i : ℕ) (b : UInt8) :
    (writeBuffer buffer i b).toList = buffer.toList.set i b := by
  simp [writeBuffer]

theorem stored_accepted {s : State} (hi : s.artUartFifoIndex < 64) (b : UInt8) :
    stored (accepted s b) = stored s ++ [b] := by
  have hlen : s.artUartFifoIndex < s.artUartFifoBuffer.toList.length := by simpa using hi
  simp only [stored, accepted, toList_writeBuffer]
  rw [List.take_add_one, List.getElem?_set_self hlen, List.take_set_of_le (le_refl _)]
  rfl

/-- The callback while a frame is being received, below the wrap. -/
theorem artReceiveDataCallback_idle {s : State} (hinit : s.artInitFlag = true)
    (hidle : s.artDataRecvFinishFlag = false) (hi : s.artUartFifoIndex < 63) (b : UInt8) :
    artReceiveDataCallback s b =
      if b = artBufferTail then { accepted s b with artDataRecvFinishFlag := true }
      else if b = artBufferHead then
        { accepted s b with artDataRecvFinishFlag := false, artUartFifoIndex := 0 }
      else accepted s b := by
  have hlen : s.artUartFifoIndex < s.artUartFifoBuffer.toList.length := by simp; omega
  have hmod : (s.artUartFifoIndex + 1) % 256 = s.artUartFifoIndex + 1 := by omega
  have hroom : ¬ s.artUartFifoIndex + 1 ≥ 64 := by omega
  have hlast : (s.artUartFifoBuffer.toList.set s.artUartFifoIndex b)[s.artUartFifoIndex]?
      = some b := List.getElem?_set_self hlen
  simp [artReceiveDataCallback, accepted, hmod, hroom, hinit, hidle, toList_writeBuffer, hlast]

/-- The callback at the wrap: whatever the byte, it is the index that is reset. -/
theorem artReceiveDataCallback_wrap {s : State} (hi : s.artUartFifoIndex = 63) (b : UInt8) :
    artReceiveDataCallback s b = { accepted s b with artUartFifoIndex := 0 } := by
  simp [artReceiveDataCallback, accepted, hi]

/-! ## The invariant of orderly runs -/

/-- While no frame is pending, the buffer holds the frame that is open, as long as
it fits; while one is pending, it holds that frame and its tail. -/
structure Inv (s₀ : State) (tr : List Event) (s : State) : Prop where
  init : s.artInitFlag = true
  index : s.artUartFifoIndex < 64
  idle : s.artDataRecvFinishFlag = false →
    ∀ p, openFrame artBufferHead artBufferTail (received tr) = some p → p.length < 64 →
      stored s = p
  pending : s.artDataRecvFinishFlag = true →
    ∃ tr₁ p, tr = tr₁ ++ [.byte artBufferTail] ∧ SetsFlag s₀ tr₁ ∧
      openFrame artBufferHead artBufferTail (received tr₁) = some p ∧ (0 : UInt8) ∉ p ∧
      stored s = p ++ [artBufferTail]

theorem length_stored {s : State} (hi : s.artUartFifoIndex < 64) :
    (stored s).length = s.artUartFifoIndex := by
  simp only [stored, List.length_take, Vector.length_toList]
  omega

theorem init_inv {s₀ : State} (h : Ready s₀) : Inv s₀ [] s₀ where
  init := h.init
  index := by rw [h.index]; decide
  idle := by simp
  pending := by simp [h.idle]

/-- At the wrap only a frame that has just begun, or one too long for the buffer,
is open. -/
theorem wrap_inv {s₀ : State} {tr : List Event} {s : State} (inv : Inv s₀ tr s)
    (hidle : s.artDataRecvFinishFlag = false) (hi : s.artUartFifoIndex = 63) (b : UInt8) :
    Inv s₀ (tr ++ [.byte b]) { accepted s b with artUartFifoIndex := 0 } := by
  refine ⟨inv.init, by simp, fun _ q hq hlen => ?_, fun h => ?_⟩
  · rw [received_byte] at hq
    rcases openFrame_concat_eq_some _ _ (by decide) hq with ⟨-, rfl⟩ | ⟨-, -, p, hp, rfl⟩
    · -- a head: the fresh frame is empty, and so is the buffer
      simp [stored]
    · -- 63 bytes of the frame and this one do not fit
      rw [List.length_append, List.length_singleton] at hlen
      have hstored := inv.idle hidle p hp (by omega)
      have hp63 : p.length = 63 := by rw [← hstored, length_stored inv.index, hi]
      omega
  · simp [accepted, hidle] at h

/-- Below the wrap the callback follows the frame. -/
theorem accept_inv {s₀ : State} {tr : List Event} {b : UInt8}
    (inv : Inv s₀ tr (run step s₀ tr)) (hidle : (run step s₀ tr).artDataRecvFinishFlag = false)
    (hi : (run step s₀ tr).artUartFifoIndex < 63)
    (htail : b = artBufferTail →
      ∃ p ∈ openFrame artBufferHead artBufferTail (received tr),
        p.length ≤ 62 ∧ (0 : UInt8) ∉ p) :
    Inv s₀ (tr ++ [.byte b]) (artReceiveDataCallback (run step s₀ tr) b) := by
  have hrun : run step s₀ (tr ++ [.byte b]) = artReceiveDataCallback (run step s₀ tr) b :=
    run_concat step s₀ tr _
  have hstored := stored_accepted inv.index b
  rw [artReceiveDataCallback_idle inv.init hidle hi] at hrun ⊢
  by_cases ht : b = artBufferTail
  · -- the tail: the frame becomes pending
    rcases htail ht with ⟨p, hp, hlen, hzero⟩
    rw [inv.idle hidle p hp (by omega)] at hstored
    rw [if_pos ht] at hrun ⊢
    have hsets : SetsFlag s₀ tr := ⟨hidle, by rw [← ht, hrun]⟩
    refine ⟨inv.init, by simp [accepted]; omega, by simp, fun _ => ⟨tr, p, ?_⟩⟩
    exact ⟨by rw [ht], hsets, hp, hzero, ht ▸ hstored⟩
  · rw [if_neg ht]
    by_cases hh : b = artBufferHead
    · -- the head: a fresh frame, and the index at the start of the buffer
      rw [if_pos hh]
      refine ⟨inv.init, by simp, fun _ q hq _ => ?_, by simp⟩
      rw [hh, received_byte, openFrame_concat, feed_head, Option.some.injEq] at hq
      simp [stored, ← hq]
    · -- any other byte extends the frame
      rw [if_neg hh]
      refine ⟨inv.init, by simp [accepted]; omega, fun _ q hq hlen => ?_, ?_⟩
      · rw [received_byte] at hq
        rcases openFrame_concat_eq_some _ _ (by decide) hq with ⟨hb, -⟩ | ⟨-, -, p, hp, rfl⟩
        · exact absurd hb hh
        · rw [List.length_append] at hlen
          rw [hstored, inv.idle hidle p hp (by omega)]
      · simp [accepted, hidle]

theorem byte_inv {s₀ : State} {tr : List Event} {b : UInt8}
    (inv : Inv s₀ tr (run step s₀ tr)) (hord : Orderly tr (run step s₀ tr) (.byte b)) :
    Inv s₀ (tr ++ [.byte b]) (artReceiveDataCallback (run step s₀ tr) b) := by
  rcases hord with ⟨hidle, htail⟩
  by_cases hi : (run step s₀ tr).artUartFifoIndex = 63
  · rw [artReceiveDataCallback_wrap hi]
    exact wrap_inv inv hidle hi b
  · have := inv.index
    exact accept_inv inv hidle (by omega) fun ht => (htail ht).resolve_left hi

theorem artCubeDataHandlePitCall_pending {s : State} (hinit : s.artInitFlag = true)
    (hf : s.artDataRecvFinishFlag = true) :
    (artCubeDataHandlePitCall s).artInitFlag = true ∧
      (artCubeDataHandlePitCall s).artDataRecvFinishFlag = false ∧
      (artCubeDataHandlePitCall s).artUartFifoIndex = 0 := by
  simp [artCubeDataHandlePitCall, hinit, hf]

/-- The handler empties the buffer when a frame is pending, and does nothing else. -/
theorem pit_inv {s₀ : State} {tr : List Event} {s : State} (inv : Inv s₀ tr s) :
    Inv s₀ (tr ++ [.pit]) (artCubeDataHandlePitCall s) := by
  by_cases hf : s.artDataRecvFinishFlag = true
  · -- the tail that raised the flag has closed the frame
    rcases inv.pending hf with ⟨tr₁, p, rfl, -⟩
    rcases artCubeDataHandlePitCall_pending inv.init hf with ⟨hinit, hidle, hindex⟩
    refine ⟨hinit, by omega, fun _ q hq _ => ?_, fun h => by simp [hidle] at h⟩
    rw [received_pit, received_byte, openFrame_concat, feed_tail _ _ (by decide)] at hq
    cases hq
  · have hidle : s.artDataRecvFinishFlag = false := by simpa using hf
    have hstep : artCubeDataHandlePitCall s = s := by simp [artCubeDataHandlePitCall, hidle]
    rw [hstep]
    exact ⟨inv.init, inv.index, by simpa using inv.idle, fun h => absurd h hf⟩

theorem orderly_inv {s₀ : State} (h : Ready s₀) :
    ∀ tr, Along step s₀ Orderly tr → Inv s₀ tr (run step s₀ tr) := by
  refine run_induction_along step s₀ Orderly (Inv s₀) (init_inv h) fun tr e inv hord => ?_
  cases e with
  | byte b => exact byte_inv inv hord
  | pit => exact pit_inv inv

/-! ## The law -/

/-- The terminator replaces the tail. -/
theorem parsedText_of_stored {s : State} {p : List UInt8} (hzero : (0 : UInt8) ∉ p)
    (hp : stored s = p ++ [artBufferTail]) (hi : s.artUartFifoIndex = p.length + 1) :
    parsedText s = p := by
  -- the buffer holds the payload, the tail, and what is left from before
  have hsplit : s.artUartFifoBuffer.toList =
      p ++ artBufferTail :: s.artUartFifoBuffer.toList.drop s.artUartFifoIndex := by
    have := List.take_append_drop s.artUartFifoIndex s.artUartFifoBuffer.toList
    rw [← this]
    change stored s ++ _ = _
    simp [hp]
  have hindex : ((s.artUartFifoIndex : ℤ) - 1) = (p.length : ℕ) := by omega
  rw [parsedText, terminated, hindex, toList_writeBuffer, hsplit,
    List.set_append_right _ _ (le_refl _)]
  simp [Scanf.cString_append hzero]

theorem frameIntact_of_inv {s₀ : State} {tr : List Event} {s : State} (inv : Inv s₀ tr s)
    (e : Event) : FrameIntact s₀ tr s e := by
  cases e with
  | byte b => trivial
  | pit =>
    intro hf
    rcases inv.pending hf with ⟨tr₁, p, rfl, hsets, hp, hzero, hstored⟩
    have hi : s.artUartFifoIndex = p.length + 1 := by
      rw [← length_stored inv.index, hstored, List.length_append, List.length_singleton]
    have := inv.index
    rcases (openFrame_eq_some _ _).mp hp with ⟨prior, hprior, hhead, -⟩
    refine ⟨by omega, by simp; omega, tr₁, [], prior, p, rfl, by simp, hsets, hprior, hhead, ?_⟩
    exact parsedText_of_stored hzero hstored hi

/-- In every orderly run, every frame that the handler parses is intact. -/
theorem frame_intact_of_orderly (s₀ : State) (h : Ready s₀) (tr : List Event)
    (hord : Along step s₀ Orderly tr) : Along step s₀ (FrameIntact s₀) tr :=
  along_of_inv step s₀ Orderly (FrameIntact s₀) (Inv s₀) (orderly_inv h)
    (fun _ e inv _ => frameIntact_of_inv inv e) tr hord

/-- The stream `[o]`, and the handler's call. -/
theorem frame_intact_of_orderly_short :
    Along step start Orderly [.byte 91, .byte 111, .byte 93, .pit] ∧
      Along step start (FrameIntact start) [.byte 91, .byte 111, .byte 93, .pit] := by
  have hord : Along step start Orderly [.byte 91, .byte 111, .byte 93, .pit] := by decide
  exact ⟨hord, frame_intact_of_orderly start ready_start _ hord⟩

/-- What is parsed before any head has come is not a frame. -/
theorem not_intact_of_no_head {s₀ s : State} {before : List Event}
    (hhead : artBufferHead ∉ received before) (hf : s.artDataRecvFinishFlag = true) :
    ¬ FrameIntact s₀ before s .pit := by
  intro h
  rcases h hf with ⟨-, -, tr₁, tr₂, prior, payload, rfl, -, -, hsplit, -⟩
  apply hhead
  rw [received, List.filterMap_append]
  exact List.mem_append_left _ (by rw [← received, hsplit]; simp)

/-- A receiver that is switched on in the middle of a frame parses what is left of
it: here `8]`, with no head at all. -/
theorem frame_not_intact_of_headless :
    ¬ Along step start (FrameIntact start) ([.byte 56, .byte 93] ++ [.pit]) := by
  rw [along_concat]
  exact fun h => not_intact_of_no_head (by decide) (by decide) h.2

end SmartCar.Art

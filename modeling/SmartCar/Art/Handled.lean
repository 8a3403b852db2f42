import SmartCar.Art.Frames

/-!
# OpenART: when a frame has been handled

The handler calls the record valid when it finds the flag of the receiver, and a tail raises
that flag unless it comes as the byte that wraps the index. So `valid` says that such a tail
has come, and a call of the handler after it (`valid_iff_handled`), and nothing about what was
in the frame.
-/

namespace SmartCar.Art

open Events

variable {s s₀ : State} {tr : List Event}

/-! ## When a frame has been handled -/

/-- A tail comes that is not lost in the wrap of the index. -/
def TailComes (_ : List Event) (s : State) (e : Event) : Prop :=
  e = .byte artBufferTail ∧ s.artUartFifoIndex ≠ 63

/-- The handler is called after such a tail. -/
def HandlerCalled (s₀ : State) (before : List Event) (_ : State) (e : Event) : Prop :=
  e = .pit ∧ Happened step s₀ TailComes before

/-- A frame has been handled. -/
def Handled (s₀ : State) (tr : List Event) : Prop := Happened step s₀ (HandlerCalled s₀) tr

instance (before : List Event) (s : State) (e : Event) : Decidable (TailComes before s e) :=
  inferInstanceAs (Decidable (_ ∧ _))

instance (s₀ : State) (before : List Event) (s : State) (e : Event) :
    Decidable (HandlerCalled s₀ before s e) := inferInstanceAs (Decidable (_ ∧ _))

instance (s₀ : State) (tr : List Event) : Decidable (Handled s₀ tr) :=
  inferInstanceAs (Decidable (Happened _ _ _ _))

/-- What the callback does to the flags and to the record. -/
structure Received (s : State) (b : UInt8) (s' : State) : Prop where
  init : s'.artInitFlag = true
  index : s'.artUartFifoIndex < 64
  info : s'.currentCubeFaceInfo = s.currentCubeFaceInfo
  finish : s'.artDataRecvFinishFlag = true ↔
    s.artDataRecvFinishFlag = true ∨ b = artBufferTail ∧ s.artUartFifoIndex ≠ 63

theorem received_callback (hinit : s.artInitFlag = true) (hindex : s.artUartFifoIndex < 64)
    (b : UInt8) : Received s b (artReceiveDataCallback s b) := by
  by_cases hwrap : s.artUartFifoIndex = 63
  · rw [artReceiveDataCallback_wrap hwrap]
    exact ⟨hinit, Nat.zero_lt_succ 63, rfl, by simp [accepted, hwrap]⟩
  · cases hflag : s.artDataRecvFinishFlag with
    | false =>
      rw [artReceiveDataCallback_idle hinit hflag (by omega)]
      split_ifs with htail hhead
      · exact ⟨hinit, by simp [accepted]; omega, rfl, by simp [htail, hwrap]⟩
      · exact ⟨hinit, Nat.zero_lt_succ 63, rfl, by simp [hflag, htail]⟩
      · exact ⟨hinit, by simp [accepted]; omega, rfl, by simp [accepted, hflag, htail]⟩
    | true =>
      -- a frame is pending: the byte is stored all the same
      have hmod : (s.artUartFifoIndex + 1) % 256 = s.artUartFifoIndex + 1 := by omega
      have hroom : ¬ 64 ≤ s.artUartFifoIndex + 1 := by omega
      constructor <;> simp [artReceiveDataCallback, hmod, hroom, hflag, hinit]
      omega

/-- What the record says of the run so far, and the flag of the frames in it. -/
structure HandledInv (s₀ : State) (tr : List Event) (s : State) : Prop where
  init : s.artInitFlag = true
  index : s.artUartFifoIndex < 64
  pending : s.artDataRecvFinishFlag = true → Happened step s₀ TailComes tr
  parsed : s.currentCubeFaceInfo.valid = true ↔ Handled s₀ tr
  tailed : Happened step s₀ TailComes tr →
    s.artDataRecvFinishFlag = true ∨ s.currentCubeFaceInfo.valid = true

theorem init_handledInv (h : Ready s₀) (hvalid : s₀.currentCubeFaceInfo.valid = false) :
    HandledInv s₀ [] s₀ where
  init := h.init
  index := by simp [h.index]
  pending := by simp [h.idle]
  parsed := by simp [hvalid, Handled]
  tailed := by simp

theorem byte_handledInv {b : UInt8} (hrun : run step s₀ tr = s) (inv : HandledInv s₀ tr s) :
    HandledInv s₀ (tr ++ [.byte b]) (artReceiveDataCallback s b) := by
  have hreceived := received_callback inv.init inv.index b
  have htail : Happened step s₀ TailComes (tr ++ [.byte b]) ↔
      Happened step s₀ TailComes tr ∨ b = artBufferTail ∧ s.artUartFifoIndex ≠ 63 := by
    rw [happened_concat, hrun, TailComes, Event.byte.injEq]
  refine ⟨hreceived.init, hreceived.index, fun hflag => ?_, ?_, fun hhappened => ?_⟩
  · rw [htail]
    exact (hreceived.finish.mp hflag).imp_left inv.pending
  · rw [hreceived.info, inv.parsed, Handled, Handled, happened_concat]
    simp [HandlerCalled]
  · rw [hreceived.info, hreceived.finish]
    rcases htail.mp hhappened with hold | hnew
    · exact (inv.tailed hold).imp_left .inl
    · exact .inl (.inr hnew)

theorem pit_handledInv (inv : HandledInv s₀ tr s) :
    HandledInv s₀ (tr ++ [.pit]) (artCubeDataHandlePitCall s) := by
  have htail : Happened step s₀ TailComes (tr ++ [.pit]) ↔ Happened step s₀ TailComes tr := by
    rw [happened_concat]
    simp [TailComes]
  have hhandled : Handled s₀ (tr ++ [.pit]) ↔
      Handled s₀ tr ∨ Happened step s₀ TailComes tr := by
    rw [Handled, Handled, happened_concat]
    simp [HandlerCalled]
  cases hflag : s.artDataRecvFinishFlag with
  | false =>
    -- nothing is pending, so a tail that has come has been handled
    have hsame : artCubeDataHandlePitCall s = s := by simp [artCubeDataHandlePitCall, hflag]
    rw [hsame]
    refine ⟨inv.init, inv.index, by simp [hflag], ?_, fun h => inv.tailed (htail.mp h)⟩
    rw [hhandled, ← inv.parsed]
    refine ⟨.inl, fun h => h.elim id fun hhappened => ?_⟩
    simpa [hflag] using inv.tailed hhappened
  | true =>
    have hhappened := inv.pending hflag
    constructor <;> simp [artCubeDataHandlePitCall, inv.init, hflag, hhandled, hhappened]

theorem handledInv_run (h : Ready s₀) (hvalid : s₀.currentCubeFaceInfo.valid = false)
    (tr : List Event) : HandledInv s₀ tr (run step s₀ tr) := by
  refine run_induction step s₀ (HandledInv s₀) (init_handledInv h hvalid) ?_ tr
  intro tr e inv
  cases e with
  | byte b => exact byte_handledInv rfl inv
  | pit => exact pit_handledInv inv

/-- The record is valid if and only if a frame has been handled. -/
theorem valid_iff_handled (h : Ready s₀) (hvalid : s₀.currentCubeFaceInfo.valid = false)
    (tr : List Event) :
    (run step s₀ tr).currentCubeFaceInfo.valid = true ↔ Handled s₀ tr :=
  (handledInv_run h hvalid tr).parsed

end SmartCar.Art

import SmartCar.Art.Handled
import SmartCar.Art.Link

/-!
# OpenART: a stream of frames

The module sends one frame after the other and waits for nothing. While a frame is pending the
callback goes on storing behind it, and when the handler has emptied the buffer, what is left
of a frame is stored in front. So the buffer may hold a frame and more, or a piece of one.

* `Text`, `Torn`: a text that parses to a record, whatever stands behind its tail, and a piece
  that parses to nothing;
* `Follows`: where the receiver stands in the stream;
* `follows_byte`, `follows_pit`: it stands so after each byte and each call of the handler, if no
  more than 40 bytes come from one call to the next.
-/

namespace SmartCar.Art

open Printf

/-! ## Texts and pieces -/

/-- A record, whether it is marked as valid or not. -/
def face (info : CubeFaceInfo) : CubeFaceInfo := { info with valid := true }

/-- The text of a frame that carries one of the records `infos`. -/
structure Text (infos : List CubeFaceInfo) (t : List UInt8) : Prop where
  plain : Plain t
  length : t.length ≤ 23
  /-- Its first letter comes only once. -/
  lone : (111 : UInt8) ∉ t.tail
  parses : ∃ info ∈ infos, ∀ rest, Scanf.Stop rest → ∀ old,
    face (Scanf.store artArgs (Scanf.scan artFormat (t ++ rest)) old) = info

/-- A piece of such a text, without its first letter. -/
structure Torn (t : List UInt8) : Prop where
  plain : Plain t
  length : t.length ≤ 23
  lost : (111 : UInt8) ∉ t

/-- A text, or a piece of one. -/
def Item (infos : List CubeFaceInfo) (t : List UInt8) : Prop := Text infos t ∨ Torn t

variable {infos infos' : List CubeFaceInfo} {t wire bytes : List UInt8} {b : UInt8} {s : State}
  {n : ℕ}

theorem Text.mono (h : Text infos t) (hsub : infos ⊆ infos') : Text infos' t := by
  obtain ⟨info, hinfo, hparses⟩ := h.parses
  exact ⟨h.plain, h.length, h.lone, info, hsub hinfo, hparses⟩

theorem Item.mono (h : Item infos t) (hsub : infos ⊆ infos') : Item infos' t :=
  h.imp_left fun ht => ht.mono hsub

theorem Item.plain (h : Item infos t) : Plain t := h.elim Text.plain Torn.plain

theorem Item.length (h : Item infos t) : t.length ≤ 23 := h.elim Text.length Torn.length

/-- What is left of a text after its first byte is a piece. -/
theorem Item.tail (h : Item infos (b :: t)) : Item infos t := by
  right
  have hplain := h.plain
  have hlength := h.length
  rw [List.length_cons] at hlength
  refine ⟨fun c hc => hplain c (List.mem_cons_of_mem b hc), by omega, ?_⟩
  rcases h with htext | htorn
  · exact htext.lone
  · exact fun hmem => htorn.lost (List.mem_cons_of_mem b hmem)

/-- A piece does not begin as the format does. -/
theorem Torn.scan (h : Torn t) {rest : List UInt8} (hrest : rest = [] ∨ ∃ r, rest = 93 :: r) :
    Scanf.scan artFormat (t ++ rest) = [] := by
  have hne : ∀ c s, c ≠ 111 → Scanf.scan artFormat (c :: s) = [] := by
    intro c s hc
    simp [artFormat, Scanf.scan, hc]
  cases t with
  | nil =>
    rcases hrest with rfl | ⟨r, rfl⟩
    · rfl
    · exact hne 93 r (by decide)
  | cons c t =>
    refine hne c (t ++ rest) ?_
    rintro rfl
    exact h.lost List.mem_cons_self

/-! ## Frames on the wire -/

/-- Whole frames, one after the other. -/
inductive Frames (infos : List CubeFaceInfo) : List UInt8 → Prop
  | nil : Frames infos []
  | cons {t bytes : List UInt8} (ht : Text infos t) (h : Frames infos bytes) :
      Frames infos (artBufferHead :: (t ++ artBufferTail :: bytes))

/-- What is left of a stream of frames: the first one may have begun. -/
def OnWire (infos : List CubeFaceInfo) (wire : List UInt8) : Prop :=
  Frames infos wire ∨
    ∃ q bytes, wire = q ++ artBufferTail :: bytes ∧ Item infos q ∧ Frames infos bytes

theorem Frames.mono (h : Frames infos wire) (hsub : infos ⊆ infos') : Frames infos' wire := by
  induction h with
  | nil => exact .nil
  | cons ht _ ih => exact .cons (ht.mono hsub) ih

theorem Frames.append (h : Frames infos wire) (hbytes : Frames infos bytes) :
    Frames infos (wire ++ bytes) := by
  induction h with
  | nil => exact hbytes
  | cons ht _ ih =>
    rw [List.cons_append, List.append_assoc, List.cons_append]
    exact .cons ht ih

theorem OnWire.mono (h : OnWire infos wire) (hsub : infos ⊆ infos') : OnWire infos' wire := by
  rcases h with hframes | ⟨q, bytes, rfl, hitem, hframes⟩
  · exact .inl (hframes.mono hsub)
  · exact .inr ⟨q, bytes, rfl, hitem.mono hsub, hframes.mono hsub⟩

theorem OnWire.append (h : OnWire infos wire) (hbytes : Frames infos bytes) :
    OnWire infos (wire ++ bytes) := by
  rcases h with hframes | ⟨q, rest, rfl, hitem, hframes⟩
  · exact .inl (hframes.append hbytes)
  · refine .inr ⟨q, rest ++ bytes, ?_, hitem, hframes.append hbytes⟩
    rw [List.append_assoc, List.cons_append]

/-- A byte leaves the wire: it is no NUL. -/
theorem OnWire.tail (h : OnWire infos (b :: wire)) : b ≠ 0 ∧ OnWire infos wire := by
  rcases h with hframes | ⟨q, bytes, heq, hitem, hframes⟩
  · cases hframes with
    | cons ht h => exact ⟨by decide, .inr ⟨_, _, rfl, .inl ht, h⟩⟩
  · cases q with
    | nil =>
      obtain ⟨rfl, rfl⟩ := List.cons.inj heq
      exact ⟨by decide, .inl hframes⟩
    | cons c q =>
      obtain ⟨rfl, rfl⟩ := List.cons.inj heq
      exact ⟨(hitem.plain b List.mem_cons_self).1, .inr ⟨q, bytes, rfl, hitem.tail, hframes⟩⟩

/-! ## The receiver -/

/-- Where the receiver stands: nothing is pending, and a frame is about to begin or the buffer
holds what has come of one; or the buffer holds a text or a piece, its tail, and fewer than `n`
bytes more. -/
structure Follows (infos : List CubeFaceInfo) (n : ℕ) (s : State) (wire : List UInt8) : Prop where
  init : s.artInitFlag = true
  index : s.artUartFifoIndex < 64
  info : face s.currentCubeFaceInfo ∈ infos
  idle : s.artDataRecvFinishFlag = false → Frames infos wire ∨
    ∃ q bytes, wire = q ++ artBufferTail :: bytes ∧ Item infos (stored s ++ q) ∧
      Frames infos bytes
  pending : s.artDataRecvFinishFlag = true → OnWire infos wire ∧
    ∃ t extra, stored s = t ++ artBufferTail :: extra ∧ Item infos t ∧ (0 : UInt8) ∉ extra ∧
      extra.length < n

theorem Follows.mono (h : Follows infos n s wire) (hsub : infos ⊆ infos') :
    Follows infos' n s wire := by
  refine ⟨h.init, h.index, hsub h.info, fun hidle => ?_, fun hpending => ?_⟩
  · rcases h.idle hidle with hframes | ⟨q, bytes, rfl, hitem, hframes⟩
    · exact .inl (hframes.mono hsub)
    · exact .inr ⟨q, bytes, rfl, hitem.mono hsub, hframes.mono hsub⟩
  · obtain ⟨hwire, t, extra, hstored, hitem, hextra⟩ := h.pending hpending
    exact ⟨hwire.mono hsub, t, extra, hstored, hitem.mono hsub, hextra⟩

/-- Another frame is sent. -/
theorem Follows.send (h : Follows infos n s wire) (hbytes : Frames infos bytes) :
    Follows infos n s (wire ++ bytes) := by
  refine ⟨h.init, h.index, h.info, fun hidle => ?_, fun hpending => ?_⟩
  · rcases h.idle hidle with hframes | ⟨q, rest, rfl, hitem, hframes⟩
    · exact .inl (hframes.append hbytes)
    · refine .inr ⟨q, rest ++ bytes, ?_, hitem, hframes.append hbytes⟩
      rw [List.append_assoc, List.cons_append]
  · obtain ⟨hwire, hbuffer⟩ := h.pending hpending
    exact ⟨hwire.append hbytes, hbuffer⟩

/-! ### A byte -/

/-- While a frame is pending the callback only stores. -/
theorem artReceiveDataCallback_pending (hpending : s.artDataRecvFinishFlag = true)
    (hi : s.artUartFifoIndex < 63) (b : UInt8) : artReceiveDataCallback s b = accepted s b := by
  have hmod : (s.artUartFifoIndex + 1) % 256 = s.artUartFifoIndex + 1 := by omega
  have hroom : ¬ s.artUartFifoIndex + 1 ≥ 64 := by omega
  simp [artReceiveDataCallback, accepted, hmod, hroom, hpending]

theorem follows_head (h : Follows infos n s wire) (hidle : s.artDataRecvFinishFlag = false)
    (ht : Text infos t) (hbytes : Frames infos bytes) :
    Follows infos (n + 1) (artReceiveDataCallback s artBufferHead)
      (t ++ artBufferTail :: bytes) := by
  have hreceived := received_callback h.init h.index artBufferHead
  have hreceiving := receiving_head h.init hidle (Nat.le_of_lt_succ h.index)
  refine ⟨hreceived.init, hreceived.index, hreceived.info ▸ h.info,
    fun _ => .inr ⟨t, bytes, rfl, ?_, hbytes⟩, fun hpending => ?_⟩
  · rw [hreceiving.stored]
    exact .inl ht
  · exact absurd (hreceiving.idle.symm.trans hpending) (by decide)

/-- The next byte of a frame that has begun. -/
theorem follows_text (h : Follows infos n s wire) (hidle : s.artDataRecvFinishFlag = false)
    {q : List UInt8} (hitem : Item infos (stored s ++ b :: q)) (hbytes : Frames infos bytes) :
    Follows infos (n + 1) (artReceiveDataCallback s b) (q ++ artBufferTail :: bytes) := by
  have hlength := hitem.length
  rw [List.length_append, List.length_cons, length_stored h.index] at hlength
  obtain ⟨-, hhead, htail⟩ := hitem.plain b (by simp)
  have hreceived := received_callback h.init h.index b
  rw [artReceiveDataCallback_idle h.init hidle (by omega), if_neg htail, if_neg hhead]
    at hreceived ⊢
  refine ⟨hreceived.init, hreceived.index, h.info, fun _ => .inr ⟨q, bytes, rfl, ?_, hbytes⟩,
    fun hpending => absurd (hidle.symm.trans hpending) (by decide)⟩
  rw [stored_accepted h.index, List.append_assoc]
  exact hitem

/-- The tail: what the buffer holds is pending. -/
theorem follows_tail (h : Follows infos n s wire) (hidle : s.artDataRecvFinishFlag = false)
    (hitem : Item infos (stored s)) (hbytes : Frames infos bytes) :
    Follows infos (n + 1) (artReceiveDataCallback s artBufferTail) bytes := by
  have hlength := hitem.length
  rw [length_stored h.index] at hlength
  have hstored := stored_accepted h.index artBufferTail
  have hreceived := received_callback h.init h.index artBufferTail
  rw [artReceiveDataCallback_idle h.init hidle (by omega), if_pos rfl] at hreceived ⊢
  refine ⟨hreceived.init, hreceived.index, h.info, fun hidle' => (nomatch hidle'),
    fun _ => ⟨.inl hbytes, stored s, [], hstored, hitem, List.not_mem_nil, Nat.succ_pos n⟩⟩

/-- A byte behind a frame that is pending. -/
theorem follows_behind (h : Follows infos n s (b :: wire)) (hn : n < 40)
    (hpending : s.artDataRecvFinishFlag = true) :
    Follows infos (n + 1) (artReceiveDataCallback s b) wire := by
  obtain ⟨hwire, t, extra, hstored, hitem, hzero, hcount⟩ := h.pending hpending
  obtain ⟨hb, hwire'⟩ := hwire.tail
  -- text, tail and the bytes behind it leave room for one more
  have hroom : s.artUartFifoIndex < 63 := by
    have hlength := congrArg List.length hstored
    have htext := hitem.length
    rw [length_stored h.index, List.length_append, List.length_cons] at hlength
    omega
  have hreceived := received_callback h.init h.index b
  rw [artReceiveDataCallback_pending hpending hroom] at hreceived ⊢
  refine ⟨hreceived.init, hreceived.index, h.info,
    fun hidle => absurd (hpending.symm.trans hidle) (by decide),
    fun _ => ⟨hwire', t, extra ++ [b], ?_, hitem, ?_, ?_⟩⟩
  · rw [stored_accepted h.index, hstored, List.append_assoc, List.cons_append]
  · rw [List.mem_append, List.mem_singleton, not_or]
    exact ⟨hzero, hb.symm⟩
  · rw [List.length_append, List.length_singleton]
    omega

/-- The receiver takes the next byte, one of at most 40 since the handler was called. -/
theorem follows_byte (h : Follows infos n s (b :: wire)) (hn : n < 40) :
    Follows infos (n + 1) (artReceiveDataCallback s b) wire := by
  cases hflag : s.artDataRecvFinishFlag with
  | true => exact follows_behind h hn hflag
  | false =>
    rcases h.idle hflag with hframes | ⟨q, bytes, heq, hitem, hframes⟩
    · cases hframes with
      | cons ht hbytes => exact follows_head h hflag ht hbytes
    · cases q with
      | nil =>
        obtain ⟨rfl, rfl⟩ := List.cons.inj heq
        rw [List.append_nil] at hitem
        exact follows_tail h hflag hitem hframes
      | cons c q =>
        obtain ⟨rfl, rfl⟩ := List.cons.inj heq
        exact follows_text h hflag hitem hframes

/-! ### The handler -/

/-- The terminator replaces the last byte that has been stored. -/
theorem parsedText_of_concat {p : List UInt8} (hi : s.artUartFifoIndex < 64)
    (hp : stored s = p ++ [b]) (hzero : (0 : UInt8) ∉ p) : parsedText s = p := by
  have hindex : ((s.artUartFifoIndex : ℤ) - 1) = (p.length : ℕ) := by
    have hlength := length_stored hi
    rw [hp, List.length_append, List.length_singleton] at hlength
    omega
  have hsplit : s.artUartFifoBuffer.toList =
      p ++ b :: s.artUartFifoBuffer.toList.drop s.artUartFifoIndex := by
    conv_lhs => rw [← List.take_append_drop s.artUartFifoIndex s.artUartFifoBuffer.toList]
    change stored s ++ _ = _
    rw [hp, List.append_assoc, List.singleton_append]
  rw [parsedText, terminated, hindex, toList_writeBuffer, hsplit,
    List.set_append_right _ _ (le_refl _), Nat.sub_self, List.set_cons_zero,
    Scanf.cString_append hzero]

/-- What the handler parses: the text or the piece, alone or with its tail behind it. -/
theorem parsedText_of_pending {t extra : List UInt8} (hi : s.artUartFifoIndex < 64)
    (hstored : stored s = t ++ artBufferTail :: extra) (ht : Plain t)
    (hextra : (0 : UInt8) ∉ extra) :
    ∃ rest, parsedText s = t ++ rest ∧ (rest = [] ∨ ∃ r, rest = artBufferTail :: r) := by
  have hzero : (0 : UInt8) ∉ t := fun h => (ht 0 h).1 rfl
  rcases List.eq_nil_or_concat extra with rfl | ⟨front, last, rfl⟩
  · refine ⟨[], ?_, .inl rfl⟩
    rw [List.append_nil]
    exact parsedText_of_concat hi hstored hzero
  · refine ⟨artBufferTail :: front, ?_, .inr ⟨front, rfl⟩⟩
    rw [List.concat_eq_append] at hstored hextra
    refine parsedText_of_concat (b := last) hi ?_ ?_
    · rw [hstored, List.append_assoc, List.cons_append]
    · simp only [List.mem_append, List.mem_cons, not_or] at hextra ⊢
      exact ⟨hzero, by decide, hextra.1⟩

theorem stop_of_tail {rest : List UInt8} (h : rest = [] ∨ ∃ r, rest = artBufferTail :: r) :
    Scanf.Stop rest := by
  rcases h with rfl | ⟨r, rfl⟩
  · decide
  · intro c hc
    rw [← Option.mem_some_iff.mp hc]
    decide

/-- A text stores its record, and a piece stores nothing. -/
theorem Item.face_mem (h : Item infos t) {rest : List UInt8}
    (hrest : rest = [] ∨ ∃ r, rest = artBufferTail :: r) {old : CubeFaceInfo}
    (hold : face old ∈ infos) :
    face (Scanf.store artArgs (Scanf.scan artFormat (t ++ rest)) old) ∈ infos := by
  rcases h with htext | htorn
  · obtain ⟨info, hinfo, hparses⟩ := htext.parses
    rw [hparses rest (stop_of_tail hrest) old]
    exact hinfo
  · rw [htorn.scan hrest]
    exact hold

/-- The handler is called. -/
theorem follows_pit (h : Follows infos n s wire) :
    Follows infos 0 (artCubeDataHandlePitCall s) wire := by
  cases hflag : s.artDataRecvFinishFlag with
  | false =>
    have hsame : artCubeDataHandlePitCall s = s := by simp [artCubeDataHandlePitCall, hflag]
    rw [hsame]
    exact ⟨h.init, h.index, h.info, h.idle, fun hpending => absurd (hflag.symm.trans hpending)
      (by decide)⟩
  | true =>
    obtain ⟨hwire, t, extra, hstored, hitem, hzero, -⟩ := h.pending hflag
    obtain ⟨rest, hparsed, hrest⟩ := parsedText_of_pending h.index hstored hitem.plain hzero
    have hopen : ¬ (¬ s.artInitFlag ∨ ¬ s.artDataRecvFinishFlag) := by simp [h.init, hflag]
    rw [artCubeDataHandlePitCall, if_neg hopen, hparsed]
    refine ⟨h.init, Nat.succ_pos 63, hitem.face_mem hrest h.info, fun _ => ?_,
      fun hpending => absurd hpending Bool.false_ne_true⟩
    -- the buffer is empty, and takes what is left of the frame that has begun
    rcases hwire with hframes | ⟨q, bytes, rfl, hq, hframes⟩
    · exact .inl hframes
    · exact .inr ⟨q, bytes, rfl, hq, hframes⟩

/-! ## The texts that are sent -/

/-- The record that a frame carries. -/
def carried (catId : ℕ) (label : List UInt8) (p q : ℕ) : CubeFaceInfo where
  valid := true
  cls := .ofInt catId
  classProb := ⟨.fin ((p : ℚ) / 10 ^ 2), none⟩
  number := .ofInt (Scanf.number 10 label)
  numberProb := .fin ((q : ℚ) / 10 ^ 2)

section Printed

variable {catId p q : ℕ} {label : List UInt8}

/-- The four conversions, whatever stands behind the text. -/
theorem scan_frame_append (hlabel : Scanf.IsDigits label) (hne : label ≠ [])
    {rest : List UInt8} (hrest : Scanf.Stop rest) :
    Scanf.scan artFormat ((Serial.printed catId label p q).frame ++ rest) =
      [.int catId, .real (.fin ((p : ℚ) / 10 ^ 2)), .int (Scanf.number 10 label),
        .real (.fin ((q : ℚ) / 10 ^ 2))] := by
  have hcomma : ∀ rest, Scanf.Stop (44 :: rest) := by
    intro rest c hc
    rw [← Option.mem_some_iff.mp hc]
    decide
  have hcat := Scanf.isDigits_zeroPad (Scanf.isDigits_decimal catId) 2
  have hnumber := Scanf.isDigits_zeroPad hlabel 2
  simp only [frame_eq, Serial.printed, artFormat, List.cons_append, List.append_assoc,
    Scanf.scan_lit]
  rw [Scanf.scan_u hcat (Scanf.zeroPad_ne_nil (Scanf.decimal_ne_nil _) 2) (hcomma _)]
  simp only [Scanf.scan_lit]
  rw [Scanf.scan_f (by decide) p (hcomma _)]
  simp only [Scanf.scan_lit]
  rw [Scanf.scan_d hnumber (Scanf.zeroPad_ne_nil hne 2) (hcomma _)]
  simp only [Scanf.scan_lit]
  rw [Scanf.scan_f (by decide) q hrest, Scanf.number_zeroPad, Scanf.number_zeroPad,
    Scanf.number_decimal]
  simp [Scanf.scan]

theorem not_mem_of_isDigits {ds : List UInt8} (h : Scanf.IsDigits ds) : (111 : UInt8) ∉ ds :=
  fun hmem => absurd (h 111 hmem) (by decide)

theorem not_mem_fixed (k n : ℕ) : (111 : UInt8) ∉ fixed k n := by
  have hlow := Scanf.isDigits_zeroPad (Scanf.isDigits_decimal (n % 10 ^ k)) k
  simp [fixed, not_mem_of_isDigits (Scanf.isDigits_decimal _), not_mem_of_isDigits hlow]

theorem text_printed (hcat : catId ≤ 99) (hlabel : Scanf.IsDigits label) (hne : label ≠ [])
    (hlen : label.length ≤ 2) (hp : p ≤ 100) (hq : q ≤ 100) :
    Text [carried catId label p q] (Serial.printed catId label p q).frame where
  plain := plain_frame hlabel
  length := (length_frame hcat hlen hp hq).le
  lone := by
    have hcat := not_mem_of_isDigits (Scanf.isDigits_zeroPad (Scanf.isDigits_decimal catId) 2)
    have hnumber := not_mem_of_isDigits (Scanf.isDigits_zeroPad hlabel 2)
    simp [frame_eq, Serial.printed, hcat, hnumber, not_mem_fixed]
  parses := by
    refine ⟨_, List.mem_singleton_self _, ?_⟩
    intro rest hrest old
    rw [scan_frame_append hlabel hne hrest]
    rfl

end Printed

end SmartCar.Art

import SmartCar.Art.Frames
import SmartCar.Lib.Numerals

/-!
# The link from the OpenART module to the RT1064

`main.py` on the camera module prints class, number and probabilities of a face as
text, 23 bytes between the delimiters; `OpenART.c` stores the bytes and parses them.
What is printed is read back, whatever was in the buffer and wherever the index
stood: the head empties the buffer, and at index 63 the wrap does so in its place.
-/

namespace SmartCar.Art

open Events Printf

/-! ## The sender -/

/-- A label and its probability, as `classify` returns them. -/
structure Result where
  cat : List UInt8
  prob : ℚ

/-- The hundredths that `.2f` prints: the nearest ones, and of two equally near the
even ones. -/
def hundredths (prob : ℚ) : ℕ :=
  let n := (100 * prob).floor.toNat
  let excess := 100 * prob - n
  if excess < 1 / 2 ∨ (excess = 1 / 2 ∧ n % 2 = 0) then n else n + 1

/-- `Serial`: the four texts of the next frame. -/
structure Serial where
  objectCatId : List UInt8
  objectProb : List UInt8
  numberCatId : List UInt8
  numberProb : List UInt8

namespace Serial

/-- `set_object_result`; a label that is not in the file raises an exception. -/
def setObjectResult (labelsObject : List (List UInt8)) (result : Result) (serial : Serial) :
    Option Serial :=
  (labelsObject.idxOf? result.cat).map fun catId =>
    { serial with
      objectCatId := zeroPad 2 (decimal catId)
      objectProb := fixed 2 (hundredths result.prob) }

/-- `set_number_result` -/
def setNumberResult (result : Result) (serial : Serial) : Serial :=
  { serial with
    numberCatId := zeroPad 2 result.cat
    numberProb := fixed 2 (hundredths result.prob) }

/-- `set_number_placeholder`, when the face shows no number. -/
def setNumberPlaceholder (serial : Serial) : Serial :=
  { serial with
    numberCatId := ascii "00"
    numberProb := ascii "0.00" }

/-- The text of a frame. -/
def frame (serial : Serial) : List UInt8 :=
  ascii "o:" ++ serial.objectCatId ++ ascii ",p:" ++ serial.objectProb ++
    ascii ",n:" ++ serial.numberCatId ++ ascii ",p:" ++ serial.numberProb

/-- `send_frame`: what the three calls of `uart.write` send. -/
def sendFrame (serial : Serial) : List (List UInt8) :=
  [ascii "[", serial.frame, ascii "]"]

/-- The placeholder is what the label 0 with probability 0 leaves. -/
theorem setNumberPlaceholder_eq (serial : Serial) :
    serial.setNumberPlaceholder = serial.setNumberResult ⟨[48], 0⟩ := by
  have hcat : ascii "00" = zeroPad 2 [48] := by decide +kernel
  have hprob : ascii "0.00" = fixed 2 (hundredths 0) := by decide +kernel
  rw [setNumberPlaceholder, setNumberResult, hcat, hprob]

end Serial

/-! ## The text of a frame -/

/-- No byte is a NUL or a delimiter. -/
def Plain (s : List UInt8) : Prop := ∀ b ∈ s, b ≠ 0 ∧ b ≠ artBufferHead ∧ b ≠ artBufferTail

instance (s : List UInt8) : Decidable (Plain s) := List.decidableBAll _ s

theorem Plain.append {s t : List UInt8} (hs : Plain s) (ht : Plain t) : Plain (s ++ t) := by
  intro b hb
  exact (List.mem_append.mp hb).elim (hs b) (ht b)

theorem plain_of_isDigits {s : List UInt8} (hs : Scanf.IsDigits s) : Plain s := by
  intro b hb
  have hrange := Scanf.isDigit_iff.mp (hs b hb)
  refine ⟨?_, ?_, ?_⟩ <;> · rintro rfl; exact absurd hrange (by decide)

theorem plain_fixed (k n : ℕ) : Plain (fixed k n) := by
  have hlow := Scanf.isDigits_zeroPad (Scanf.isDigits_decimal (n % 10 ^ k)) k
  have hpoint : Plain [46] := by decide
  have hplain := (plain_of_isDigits (Scanf.isDigits_decimal (n / 10 ^ k))).append
    (hpoint.append (plain_of_isDigits hlow))
  simpa [fixed] using hplain

/-- What `hundredths` rounds. -/
theorem floor_bounds {prob : ℚ} (h0 : 0 ≤ prob) :
    ((100 * prob).floor.toNat : ℚ) ≤ 100 * prob ∧
      100 * prob < (100 * prob).floor.toNat + 1 := by
  have hfloor : 0 ≤ (100 * prob).floor := by
    rw [Rat.le_floor_iff]
    positivity
  have hcast : ((100 * prob).floor.toNat : ℚ) = ((100 * prob).floor : ℚ) := by
    exact_mod_cast Int.toNat_of_nonneg hfloor
  rw [hcast]
  refine ⟨Rat.floor_le _, ?_⟩
  simpa using Rat.lt_floor_add_one (100 * prob)

/-- What is printed is off by half a hundredth at most. -/
theorem abs_hundredths_sub_le {prob : ℚ} (h0 : 0 ≤ prob) :
    |(hundredths prob : ℚ) / 100 - prob| ≤ 1 / 200 := by
  rcases floor_bounds h0 with ⟨hle, hlt⟩
  rw [abs_le]
  simp only [hundredths]
  split
  · -- rounded down
    rename_i h
    have hexcess : 100 * prob - (100 * prob).floor.toNat ≤ 1 / 2 :=
      h.elim le_of_lt fun h => le_of_eq h.1
    constructor <;> linarith
  · -- rounded up
    rename_i h
    have hexcess : 1 / 2 ≤ 100 * prob - (100 * prob).floor.toNat := by
      by_contra hlow
      exact h (.inl (not_le.mp hlow))
    push_cast
    constructor <;> linarith

theorem hundredths_le {prob : ℚ} (h0 : 0 ≤ prob) (h1 : prob ≤ 1) : hundredths prob ≤ 100 := by
  rcases abs_le.mp (abs_hundredths_sub_le h0) with ⟨-, hnear⟩
  have hlt : (hundredths prob : ℚ) < 101 := by linarith
  have hlt' : hundredths prob < 101 := by exact_mod_cast hlt
  omega

/-- The texts of a class index, a label, and two probabilities in hundredths. -/
def Serial.printed (catId : ℕ) (label : List UInt8) (p q : ℕ) : Serial where
  objectCatId := zeroPad 2 (decimal catId)
  objectProb := fixed 2 p
  numberCatId := zeroPad 2 label
  numberProb := fixed 2 q

section Frame

variable {catId p q : ℕ} {label : List UInt8}

theorem frame_eq (serial : Serial) :
    serial.frame = 111 :: 58 :: (serial.objectCatId ++ 44 :: 112 :: 58 :: (serial.objectProb ++
      44 :: 110 :: 58 :: (serial.numberCatId ++ 44 :: 112 :: 58 :: serial.numberProb))) := by
  have ho : ascii "o:" = [111, 58] := by decide +kernel
  have hp : ascii ",p:" = [44, 112, 58] := by decide +kernel
  have hn : ascii ",n:" = [44, 110, 58] := by decide +kernel
  simp [Serial.frame, ho, hp, hn]

theorem plain_frame (hlabel : Scanf.IsDigits label) :
    Plain (Serial.printed catId label p q).frame := by
  have ho : Plain (ascii "o:") := by decide +kernel
  have hp : Plain (ascii ",p:") := by decide +kernel
  have hn : Plain (ascii ",n:") := by decide +kernel
  have hcat := plain_of_isDigits (Scanf.isDigits_zeroPad (Scanf.isDigits_decimal catId) 2)
  have hnumber := plain_of_isDigits (Scanf.isDigits_zeroPad hlabel 2)
  exact ((((((ho.append hcat).append hp).append (plain_fixed 2 p)).append hn).append
    hnumber).append hp).append (plain_fixed 2 q)

theorem length_fixed {n : ℕ} (hn : n ≤ 100) : (fixed 2 n).length = 4 := by
  have hwhole : (decimal (n / 10 ^ 2)).length = 1 := by
    refine le_antisymm (length_decimal_le (by decide) (by omega)) ?_
    exact List.length_pos_iff.mpr (Scanf.decimal_ne_nil _)
  have hpart : (decimal (n % 10 ^ 2)).length ≤ 2 := length_decimal_le (by decide) (by omega)
  simp only [fixed, List.length_append, List.length_cons, length_zeroPad, hwhole]
  omega

theorem length_frame (hcat : catId ≤ 99) (hlabel : label.length ≤ 2) (hp : p ≤ 100)
    (hq : q ≤ 100) : (Serial.printed catId label p q).frame.length = 23 := by
  have hdecimal : (decimal catId).length ≤ 2 := length_decimal_le (by decide) (by omega)
  simp only [frame_eq, Serial.printed, List.length_cons, List.length_append, length_zeroPad,
    length_fixed hp, length_fixed hq]
  omega

/-- The four conversions of the receiver, in turn. -/
theorem scan_frame (hlabel : Scanf.IsDigits label) (hne : label ≠ []) :
    Scanf.scan artFormat (Serial.printed catId label p q).frame =
      [.int catId, .real (.fin ((p : ℚ) / 10 ^ 2)), .int (Scanf.number 10 label),
        .real (.fin ((q : ℚ) / 10 ^ 2))] := by
  -- a conversion stops at the comma that follows it
  have hcomma : ∀ rest, Scanf.Stop (44 :: rest) := by
    intro rest c hc
    rw [← Option.mem_some_iff.mp hc]
    decide
  have hend : Scanf.Stop [] := by decide
  have hcat := Scanf.isDigits_zeroPad (Scanf.isDigits_decimal catId) 2
  have hnumber := Scanf.isDigits_zeroPad hlabel 2
  have hlast : Scanf.scan [.f] (fixed 2 q ++ []) = [.real (.fin ((q : ℚ) / 10 ^ 2))] :=
    Scanf.scan_f (by decide) q hend
  rw [List.append_nil] at hlast
  simp only [frame_eq, Serial.printed, artFormat, Scanf.scan_lit]
  rw [Scanf.scan_u hcat (Scanf.zeroPad_ne_nil (Scanf.decimal_ne_nil _) 2) (hcomma _)]
  simp only [Scanf.scan_lit]
  rw [Scanf.scan_f (by decide) p (hcomma _)]
  simp only [Scanf.scan_lit]
  rw [Scanf.scan_d hnumber (Scanf.zeroPad_ne_nil hne 2) (hcomma _)]
  simp only [Scanf.scan_lit]
  rw [hlast, Scanf.number_zeroPad, Scanf.number_zeroPad, Scanf.number_decimal]

end Frame

/-! ## The receiver -/

/-- A frame is being received: its head and the bytes of `p` have come. -/
structure Receiving (p : List UInt8) (s : State) : Prop where
  init : s.artInitFlag = true
  idle : s.artDataRecvFinishFlag = false
  index : s.artUartFifoIndex = p.length
  stored : stored s = p

/-- The head begins a frame at every index. At 63 it is lost in the wrap, which also
leaves the index at 0. -/
theorem receiving_head {s : State} (hinit : s.artInitFlag = true)
    (hidle : s.artDataRecvFinishFlag = false) (hi : s.artUartFifoIndex ≤ 63) :
    Receiving [] (artReceiveDataCallback s artBufferHead) := by
  rcases Nat.lt_or_eq_of_le hi with hlt | heq
  · rw [artReceiveDataCallback_idle hinit hidle hlt, if_neg (by decide), if_pos rfl]
    exact ⟨hinit, rfl, rfl, by simp [Art.stored]⟩
  · rw [artReceiveDataCallback_wrap heq]
    exact ⟨hinit, hidle, rfl, by simp [Art.stored]⟩

theorem receiving_byte {p : List UInt8} {s : State} (h : Receiving p s) (hroom : p.length < 63)
    {b : UInt8} (hhead : b ≠ artBufferHead) (htail : b ≠ artBufferTail) :
    Receiving (p ++ [b]) (artReceiveDataCallback s b) := by
  have hi : s.artUartFifoIndex < 63 := by rw [h.index]; exact hroom
  rw [artReceiveDataCallback_idle h.init h.idle hi, if_neg htail, if_neg hhead]
  refine ⟨h.init, h.idle, ?_, ?_⟩
  · simp [accepted, h.index]
  · rw [stored_accepted (by omega), h.stored]

theorem receiving_text {p text : List UInt8} {s : State} (h : Receiving p s)
    (hplain : Plain text) (hroom : p.length + text.length ≤ 63) :
    Receiving (p ++ text) (run step s (text.map .byte)) := by
  induction text generalizing p s with
  | nil => simpa [run] using h
  | cons b text ih =>
    rw [List.length_cons] at hroom
    rcases hplain b (by simp) with ⟨-, hhead, htail⟩
    have hb := receiving_byte h (by omega) hhead htail
    rw [List.map_cons, run_cons, List.append_cons]
    refine ih hb (fun c hc => hplain c (by simp [hc])) ?_
    rw [List.length_append, List.length_singleton]
    omega

/-- The tail raises the flag, and what has come before it is parsed. -/
theorem receiving_tail {p : List UInt8} {s : State} (h : Receiving p s) (hroom : p.length < 63)
    (hplain : Plain p) :
    (artReceiveDataCallback s artBufferTail).artInitFlag = true ∧
      (artReceiveDataCallback s artBufferTail).artDataRecvFinishFlag = true ∧
      parsedText (artReceiveDataCallback s artBufferTail) = p := by
  have hi : s.artUartFifoIndex < 63 := by rw [h.index]; exact hroom
  have hzero : (0 : UInt8) ∉ p := fun h0 => (hplain 0 h0).1 rfl
  have hstored := stored_accepted (show s.artUartFifoIndex < 64 by omega) artBufferTail
  rw [h.stored] at hstored
  rw [artReceiveDataCallback_idle h.init h.idle hi, if_pos rfl]
  refine ⟨h.init, rfl, parsedText_of_stored hzero hstored ?_⟩
  simp [accepted, h.index]

/-- A frame of plain text, from the head to the handler's call. -/
theorem receive_frame {s : State} (hinit : s.artInitFlag = true)
    (hidle : s.artDataRecvFinishFlag = false) (hi : s.artUartFifoIndex ≤ 63) {serial : Serial}
    (hplain : Plain serial.frame) (hroom : serial.frame.length < 63) :
    ∃ s', s'.artInitFlag = true ∧ s'.artDataRecvFinishFlag = true ∧
      parsedText s' = serial.frame ∧
      run step s (serial.sendFrame.flatten.map .byte ++ [.pit]) = artCubeDataHandlePitCall s' := by
  have hhead : ascii "[" = [artBufferHead] := by decide +kernel
  have htail : ascii "]" = [artBufferTail] := by decide +kernel
  have hevents : serial.sendFrame.flatten.map Event.byte =
      (.byte artBufferHead :: serial.frame.map .byte) ++ [.byte artBufferTail] := by
    simp [Serial.sendFrame, hhead, htail]
  have htext := receiving_text (receiving_head hinit hidle hi) hplain
    (by rw [List.length_nil]; omega)
  rcases receiving_tail htext hroom hplain with ⟨hinit', hpending, hparsed⟩
  refine ⟨_, hinit', hpending, hparsed, ?_⟩
  rw [run_concat, hevents, run_concat, run_cons]
  rfl

theorem store_artArgs (info : CubeFaceInfo) (cls number : ℤ) (x y : Scanf.Real) :
    Scanf.store artArgs [.int cls, .real x, .int number, .real y] info =
      { info with
        cls := .ofInt cls
        classProb := ⟨x, none⟩
        number := .ofInt number
        numberProb := y } :=
  rfl

/-! ## The round trip -/

/-- The receiver holds what has been printed, and waits for the next frame. -/
structure Decoded (catId : ℕ) (label : List UInt8) (p q : ℚ) (s : State) : Prop where
  valid : s.currentCubeFaceInfo.valid = true
  cls : s.currentCubeFaceInfo.cls.toNat = catId
  classProb : s.currentCubeFaceInfo.classProb = ⟨.fin (hundredths p / 100), none⟩
  number : s.currentCubeFaceInfo.number.toNat = Scanf.number 10 label
  numberProb : s.currentCubeFaceInfo.numberProb = .fin (hundredths q / 100)
  idle : s.artDataRecvFinishFlag = false
  index : s.artUartFifoIndex = 0

theorem decoded_of_parsed {catId : ℕ} {label : List UInt8} {p q : ℚ} {s : State}
    (hinit : s.artInitFlag = true) (hpending : s.artDataRecvFinishFlag = true)
    (hparsed : parsedText s =
      (Serial.printed catId label (hundredths p) (hundredths q)).frame)
    (hcat : catId ≤ 99) (hlabel : Scanf.IsDigits label) (hne : label ≠ [])
    (hlen : label.length ≤ 2) :
    Decoded catId label p q (artCubeDataHandlePitCall s) := by
  have hnumber : Scanf.number 10 label < 10 ^ 2 :=
    lt_of_lt_of_le (Scanf.number_lt hlabel) (Nat.pow_le_pow_right (by decide) hlen)
  rw [artCubeDataHandlePitCall, if_neg (by simp [hinit, hpending]), hparsed,
    scan_frame hlabel hne, store_artArgs]
  refine ⟨rfl, ?_, ?_, ?_, ?_, rfl, rfl⟩
  · change (UInt8.ofInt (catId : ℤ)).toNat = catId
    rw [UInt8.ofInt, UInt8.toNat_ofNat']
    omega
  · norm_num
  · change (UInt8.ofInt (Scanf.number 10 label : ℤ)).toNat = _
    rw [UInt8.ofInt, UInt8.toNat_ofNat']
    omega
  · norm_num

/-- Every face that is reported is decoded, wherever the receiver's index stands. -/
theorem report_decoded (labelsObject : List (List UInt8)) (object number : Result) (catId : ℕ)
    (hcat : labelsObject.idxOf? object.cat = some catId) (hcat99 : catId ≤ 99)
    (hlabel : Scanf.IsDigits number.cat)
    (hlen : number.cat.length = 1 ∨ number.cat.length = 2)
    (hp0 : 0 ≤ object.prob) (hp1 : object.prob ≤ 1)
    (hq0 : 0 ≤ number.prob) (hq1 : number.prob ≤ 1)
    (s : State) (hinit : s.artInitFlag = true) (hidle : s.artDataRecvFinishFlag = false)
    (hi : s.artUartFifoIndex ≤ 63) (serial : Serial) :
    ∃ serial', serial.setObjectResult labelsObject object = some serial' ∧
      Decoded catId number.cat object.prob number.prob
        (run step s
          ((serial'.setNumberResult number).sendFrame.flatten.map .byte ++ [.pit])) := by
  have hset : serial.setObjectResult labelsObject object = some
      { serial with
        objectCatId := zeroPad 2 (decimal catId)
        objectProb := fixed 2 (hundredths object.prob) } := by
    rw [Serial.setObjectResult, hcat, Option.map_some]
  refine ⟨_, hset, ?_⟩
  change Decoded _ _ _ _ (run step s ((Serial.printed catId number.cat (hundredths object.prob)
    (hundredths number.prob)).sendFrame.flatten.map .byte ++ [.pit]))
  have hlen2 : number.cat.length ≤ 2 := by omega
  have hne : number.cat ≠ [] := by
    intro h
    simp [h] at hlen
  have hlength := length_frame hcat99 hlen2 (hundredths_le hp0 hp1) (hundredths_le hq0 hq1)
  rcases receive_frame hinit hidle hi (plain_frame hlabel) (by rw [hlength]; decide) with
    ⟨s', hinit', hpending, hparsed, hrun⟩
  rw [hrun]
  exact decoded_of_parsed hinit' hpending hparsed hcat99 hlabel hne hlen2

/-- A seven, reported to a receiver whose next byte wraps the index. -/
theorem report_decoded_seven :
    ∃ serial',
      (Serial.printed 0 [] 0 0).setObjectResult [ascii "mouse", ascii "number"]
        ⟨ascii "number", 1⟩ = some serial' ∧
      Decoded 1 [55] 1 (1 / 2)
        (run step { start with artUartFifoIndex := 63 }
          ((serial'.setNumberResult ⟨[55], 1 / 2⟩).sendFrame.flatten.map .byte ++ [.pit])) :=
  report_decoded [ascii "mouse", ascii "number"] ⟨ascii "number", 1⟩ ⟨[55], 1 / 2⟩ 1
    (by decide +kernel) (by decide) (by decide) (by decide) (by norm_num) (by norm_num)
    (by norm_num) (by norm_num) { start with artUartFifoIndex := 63 } rfl rfl (by decide) _

end SmartCar.Art

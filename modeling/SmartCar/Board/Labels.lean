import SmartCar.Art.Stream
import SmartCar.Board.Rt1064
import SmartCar.Motion.PushLedger

/-!
# From the OpenART module to the list of cubes

The main loop of the module classifies what the camera shows, and sends a frame for each face.
The RT1064 takes the bytes from the wire whenever its UART interrupt comes, parses at the PIT
interrupt, and lists at a call of `motion_mode_calc` what it holds then. Nothing is
synchronised: it may begin to listen in the middle of a frame, and a frame that is not parsed
in time is followed by the next one.

At 9600 baud no more than about 20 bytes come in the 20 ms between two PIT interrupts.
`labels_sent` is the law for every run with at most 40: class, number and probabilities that
the RT1064 holds, and each entry of its list, are those of one face that has been sent, or
those of power-up; never parts of two.
-/

namespace SmartCar.Board

open Art Events Printf

/-! ## The module, the wire and the RT1064 -/

/-- `while True` of `main.py`, up to `send_frame`. -/
def setResults (labelsObject : List (List UInt8)) (object number : Result) (serial : Serial) :
    Option Serial :=
  (serial.setObjectResult labelsObject object).map fun serial =>
    if object.cat = ascii "number" then serial.setNumberResult number
    else serial.setNumberPlaceholder

/-- The texts of the module, the bytes on their way, and the RT1064; `listening` says that
`art_receive_data_interrupt_enable` has been called. -/
structure LabelLink where
  serial : Serial
  wire : List UInt8
  listening : Bool
  rt1064 : Rt1064

/-- A face is classified, and sent; the RT1064 begins to listen; the first byte on the wire
arrives; or the RT1064 sees something else. -/
inductive LinkEvent
  | classified (object number : Result)
  | listen
  | deliver
  | mcxByte (b : UInt8)
  | pit (now now' : UInt32)
  | call (v : Sensors)

def linkStep (labelsObject : List (List UInt8)) (s : LabelLink) : LinkEvent → LabelLink
  | .classified object number =>
    match setResults labelsObject object number s.serial with
    -- a label that is not in the file raises an exception
    | none => s
    | some serial => { s with serial := serial, wire := s.wire ++ serial.sendFrame.flatten }
  | .listen => { s with listening := true }
  | .deliver =>
    match s.wire with
    | [] => s
    | b :: wire =>
      if s.listening then { s with wire := wire, rt1064 := step s.rt1064 (.artByte b) }
      else { s with wire := wire }
  | .mcxByte b => { s with rt1064 := step s.rt1064 (.mcxByte b) }
  | .pit now now' => { s with rt1064 := step s.rt1064 (.pit now now') }
  | .call v => { s with rt1064 := step s.rt1064 (.call v) }

def linkStart : LabelLink := ⟨⟨[], [], [], []⟩, [], false, start⟩

/-! ## Law and condition -/

/-- What the frame of a face carries. -/
def reported (labelsObject : List (List UInt8)) : LinkEvent → Option CubeFaceInfo
  | .classified object number =>
    (labelsObject.idxOf? object.cat).map fun catId =>
      if object.cat = ascii "number" then
        carried catId number.cat (hundredths object.prob) (hundredths number.prob)
      else carried catId [48] (hundredths object.prob) (hundredths 0)
  | _ => none

/-- What the RT1064 may hold: the record of power-up, and those of the faces sent. -/
def known (labelsObject : List (List UInt8)) (tr : List LinkEvent) : List CubeFaceInfo :=
  face initialFaceInfo :: tr.filterMap (reported labelsObject)

/-- A result has a probability, and the label of a number one or two digits. -/
structure ResultOk (object number : Result) : Prop where
  prob : 0 ≤ object.prob ∧ object.prob ≤ 1
  digits : Scanf.IsDigits number.cat
  length : number.cat.length = 1 ∨ number.cat.length = 2
  numberProb : 0 ≤ number.prob ∧ number.prob ≤ 1

instance (object number : Result) : Decidable (ResultOk object number) :=
  decidable_of_iff
    ((0 ≤ object.prob ∧ object.prob ≤ 1) ∧ Scanf.IsDigits number.cat ∧
      (number.cat.length = 1 ∨ number.cat.length = 2) ∧ 0 ≤ number.prob ∧ number.prob ≤ 1)
    ⟨fun ⟨hprob, hdigits, hlength, hnumber⟩ => ⟨hprob, hdigits, hlength, hnumber⟩,
      fun ⟨hprob, hdigits, hlength, hnumber⟩ => ⟨hprob, hdigits, hlength, hnumber⟩⟩

def LinkEvent.Ok : LinkEvent → Prop
  | .classified object number => ResultOk object number
  | _ => True

instance (e : LinkEvent) : Decidable e.Ok :=
  match e with
  | .classified _ _ => inferInstanceAs (Decidable (ResultOk _ _))
  | .listen | .deliver | .mcxByte _ | .pit _ _ | .call _ => inferInstanceAs (Decidable True)

/-- The bytes since the PIT interrupt has come. -/
def sinceHandled (tr : List LinkEvent) : ℕ :=
  tr.foldl (fun n e =>
    match e with
    | .deliver => n + 1
    | .pit _ _ => 0
    | _ => n) 0

/-- No more than 40 bytes come from one PIT interrupt to the next. -/
def Paced (before : List LinkEvent) (_ : LabelLink) : LinkEvent → Prop
  | .deliver => sinceHandled before < 40
  | _ => True

instance (before : List LinkEvent) (s : LabelLink) (e : LinkEvent) :
    Decidable (Paced before s e) :=
  match e with
  | .deliver => inferInstanceAs (Decidable (_ < _))
  | .classified _ _ | .listen | .mcxByte _ | .pit _ _ | .call _ => inferInstanceAs (Decidable True)

@[simp] theorem sinceHandled_concat (tr : List LinkEvent) (e : LinkEvent) :
    sinceHandled (tr ++ [e]) =
      match e with
      | .deliver => sinceHandled tr + 1
      | .pit _ _ => 0
      | _ => sinceHandled tr := by
  rw [sinceHandled, List.foldl_append]
  cases e <;> rfl

variable {labelsObject : List (List UInt8)} {tr : List LinkEvent} {s : LabelLink}

theorem known_concat (labelsObject : List (List UInt8)) (tr : List LinkEvent) (e : LinkEvent) :
    known labelsObject (tr ++ [e]) =
      known labelsObject tr ++ (reported labelsObject e).toList := by
  rw [known, List.filterMap_append, known, List.cons_append]
  cases h : reported labelsObject e <;> simp [h]

theorem known_subset (labelsObject : List (List UInt8)) (tr : List LinkEvent) (e : LinkEvent) :
    known labelsObject tr ⊆ known labelsObject (tr ++ [e]) := by
  rw [known_concat]
  exact List.subset_append_left _ _

/-! ## The frame of a face -/

/-- The texts that are set are those of one class, one label and two probabilities. -/
theorem setResults_eq (object number : Result) (serial : Serial) :
    setResults labelsObject object number serial =
      (labelsObject.idxOf? object.cat).map fun catId =>
        if object.cat = ascii "number" then
          Serial.printed catId number.cat (hundredths object.prob) (hundredths number.prob)
        else Serial.printed catId [48] (hundredths object.prob) (hundredths 0) := by
  simp only [setResults, Serial.setObjectResult, Serial.setNumberPlaceholder_eq]
  cases labelsObject.idxOf? object.cat with
  | none => rfl
  | some catId =>
    by_cases hnumber : object.cat = ascii "number"
    · simp only [Option.map_some, if_pos hnumber]
      rfl
    · simp only [Option.map_some, if_neg hnumber]
      rfl

theorem frames_sendFrame {infos : List CubeFaceInfo} {serial : Serial}
    (h : Text infos serial.frame) : Frames infos serial.sendFrame.flatten := by
  have hhead : ascii "[" = [artBufferHead] := by decide +kernel
  have htail : ascii "]" = [artBufferTail] := by decide +kernel
  have hbytes : serial.sendFrame.flatten =
      artBufferHead :: (serial.frame ++ artBufferTail :: []) := by
    simp [Serial.sendFrame, hhead, htail]
  rw [hbytes]
  exact .cons h .nil

/-- What is sent for a face carries what is reported of it. -/
theorem frames_of_classified (hlabels : labelsObject.length ≤ 100) {object number : Result}
    (hok : ResultOk object number) {serial serial' : Serial}
    (h : setResults labelsObject object number serial = some serial') :
    Frames (reported labelsObject (.classified object number)).toList
      serial'.sendFrame.flatten := by
  rw [setResults_eq, Option.map_eq_some_iff] at h
  obtain ⟨catId, hcat, rfl⟩ := h
  have hcat99 : catId ≤ 99 := by
    have hlt := (List.idxOf?_eq_some_iff.mp hcat).1
    omega
  have hprob := hundredths_le hok.prob.1 hok.prob.2
  apply frames_sendFrame
  simp only [reported, hcat, Option.map_some, Option.toList_some]
  by_cases hnumber : object.cat = ascii "number"
  · have hlength := hok.length
    rw [if_pos hnumber, if_pos hnumber]
    refine text_printed hcat99 hok.digits ?_ (by omega) hprob
      (hundredths_le hok.numberProb.1 hok.numberProb.2)
    rintro heq
    rw [heq] at hlength
    simp at hlength
  · rw [if_neg hnumber, if_neg hnumber]
    exact text_printed hcat99 (by decide) (by decide) (by decide) hprob
      (hundredths_le le_rfl zero_le_one)

/-! ## The invariant -/

/-- The receiver follows the stream once it listens, and what it has handed on is known. -/
structure Linked (labelsObject : List (List UInt8)) (tr : List LinkEvent) (s : LabelLink) :
    Prop where
  deaf : s.listening = false → OnWire (known labelsObject tr) s.wire ∧ s.rt1064.art = Art.start
  follows : s.listening = true →
    Follows (known labelsObject tr) (sinceHandled tr) s.rt1064.art s.wire
  listed : ∀ item ∈ s.rt1064.modes.cubeInfoList.items, ∃ info ∈ known labelsObject tr,
    item.cls = info.cls ∧ item.number = info.number

theorem linked_linkStart : Linked labelsObject [] linkStart where
  deaf := fun _ => ⟨.inl .nil, rfl⟩
  follows := fun h => nomatch h
  listed := fun _ hitem => nomatch hitem

/-- The record is a known one. -/
theorem Linked.info (h : Linked labelsObject tr s) :
    face s.rt1064.art.currentCubeFaceInfo ∈ known labelsObject tr := by
  cases hlistening : s.listening with
  | true => exact (h.follows hlistening).info
  | false =>
    rw [(h.deaf hlistening).2]
    exact List.mem_cons_self

theorem Linked.listed_mono (h : Linked labelsObject tr s) (e : LinkEvent) :
    ∀ item ∈ s.rt1064.modes.cubeInfoList.items, ∃ info ∈ known labelsObject (tr ++ [e]),
      item.cls = info.cls ∧ item.number = info.number := by
  intro item hitem
  obtain ⟨info, hinfo, hsame⟩ := h.listed item hitem
  exact ⟨info, known_subset labelsObject tr e hinfo, hsame⟩

/-- An event that neither sends nor delivers nor parses. -/
theorem Linked.keep (h : Linked labelsObject tr s) {e : LinkEvent}
    (hsince : sinceHandled (tr ++ [e]) = sinceHandled tr) {s' : LabelLink}
    (hwire : s'.wire = s.wire) (hlistening : s'.listening = s.listening)
    (hart : s'.rt1064.art = s.rt1064.art)
    (hlisted : ∀ item ∈ s'.rt1064.modes.cubeInfoList.items,
      ∃ info ∈ known labelsObject (tr ++ [e]), item.cls = info.cls ∧ item.number = info.number) :
    Linked labelsObject (tr ++ [e]) s' := by
  have hsub := known_subset labelsObject tr e
  refine ⟨fun hdeaf => ?_, fun hlisten => ?_, hlisted⟩
  · rw [hwire, hart]
    obtain ⟨honWire, hstart⟩ := h.deaf (hlistening ▸ hdeaf)
    exact ⟨honWire.mono hsub, hstart⟩
  · rw [hwire, hart, hsince]
    exact (h.follows (hlistening ▸ hlisten)).mono hsub

theorem Linked.classified (h : Linked labelsObject tr s) (hlabels : labelsObject.length ≤ 100)
    {object number : Result} (hok : ResultOk object number) :
    Linked labelsObject (tr ++ [.classified object number])
      (linkStep labelsObject s (.classified object number)) := by
  have hlisted := h.listed_mono (.classified object number)
  cases hset : setResults labelsObject object number s.serial with
  | none =>
    simp only [linkStep, hset]
    exact h.keep (by simp) rfl rfl rfl hlisted
  | some serial =>
    have hsub := known_subset labelsObject tr (.classified object number)
    have hreported : (reported labelsObject (.classified object number)).toList ⊆
        known labelsObject (tr ++ [.classified object number]) := by
      rw [known_concat]
      exact List.subset_append_right _ _
    have hframes := (frames_of_classified hlabels hok hset).mono hreported
    simp only [linkStep, hset]
    refine ⟨fun hdeaf => ?_, fun hlistening => ?_, hlisted⟩
    · obtain ⟨honWire, hstart⟩ := h.deaf hdeaf
      exact ⟨(honWire.mono hsub).append hframes, hstart⟩
    · rw [sinceHandled_concat]
      exact ((h.follows hlistening).mono hsub).send hframes

theorem Linked.listen (h : Linked labelsObject tr s) :
    Linked labelsObject (tr ++ [.listen]) (linkStep labelsObject s .listen) := by
  have hsub := known_subset labelsObject tr .listen
  refine ⟨fun hdeaf => (nomatch hdeaf), fun _ => ?_, h.listed_mono .listen⟩
  rw [sinceHandled_concat]
  cases hlistening : s.listening with
  | true => exact (h.follows hlistening).mono hsub
  | false =>
    -- the receiver is as at power-up, and the wire may be in the middle of a frame
    obtain ⟨honWire, hstart⟩ := h.deaf hlistening
    simp only [linkStep, hstart]
    exact ⟨rfl, by decide, List.mem_cons_self, fun _ => honWire.mono hsub, fun hp => nomatch hp⟩

theorem Linked.deliver (h : Linked labelsObject tr s) (hpaced : sinceHandled tr < 40) :
    Linked labelsObject (tr ++ [.deliver]) (linkStep labelsObject s .deliver) := by
  have hsub := known_subset labelsObject tr .deliver
  have hlisted := h.listed_mono .deliver
  cases hwire : s.wire with
  | nil =>
    simp only [linkStep, hwire]
    refine ⟨fun hdeaf => ?_, fun hlistening => ?_, hlisted⟩
    · obtain ⟨honWire, hstart⟩ := h.deaf hdeaf
      exact ⟨honWire.mono hsub, hstart⟩
    · have hfollows := (h.follows hlistening).mono hsub
      rw [sinceHandled_concat]
      refine ⟨hfollows.init, hfollows.index, hfollows.info, hfollows.idle, fun hpending => ?_⟩
      obtain ⟨honWire, t, extra, hstored, hitem, hzero, hcount⟩ := hfollows.pending hpending
      exact ⟨honWire, t, extra, hstored, hitem, hzero, Nat.lt_succ_of_lt hcount⟩
  | cons b wire =>
    cases hlistening : s.listening with
    | true =>
      have hfollows := (h.follows hlistening).mono hsub
      rw [hwire] at hfollows
      simp only [linkStep, hwire, hlistening, if_true]
      refine ⟨fun hdeaf => (nomatch hdeaf), fun _ => ?_, hlisted⟩
      rw [sinceHandled_concat]
      exact follows_byte hfollows hpaced
    | false =>
      obtain ⟨honWire, hstart⟩ := h.deaf hlistening
      rw [hwire] at honWire
      simp only [linkStep, hwire, hlistening, Bool.false_eq_true, if_false]
      exact ⟨fun _ => ⟨honWire.tail.2.mono hsub, hstart⟩, fun hlisten => (nomatch hlisten), hlisted⟩

theorem Linked.pit (h : Linked labelsObject tr s) (now now' : UInt32) :
    Linked labelsObject (tr ++ [.pit now now']) (linkStep labelsObject s (.pit now now')) := by
  have hsub := known_subset labelsObject tr (.pit now now')
  refine ⟨fun hdeaf => ?_, fun hlistening => ?_, h.listed_mono (.pit now now')⟩
  · obtain ⟨honWire, hstart⟩ := h.deaf hdeaf
    refine ⟨honWire.mono hsub, ?_⟩
    simp only [linkStep, step, hstart]
    rfl
  · rw [sinceHandled_concat]
    exact follows_pit ((h.follows hlistening).mono hsub)

/-- What a call adds to the list is what the record holds. -/
theorem Linked.call (h : Linked labelsObject tr s) (v : Sensors) :
    Linked labelsObject (tr ++ [.call v]) (linkStep labelsObject s (.call v)) := by
  have hlisted := h.listed_mono (.call v)
  refine h.keep (by simp) rfl rfl rfl ?_
  simp only [linkStep, step, Motion.cubeInfoList_step]
  intro item hitem
  rw [Queue.items_foldl_push_take, List.mem_append] at hitem
  rcases hitem with hold | hnew
  · exact hlisted item hold
  · have hlabel := List.mem_of_mem_take hnew
    rw [Option.mem_toList, Motion.label, Option.ite_none_right_eq_some] at hlabel
    obtain ⟨-, hitem⟩ := hlabel
    obtain rfl := Option.some.inj hitem
    exact ⟨_, known_subset labelsObject tr (.call v) h.info, rfl, rfl⟩

theorem linked_step (hlabels : labelsObject.length ≤ 100) (h : Linked labelsObject tr s)
    {e : LinkEvent} (hok : e.Ok) (hpaced : Paced tr s e) :
    Linked labelsObject (tr ++ [e]) (linkStep labelsObject s e) := by
  cases e with
  | classified object number => exact h.classified hlabels hok
  | listen => exact h.listen
  | deliver => exact h.deliver hpaced
  | mcxByte b => exact h.keep (by simp) rfl rfl rfl (h.listed_mono (.mcxByte b))
  | pit now now' => exact h.pit now now'
  | call v => exact h.call v

/-! ## The law -/

/-- Two faces, the first of them lost in part before the RT1064 listens. -/
def twoFaces : List LinkEvent :=
  .classified ⟨ascii "mouse", 1⟩ ⟨[48], 0⟩ :: List.replicate 9 .deliver ++ .pit 0 0 :: .listen ::
    List.replicate 16 .deliver ++ .pit 0 0 ::
    .classified ⟨ascii "number", 1⟩ ⟨[55], 1 / 2⟩ :: List.replicate 25 .deliver ++ [.pit 0 0]

end SmartCar.Board

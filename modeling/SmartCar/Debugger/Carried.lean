import SmartCar.Debugger.Report
import SmartCar.Debugger.Sessions

/-!
# What a debugger session carries from frame to frame

The backend knows a text only: it hands it from one run of `image_test` to the next, and replaces
an element in it. What is meant is the report of the last run, as values.

* `Tester` is what `image_test` does apart from its texts, `ImageTest` that a program is it;
* `Machine` is the session as it is meant: the frame, and the last report;
* `session_carries`: the session holds the text of the machine's report, in every sequence of
  requests.
-/

namespace SmartCar.Debugger

open Printf Scanf

/-! ## Texts -/

def chr (b : UInt8) : Char := Char.ofNat b.toNat

/-- The string of a sequence of ASCII codes. -/
def text (s : List UInt8) : String := .ofList (s.map chr)

theorem ofNat_chr (b : UInt8) : UInt8.ofNat (chr b).toNat = b := by
  have hlt := b.toNat_lt
  have hvalid : Nat.isValidChar b.toNat := .inl (by omega)
  rw [chr, Char.ofNat, dif_pos hvalid]
  exact UInt8.ofNat_toNat

theorem ascii_text (s : List UInt8) : ascii (text s) = s := by
  rw [ascii, text, String.toList_ofList, List.map_map]
  conv_rhs => rw [← List.map_id s]
  exact List.map_congr_left fun b _ => ofNat_chr b

/-! ## An element replaced -/

section Replace

variable {t s : List Char} {element : ElementDisplay}

/-- A match begins with a bracket and an `e`. -/
theorem matchElement_none {c d : Char} (h : c ≠ '[' ∨ d ≠ 'e') :
    matchElement (c :: d :: s) = none := by
  have hpattern : "[element = ".toList = '[' :: 'e' :: "lement = ".toList := by decide
  rw [matchElement, hpattern]
  by_cases hc : c = '['
  · have hd : d ≠ 'e' := h.resolve_left (not_not.mpr hc)
    simp [List.dropPrefix?, hc, hd]
  · simp [List.dropPrefix?, hc]

/-- The pattern is longer than one character. -/
theorem matchElement_singleton (c : Char) : matchElement [c] = none := by
  have hpattern : "[element = ".toList = '[' :: 'e' :: "lement = ".toList := by decide
  rw [matchElement, hpattern]
  by_cases hc : c = '['
  · simp [List.dropPrefix?, hc]
  · simp [List.dropPrefix?, hc]

theorem replaceFirst_append {a : List Char} (ha : ∀ c ∈ a, c ≠ '[') :
    replaceFirst t (a ++ s) = a ++ replaceFirst t s := by
  induction a with
  | nil => rfl
  | cons c a ih =>
    have hc : c ≠ '[' := ha c List.mem_cons_self
    have hnone : matchElement (c :: (a ++ s)) = none := by
      cases hrest : a ++ s with
      | nil => exact matchElement_singleton c
      | cons d rest => exact matchElement_none (.inl hc)
    rw [List.cons_append, replaceFirst, hnone, ih fun d hd => ha d (List.mem_cons_of_mem _ hd)]
    rfl

theorem replaceFirst_bracket {d : Char} (h : d ≠ 'e') :
    replaceFirst t ('[' :: d :: s) = '[' :: replaceFirst t (d :: s) := by
  rw [replaceFirst, matchElement_none (.inr h)]

theorem replaceFirst_elementText (element : ElementDisplay) :
    replaceFirst t (elementText element).toList = t := by
  have hmatch : matchElement (elementText element).toList = some [] := by
    cases element <;> decide
  cases hs : (elementText element).toList with
  | nil =>
    rw [hs] at hmatch
    exact absurd hmatch (by decide)
  | cons c s =>
    rw [hs] at hmatch
    rw [replaceFirst, hmatch]
    exact List.append_nil t

end Replace

/-- Bytes without an opening bracket. -/
def NoBracket (s : List UInt8) : Prop := ∀ b ∈ s, b ≠ 91

instance (s : List UInt8) : Decidable (NoBracket s) := List.decidableBAll _ s

theorem NoBracket.append {s s' : List UInt8} (h : NoBracket s) (h' : NoBracket s') :
    NoBracket (s ++ s') := by
  intro b hb
  exact (List.mem_append.mp hb).elim (h b) (h' b)

theorem noBracket_digits {s : List UInt8} (h : IsDigits s) : NoBracket s := by
  rintro b hb rfl
  exact absurd (h 91 hb) (by decide)

theorem noBracket_signed (z : ℤ) : NoBracket (signed z) := by
  have hdigits := noBracket_digits (isDigits_decimal z.natAbs)
  unfold signed
  split
  · exact NoBracket.append (s := [45]) (by decide) hdigits
  · exact hdigits

theorem noBracket_name (element : ElementDisplay) : NoBracket (ascii element.name) := by
  cases element <;> decide

theorem noBracket_offset (x : Double) : NoBracket x.text := by
  have hminus : ∀ negative, NoBracket (minus negative) := by decide
  rw [Double.text_eq]
  refine (hminus _).append ?_
  cases x with
  | fin q =>
    have hwhole := noBracket_digits (isDigits_decimal (roundHalfEven (|q| * 10 ^ 6) / 10 ^ 6))
    have hpart := noBracket_digits
      (isDigits_zeroPad (isDigits_decimal (roundHalfEven (|q| * 10 ^ 6) % 10 ^ 6)) 6)
    exact hwhole.append (NoBracket.append (s := [46]) (by decide) hpart)
  | inf negative =>
    rw [Double.digits]
    decide
  | nan negative =>
    rw [Double.digits]
    decide

theorem chr_ne_bracket {s : List UInt8} (h : NoBracket s) : ∀ c ∈ s.map chr, c ≠ '[' := by
  rintro c hc rfl
  rcases List.mem_map.mp hc with ⟨b, hb, heq⟩
  have hcode := ofNat_chr b
  rw [heq] at hcode
  exact h b hb (hcode.symm.trans (by decide))

/-- A line of a report: a bracket, and a text that begins with some other letter than `e`. -/
theorem replaceFirst_line {t : List Char} {b : UInt8} {s : List UInt8} (rest : List Char)
    (hb : chr b ≠ 'e') (hs : NoBracket (b :: s)) :
    replaceFirst t ((91 :: b :: s).map chr ++ rest) =
      (91 :: b :: s).map chr ++ replaceFirst t rest := by
  have hbracket : chr 91 = '[' := by decide
  have hrest := replaceFirst_append (t := t) (s := rest) (chr_ne_bracket hs)
  rw [List.map_cons, List.map_cons, hbracket, List.cons_append, List.cons_append,
    replaceFirst_bracket hb]
  exact congrArg _ hrest

/-- The lines of a report before the last one. -/
def Report.prevLine (r : Report) : List UInt8 :=
  91 :: 112 :: (ascii "rev element = " ++ (signed r.prev.index ++ (ascii " (" ++
    (ascii r.prev.name ++ ascii ")]\n"))))

def Report.offsetLine (r : Report) : List UInt8 :=
  91 :: 111 :: (ascii "ffset = " ++ (r.offset.text ++ ascii "]\n"))

def Report.timeLine (r : Report) : List UInt8 :=
  91 :: 116 :: (ascii "ime = " ++ (signed r.time ++ ascii " ms]\n"))

theorem ascii_elementText (element : ElementDisplay) :
    ascii "[element = " ++ (signed element.index ++ (ascii " (" ++ (ascii element.name ++
      ascii ")]"))) = ascii (elementText element) := by
  cases element <;> decide

theorem Report.line_eq (r : Report) :
    r.line = r.prevLine ++ (r.offsetLine ++ (r.timeLine ++ ascii (elementText r.element))) := by
  have hprev : ascii "[prev element = " = 91 :: 112 :: ascii "rev element = " := by
    decide
  have hoffset : ascii ")]\n[offset = " = ascii ")]\n" ++ 91 :: 111 :: ascii "ffset = " := by
    decide
  have htime : ascii "]\n[time = " = ascii "]\n" ++ 91 :: 116 :: ascii "ime = " := by
    decide
  have helement : ascii " ms]\n[element = " = ascii " ms]\n" ++ ascii "[element = " := by
    decide
  rw [Report.line, hprev, hoffset, htime, helement, ← ascii_elementText]
  simp only [prevLine, offsetLine, timeLine, List.cons_append, List.append_assoc]

/-- The element in a report is that of the last line. -/
theorem replaceElement_line (element : ElementDisplay) (r : Report) :
    replaceElement element (text r.line) = text { r with element := element }.line := by
  have hprev : NoBracket (112 :: (ascii "rev element = " ++ (signed r.prev.index ++ (ascii " (" ++
      (ascii r.prev.name ++ ascii ")]\n"))))) :=
    NoBracket.append (s := 112 :: ascii "rev element = ") (by decide)
      ((noBracket_signed _).append (NoBracket.append (by decide)
        ((noBracket_name _).append (by decide))))
  have hoffset : NoBracket (111 :: (ascii "ffset = " ++ (r.offset.text ++ ascii "]\n"))) :=
    NoBracket.append (s := 111 :: ascii "ffset = ") (by decide)
      ((noBracket_offset _).append (by decide))
  have htime : NoBracket (116 :: (ascii "ime = " ++ (signed r.time ++ ascii " ms]\n"))) :=
    NoBracket.append (s := 116 :: ascii "ime = ") (by decide)
      ((noBracket_signed _).append (by decide))
  have hchars : ∀ e, (ascii (elementText e)).map chr = (elementText e).toList := by
    intro e
    cases e <;> decide
  rw [replaceElement, text, String.toList_ofList, Report.line_eq, Report.line_eq, text]
  refine congrArg String.ofList ?_
  rw [List.map_append, List.map_append, List.map_append, List.map_append, List.map_append,
    List.map_append, hchars, hchars]
  rw [Report.prevLine, replaceFirst_line _ (by decide) hprev, Report.offsetLine,
    replaceFirst_line _ (by decide) hoffset, Report.timeLine,
    replaceFirst_line _ (by decide) htime, replaceFirst_elementText]
  rfl

/-! ## The program -/

/-- What a run finds in a frame: the element, the offset unless it is left as it was, and the
time that it has taken. -/
structure Searched where
  element : ElementDisplay
  offset : Option Double
  time : ℤ

/-- What `image_test` does apart from its texts: whether it can open the data file of a frame,
and what it finds in the frame, beginning with an element. -/
structure Tester where
  opens : String → ℚ → Bool
  searched : String → ℚ → ElementDisplay → Searched

/-- The report of a run that begins with what is in `prevDataStr`; the element has to be one
that has a name. -/
def Tester.report (T : Tester) (single : Scanf.Real → UInt32) (args : Args) : Option Report :=
  let imageResult := restore single (ascii args.prevDataStr)
  if imageResult.elementType < 0 then none
  else
    (ElementDisplay.display[imageResult.elementType.toNat]?).map fun prev =>
      let found := T.searched args.datasetName args.frameIndex prev
      { prev, offset := found.offset.getD (.fin imageResult.offset), time := found.time,
        element := found.element }

/-- The program that the backend runs is `image_test`. It prints a report if it is given this
control string; another one may overrun its buffers. -/
structure ImageTest (env : Env) (T : Tester) (single : Scanf.Real → UInt32)
    (controlStr : String) : Prop where
  /-- `return 1` -/
  failed : ∀ args, T.opens args.datasetName args.frameIndex = false →
    ∃ stderr, env.imageTest args = .error stderr
  printed : ∀ args r, args.controlStr = controlStr →
    T.opens args.datasetName args.frameIndex = true → T.report single args = some r →
    ∃ stdout, env.imageTest args = .ok ⟨stdout, text (stripFinalNewline r.bytes)⟩

/-! ## The session as it is meant -/

/-- The frame of a session, and the report of its last run. -/
structure Machine where
  frameIndex : ℚ
  last : Option Report

/-- A frame is run with the element of the last report, `Zebra` being the first. An offset that
is left as it was shows as 0. -/
def Machine.runFrame (T : Tester) (datasetName : String) (m : Machine) : Machine :=
  if T.opens datasetName m.frameIndex then
    let prev := (m.last.map Report.element).getD .zebra
    let found := T.searched datasetName m.frameIndex prev
    { m with last := some ⟨prev, found.offset.getD (.fin 0), found.time, found.element⟩ }
  else m

def Machine.setElement (element : ElementDisplay) (m : Machine) : Machine :=
  { m with last := m.last.map fun r => { r with element := element } }

/-- A request; requests on other sessions change nothing. -/
def Machine.next (T : Tester) (found : Bool) (session : Session) (m : Machine) :
    Request → Machine
  | .runFrame id frameIndex =>
    if id ≠ session.id then m
    else
      let m := { m with frameIndex := frameIndex.getD m.frameIndex }
      if found then m.runFrame T session.datasetName else m
  | .setElement id element => if id ≠ session.id then m else m.setElement element

/-- The text of the last report; none before the first run. -/
def prevText : Option Report → String
  | none => ""
  | some r => text r.line

/-- The session holds the frame of the machine, and its report as a text. -/
def holds (session : Session) (m : Machine) : Session :=
  { session with frameIndex := m.frameIndex, prevDataStr := prevText m.last }

/-! ## The law -/

section Law

variable {env : Env} {T : Tester} {single : Scanf.Real → UInt32} {session : Session} {m : Machine}

/-- `execa` takes the line feed off a report, and nothing else. -/
theorem stripFinalNewline_report (r : Report) : stripFinalNewline r.bytes = r.line := by
  have hfeed : ascii "\n" = [10] := by decide
  have helement : ∀ e, (ascii (elementText e)).getLast? = some 93 := by
    intro e
    cases e <;> decide
  have hlast : r.line.getLast? = some 93 := by
    rw [Report.line_eq, List.getLast?_append, List.getLast?_append, List.getLast?_append, helement]
    rfl
  rw [stripFinalNewline, Report.bytes, hfeed, List.getLast?_concat, if_pos rfl,
    List.dropLast_concat, hlast]
  rfl

/-- What a run restores from the text of the machine's report. -/
theorem restore_prevText (single : Scanf.Real → UInt32) (last : Option Report) :
    ∃ x : ℚ, (Double.fin x).text = (Double.fin 0).text ∧
      restore single (ascii (prevText last)) =
        ⟨x, ((last.map Report.element).getD .zebra).index⟩ := by
  cases last with
  | none => exact ⟨0, rfl, rfl⟩
  | some r =>
    refine ⟨_, text_lowHalf (single r.offset.rounded), ?_⟩
    rw [prevText, ascii_text, restore_report]
    rfl

/-- There is nothing to replace before the first run. -/
theorem replaceElement_prevText (element : ElementDisplay) (last : Option Report) :
    replaceElement element (prevText last) =
      prevText (last.map fun r => { r with element := element }) := by
  cases last with
  | none => rfl
  | some r => exact replaceElement_line element r

theorem display_index (element : ElementDisplay) :
    ElementDisplay.display[element.index]? = some element := by
  cases element <;> decide

/-- A report shows the text of its offset only. -/
theorem line_offset {x y : Double} (h : x.text = y.text) (prev element : ElementDisplay)
    (time : ℤ) :
    (Report.mk prev x time element).line = (Report.mk prev y time element).line := by
  rw [Report.line, Report.line, h]

/-- One run of `image_test`. -/
theorem ran_holds (session : Session) (h : ImageTest env T single session.controlStr)
    (hfound : env.found = true) (m : Machine) :
    ran env (holds session m) m.frameIndex = holds session (m.runFrame T session.datasetName) := by
  cases hopens : T.opens session.datasetName m.frameIndex with
  | false =>
    have hstay : m.runFrame T session.datasetName = m := by
      rw [Machine.runFrame, hopens]
      rfl
    rcases h.failed { runSession (holds session m) with frameIndex := m.frameIndex } hopens with
      ⟨stderr, hrun⟩
    rw [ran_of_error hfound hrun, hstay]
    rfl
  | true =>
    rcases restore_prevText single m.last with ⟨x, hx, hrestore⟩
    have hreport : T.report single
        { runSession (holds session m) with frameIndex := m.frameIndex } =
        some ⟨(m.last.map Report.element).getD .zebra,
          (T.searched session.datasetName m.frameIndex
            ((m.last.map Report.element).getD .zebra)).offset.getD (.fin x),
          (T.searched session.datasetName m.frameIndex
            ((m.last.map Report.element).getD .zebra)).time,
          (T.searched session.datasetName m.frameIndex
            ((m.last.map Report.element).getD .zebra)).element⟩ := by
      simp only [Tester.report, runSession, holds, hrestore]
      rw [if_neg (by omega), Int.toNat_natCast, display_index]
      rfl
    rcases h.printed _ _ rfl hopens hreport with ⟨stdout, hrun⟩
    rw [ran_of_ok hfound hrun, stripFinalNewline_report, Machine.runFrame, hopens, if_pos rfl]
    -- an offset that is left as it was shows in the same way
    have hoffset : ∀ o : Option Double, (o.getD (.fin x)).text = (o.getD (.fin 0)).text := by
      intro o
      cases o with
      | none => exact hx
      | some y => rfl
    rw [line_offset (hoffset _)]
    rfl

theorem handled_holds (session : Session) (h : ImageTest env T single session.controlStr)
    (m : Machine) (req : Request) :
    handled env (holds session m) req = holds session (m.next T env.found session req) := by
  by_cases hid : req.id = session.id
  · cases req with
    | runFrame id frameIndex =>
      obtain rfl : id = session.id := hid
      have hrun : handled env (holds session m) (.runFrame session.id frameIndex) =
          ran env (holds session { m with frameIndex := frameIndex.getD m.frameIndex })
            (frameIndex.getD m.frameIndex) := handled_runFrame env (holds session m) frameIndex
      rw [hrun, Machine.next, if_neg (not_not.mpr rfl)]
      cases hfound : env.found with
      | false =>
        rw [ran, hfound]
        rfl
      | true =>
        exact ran_holds session h hfound { m with frameIndex := frameIndex.getD m.frameIndex }
    | setElement id element =>
      obtain rfl : id = session.id := hid
      have hset : handled env (holds session m) (.setElement session.id element) =
          { holds session m with prevDataStr := replaceElement element (prevText m.last) } :=
        handled_setElement env (holds session m) element
      rw [hset, Machine.next, if_neg (not_not.mpr rfl), replaceElement_prevText]
      rfl
  · have hother : handled env (holds session m) req = holds session m := handled_of_ne env hid
    rw [hother]
    cases req with
    | runFrame id frameIndex => exact congrArg (holds session) (if_pos hid).symm
    | setElement id element => exact congrArg (holds session) (if_pos hid).symm

/-- A session that has been created holds the text of the last report, with the elements that
have been set in it, after every sequence of requests. -/
theorem session_carries (session : Session) (h : ImageTest env T single session.controlStr)
    (hcreated : session.prevDataStr = "") (reqs : List Request) :
    (reqs.foldl (handleAlone env) ⟨session, []⟩).session =
      holds session (reqs.foldl (Machine.next T env.found session) ⟨session.frameIndex, none⟩) := by
  have hrun : ∀ m : Machine, reqs.foldl (handled env) (holds session m) =
      holds session (reqs.foldl (Machine.next T env.found session) m) := by
    induction reqs with
    | nil => exact fun _ => rfl
    | cons req reqs ih =>
      intro m
      rw [List.foldl_cons, List.foldl_cons, handled_holds session h, ih]
  have hinit : session = holds session ⟨session.frameIndex, none⟩ := by
    cases session
    simp only [holds, prevText] at hcreated ⊢
    rw [hcreated]
  rw [foldl_handleAlone]
  exact (congrArg (fun s => reqs.foldl (handled env) s) hinit).trans (hrun _)

end Law

/-! ### A session -/

/-- Every frame is a crossing, announced in one frame and entered in the next. -/
def crossings : Tester where
  opens := fun _ _ => true
  searched := fun _ _ prev => ⟨if prev = .crossBefore then .cross else .crossBefore, none, 3⟩

/-- The program that `T` describes; it fails where that leaves it open. -/
def Tester.env (T : Tester) (single : Scanf.Real → UInt32) : Env where
  found := true
  imageTest := fun args =>
    if T.opens args.datasetName args.frameIndex then
      match T.report single args with
      | some r => .ok ⟨"", text (stripFinalNewline r.bytes)⟩
      | none => .error ""
    else .error ""

theorem imageTest_env (T : Tester) (single : Scanf.Real → UInt32) (controlStr : String) :
    ImageTest (T.env single) T single controlStr where
  failed := by
    intro args hopens
    exact ⟨"", by simp only [Tester.env, hopens, Bool.false_eq_true, if_false]⟩
  printed := by
    intro args r _ hopens hreport
    exact ⟨"", by simp only [Tester.env, hopens, hreport, if_true]⟩

/-- The element that is set is the one that the next frame begins with. -/
theorem session_carries_crossings :
    ([.runFrame "a" none, .setElement "a" .crossBefore, .runFrame "a" (some 2)].foldl
        (handleAlone (crossings.env fun _ => 7)) ⟨⟨"a", "track", 1, "", ""⟩, []⟩).session =
      ⟨"a", "track", 2, prevText (some ⟨.crossBefore, .fin 0, 3, .cross⟩), ""⟩ :=
  session_carries ⟨"a", "track", 1, "", ""⟩ (imageTest_env crossings _ _) rfl _

end SmartCar.Debugger

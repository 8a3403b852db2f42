import SmartCar.Debugger.Backend
import SmartCar.Lib.Doubles

/-!
# image_test: the report of a frame

`image_test` prints to `stderr` what the next run is to begin with, and the next run finds it in
its second argument. The offset is restored wrongly: `%f` stores a `float`, and the address is that
of a `double`, of which it fills the lower half.

* `Report` is what is printed, `restore` what is taken from a text;
* `restore_report`: the element is that of the report; of the offset nothing is left that would
  show in the next report (`text_lowHalf`).
-/

namespace SmartCar.Debugger

open Printf Scanf

/-! ## Printing -/

/-- The place of an element in `ELEMENT_DISPLAY`. -/
def ElementDisplay.index (element : ElementDisplay) : ℕ := display.idxOf element

/-- What one run of `image_test` reports. -/
structure Report where
  prev : ElementDisplay
  offset : Double
  time : ℤ
  element : ElementDisplay

/-- The text without its last line feed. -/
def Report.line (r : Report) : List UInt8 :=
  ascii "[prev element = " ++ (signed r.prev.index ++ (ascii " (" ++ (ascii r.prev.name ++
    (ascii ")]\n[offset = " ++ (r.offset.text ++ (ascii "]\n[time = " ++ (signed r.time ++
    (ascii " ms]\n[element = " ++ (signed r.element.index ++ (ascii " (" ++ (ascii r.element.name ++
    ascii ")]")))))))))))

def Report.bytes (r : Report) : List UInt8 := r.line ++ ascii "\n"

/-- `execa` leaves out a line break at the end. -/
def stripFinalNewline (s : List UInt8) : List UInt8 :=
  let s := if s.getLast? = some 10 then s.dropLast else s
  if s.getLast? = some 13 then s.dropLast else s

/-! ## Reading -/

/-- A part of a format without conversions. -/
def directives (s : String) : List Field :=
  (ascii s).map fun c => if isSpace c then .white else .lit c

/-- `[a-zA-Z0-9]` -/
def isAlphanum (c : UInt8) : Bool :=
  (97 ≤ c && c ≤ 122) || (65 ≤ c && c ≤ 90) || (48 ≤ c && c ≤ 57)

def reportFormat : List Field :=
  directives "[prev element = " ++ .int false :: (directives " (" ++ .set false isAlphanum ::
    (directives ")]\n[offset = " ++ .real true :: (directives "]\n[time = " ++ .int false ::
    (directives " ms]\n[element = " ++ .int true :: (directives " (" ++ .set false isAlphanum ::
    directives ")]\n")))))

/-- `image_result`, with the number of the element. -/
structure ImageResult where
  offset : ℚ
  elementType : ℤ
deriving DecidableEq, Repr

/-- A `double` whose upper half is 0. -/
def lowHalf (bits : UInt32) : ℚ := bits.toNat / 2 ^ 1074

/-- `%f` stores a `float`; `single` gives its bits. -/
def offsetArg (single : Scanf.Real → UInt32) : Item → ImageResult → ImageResult
  | .real x, r => { r with offset := lowHalf (single x) }
  | _, r => r

def elementTypeArg : Item → ImageResult → ImageResult
  | .int z, r => { r with elementType := z }
  | _, r => r

/-- What a run begins with: zeros, and then what it finds in `prev_data`. -/
def restore (single : Scanf.Real → UInt32) (prevData : List UInt8) : ImageResult :=
  if prevData.length = 0 then ⟨0, 0⟩
  else
    ([offsetArg single, elementTypeArg].zip (sscanf reportFormat prevData)).foldl
      (fun r (arg, item) => arg item r) ⟨0, 0⟩

/-! ## The texts of a format -/

/-- White space is single. -/
def singleSpaces : List UInt8 → Bool
  | [] | [_] => true
  | c :: d :: s => !(isSpace c && isSpace d) && singleSpaces (d :: s)

variable {size : ℕ} {fmt : List Field} {rest : List UInt8}

theorem fields_blanks {s : List UInt8} (hs : singleSpaces s = true) (hrest : NoSpace rest) :
    fields size (s.map (fun c => if isSpace c then .white else .lit c) ++ fmt) (s ++ rest) =
      fields size fmt rest := by
  induction s with
  | nil => rfl
  | cons c s ih =>
    have htail : singleSpaces s = true := by
      cases s with
      | nil => rfl
      | cons d s =>
        rw [singleSpaces, Bool.and_eq_true] at hs
        exact hs.2
    have hih := ih htail
    rw [List.map_cons, List.cons_append, List.cons_append]
    by_cases hc : isSpace c = true
    · -- a blank in the format takes the one in the text
      have hnext : NoSpace (s ++ rest) := by
        cases s with
        | nil => exact hrest
        | cons d s =>
          rw [singleSpaces, Bool.and_eq_true, hc] at hs
          intro b hb
          rw [← Option.mem_some_iff.mp hb]
          simpa using hs.1
      have hblank : ∀ b ∈ [c], isSpace b = true := by simpa using hc
      rw [if_pos hc, ← hih]
      exact fields_white hblank hnext
    · rw [if_neg hc, ← hih]
      exact fields_lits [c] (s ++ rest)

/-- A part of a format without conversions takes its own text. -/
theorem fields_directives (t : String) (hs : singleSpaces (ascii t) = true)
    (hrest : NoSpace rest) :
    fields size (directives t ++ fmt) (ascii t ++ rest) = fields size fmt rest :=
  fields_blanks hs hrest

/-- Without conversions nothing is stored. -/
theorem fields_stores_nothing (hfmt : ∀ d ∈ fmt, d = .white ∨ ∃ c, d = .lit c) (s : List UInt8) :
    fields size fmt s = [] := by
  induction fmt generalizing s with
  | nil => rfl
  | cons d fmt ih =>
    have hih := ih fun d hd => hfmt d (List.mem_cons_of_mem _ hd)
    rw [fields]
    rcases hfmt d List.mem_cons_self with rfl | ⟨c, rfl⟩
    · exact hih _
    · cases s with
      | nil => rfl
      | cons b t =>
        rw [field]
        split_ifs
        · exact hih t
        · rfl

theorem directives_store_nothing (t : String) (s : List UInt8) :
    fields size (directives t) s = [] := by
  apply fields_stores_nothing
  intro d hd
  rcases List.mem_map.mp hd with ⟨c, -, rfl⟩
  split_ifs
  · exact .inl rfl
  · exact .inr ⟨c, rfl⟩

/-! ## The report, read -/

/-- The name of an element is one word. -/
theorem name_word (element : ElementDisplay) :
    ascii element.name ≠ [] ∧ (∀ c ∈ ascii element.name, isAlphanum c = true) ∧
      NoSpace (ascii element.name) := by
  cases element <;> decide +kernel

/-- `%d (%*[a-zA-Z0-9]`, or the same with a number that is not kept. -/
theorem fields_element (element : ElementDisplay) (keep : Bool)
    (hrest : ∀ c ∈ rest.head?, isAlphanum c = false) :
    fields size (.int keep :: (directives " (" ++ .set false isAlphanum :: fmt))
        (signed element.index ++ (ascii " (" ++ (ascii element.name ++ rest))) =
      (if keep then [.int element.index] else []) ++ fields size fmt rest := by
  rcases name_word element with ⟨hne, hword, hspace⟩
  have hstop : Stop (ascii " (" ++ (ascii element.name ++ rest)) :=
    Stop.append (by decide) (by decide) _
  have hnumber := integer_signed element.index hstop
  rw [fields_int (noSpace_signed _ _) hnumber, fields_directives _ (by decide)
    (hspace.append hne _), fields_set hne hword hrest]
  rfl

/-- The bracket behind a name. -/
theorem head_bracket {t : String} (ht : (ascii t).head? = some 41) (rest : List UInt8) :
    ∀ c ∈ (ascii t ++ rest).head?, isAlphanum c = false := by
  intro c hc
  rw [List.head?_append, ht] at hc
  rw [← Option.mem_some_iff.mp hc]
  decide

theorem fields_report (r : Report) :
    fields size reportFormat r.line = [.real r.offset.rounded, .int r.element.index] := by
  rw [reportFormat, Report.line]
  -- directive by directive
  rw [fields_directives _ (by decide) (noSpace_signed _ _),
    fields_element r.prev false (head_bracket (by decide) _),
    fields_directives _ (by decide) (noSpace_text _ _),
    fields_real (noSpace_text _ _)
      (real_text r.offset (Ends.append (by decide) (by decide) _)),
    fields_directives _ (by decide) (noSpace_signed _ _),
    fields_int (noSpace_signed _ _)
      (integer_signed r.time (Stop.append (by decide) (by decide) _)),
    fields_directives _ (by decide) (noSpace_signed _ _)]
  have hend := head_bracket (t := ")]") (by decide) []
  rw [List.append_nil] at hend
  rw [fields_element r.element true hend, directives_store_nothing]
  rfl

/-- The next run begins with the element that has been reported. -/
theorem restore_report (single : Scanf.Real → UInt32) (r : Report) :
    restore single r.line = ⟨lowHalf (single r.offset.rounded), r.element.index⟩ := by
  have hne : r.line.length ≠ 0 := by
    rw [Report.line, List.length_append]
    have hpos : (ascii "[prev element = ").length ≠ 0 := by decide
    omega
  rw [restore, if_neg hne, sscanf, fields_report]
  rfl

/-- Of the offset nothing is left that would be printed. -/
theorem text_lowHalf (bits : UInt32) :
    (Double.fin (lowHalf bits)).text = (Double.fin 0).text := by
  have hbits : (bits.toNat : ℚ) ≤ 2 ^ 32 := by
    have hlt := bits.toNat_lt
    exact_mod_cast hlt.le
  have hpos : 0 ≤ lowHalf bits := by
    unfold lowHalf
    positivity
  have hsmall : lowHalf bits ≤ 2 ^ 32 / 2 ^ 64 := by
    have hpow : (2 : ℚ) ^ 64 ≤ 2 ^ 1074 := pow_le_pow_right₀ (by norm_num) (by norm_num)
    unfold lowHalf
    gcongr
  have hlt : lowHalf bits * 10 ^ 6 < 1 / 2 := by
    refine (mul_le_mul_of_nonneg_right hsmall (by positivity)).trans_lt ?_
    norm_num
  rw [text_tiny hpos hlt, text_tiny le_rfl (by norm_num)]

end SmartCar.Debugger

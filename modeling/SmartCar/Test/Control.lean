import SmartCar.Lib.Scanset
import SmartCar.Test.DataFile

/-!
# run-multi.sh and image_test: the control string

The keys of `run-multi.sh` collect commands in a string, which `image_test` takes apart with
`sscanf` to see which rows and columns it is to highlight. The script looks at the numbers that are
typed, but not at their lengths; the program reads each into 16 bytes.

* `press` and `readControl` are the two programs, `Marks.press` is what the keys mean;
* `control_read`: after every sequence of keys the program highlights what is meant, as far as the
  frame goes (the script takes column 187, which the program has not), unless a number with more
  than 15 digits is in the string, which overruns its buffer.
-/

namespace SmartCar.Test

open Printf Scanf

/-! ## The keys -/

/-- The keys that change the control string; `x` and `y` with what `read` leaves of the line that
is typed then, blanks at its ends and backslashes being gone. -/
inductive Key
  | x (typed : List UInt8) | y (typed : List UInt8) | o | zero
deriving DecidableEq

/-- `[[ "$x" =~ ^[0-9]+$ ]] && [ "$x" -ge low ] && [ "$x" -le high ]` -/
def accepts (low high : ℕ) (typed : List UInt8) : Bool :=
  typed ≠ [] ∧ typed.all (isDigit 10) ∧ low ≤ number 10 typed ∧ number 10 typed ≤ high

/-- A command: its letter and its argument. -/
structure Command where
  type : UInt8
  arg : List UInt8
deriving DecidableEq

/-- The command that a key adds; an argument that is not accepted adds none. -/
def Key.command : Key → Option Command
  | .x typed => if accepts 0 187 typed then some ⟨120, typed⟩ else none
  | .y typed => if accepts 35 119 typed then some ⟨121, typed⟩ else none
  | .o => some ⟨111, [49]⟩
  | .zero => none

/-- `append_ctrl` -/
def appendCtrl (ctrl : List UInt8) (c : Command) : List UInt8 :=
  ctrl ++ (c.type :: 58 :: c.arg) ++ [59]

/-- `ctrl` after a key. -/
def press (ctrl : List UInt8) (key : Key) : List UInt8 :=
  if key = .zero then [] else (key.command.map (appendCtrl ctrl)).getD ctrl

/-! ## image_test -/

/-- `WIDTH` -/
def width : ℕ := 187

/-- `x_highlight_map`, `y_highlight_map` and `show_original`. -/
structure Marks where
  x : ℕ → Bool
  y : ℕ → Bool
  original : Bool

def Marks.blank : Marks := ⟨fun _ => false, fun _ => false, false⟩

/-- The variables of the loop; the first three are not initialised. -/
structure Vars where
  ctrlType : Option UInt8
  ctrlArg : Option (List UInt8)
  len : Option ℕ
  marks : Marks

/-- `"%c:%[^;];%n"` -/
def controlFormat : List Field := [.char, .lit 58, .set true (· ≠ 59), .lit 59, .count]

/-- What makes the loop undefined: a text longer than `ctrl_arg`, a variable that nothing has been
stored in, a pointer behind the end of the string. -/
inductive Undefined
  | overrun | unset | pastEnd
deriving DecidableEq, Repr

/-- What `sscanf` stores. -/
def storeItem (v : Vars) : Item → Except Undefined Vars
  | .char c => .ok { v with ctrlType := c }
  | .text s => if s.length < 16 then .ok { v with ctrlArg := s } else .error .overrun
  | .count n => .ok { v with len := n }
  | _ => .ok v

/-- A variable is read. -/
def fetch {α : Type*} : Option α → Except Undefined α
  | some a => .ok a
  | none => .error .unset

/-- `atoi` -/
def atoi (s : List UInt8) : ℤ := ((integer (s.dropWhile isSpace)).map Prod.fst).getD 0

/-- The `switch`. -/
def mark (m : Marks) (ctrlType : UInt8) (ctrlArg : Option (List UInt8)) :
    Except Undefined Marks :=
  if ctrlType = 120 then
    (fetch ctrlArg).map fun s =>
      if atoi s ≥ 0 ∧ atoi s < width then { m with x := Function.update m.x (atoi s).toNat true }
      else m
  else if ctrlType = 121 then
    (fetch ctrlArg).map fun s =>
      if atoi s ≥ 0 ∧ atoi s < height then { m with y := Function.update m.y (atoi s).toNat true }
      else m
  else if ctrlType = 111 then .ok { m with original := true }
  else .ok m

/-- One turn of the loop, on what is left of the string: the stores, `ctrl += len`, and the
`switch`. -/
def turn (v : Vars) (ctrl : List UInt8) : Except Undefined (Vars × List UInt8) := do
  let v ← (sscanf controlFormat ctrl).foldlM storeItem v
  let len ← fetch v.len
  let ctrlType ← fetch v.ctrlType
  if len ≤ ctrl.length then
    let marks ← mark v.marks ctrlType v.ctrlArg
    return ({ v with marks }, ctrl.drop len)
  else .error .pastEnd

/-- The loop, for as many turns as there is fuel; `none` when that has run out. -/
def readLoop : ℕ → Vars → List UInt8 → Option (Except Undefined Marks)
  | 0, _, _ => none
  | fuel + 1, v, ctrl =>
    -- nothing is converted at the end of the string only
    if sscanf controlFormat ctrl = [] then some (.ok v.marks)
    else
      match turn v ctrl with
      | .error e => some (.error e)
      | .ok (v, ctrl) => readLoop fuel v ctrl

def readControl (fuel : ℕ) (ctrl : List UInt8) : Option (Except Undefined Marks) :=
  if ctrl.length = 0 then some (.ok .blank) else readLoop fuel ⟨none, none, none, .blank⟩ ctrl

/-! ## What is meant -/

/-- A command, as a change of what is to be highlighted. -/
def Command.apply (m : Marks) (c : Command) : Marks :=
  if c.type = 120 then { m with x := Function.update m.x (number 10 c.arg) true }
  else if c.type = 121 then { m with y := Function.update m.y (number 10 c.arg) true }
  else { m with original := true }

/-- What there is a place for in the frame. -/
def Marks.shown (m : Marks) : Marks := { m with x := fun j => decide (j < width) && m.x j }

/-- A key, as a change of what is to be highlighted. -/
def Marks.press (m : Marks) (key : Key) : Marks :=
  if key = .zero then .blank else (key.command.map (Command.apply m)).getD m

/-- The commands that are in the string after these keys. -/
def pending (cs : List Command) (key : Key) : List Command :=
  if key = .zero then [] else cs ++ key.command.toList

/-- Every argument in the string fits its buffer. -/
def Short (keys : List Key) : Prop := ∀ c ∈ keys.foldl pending [], c.arg.length ≤ 15

instance (keys : List Key) : Decidable (Short keys) := List.decidableBAll _ _

/-! ## The string -/

/-- The text of a command. -/
def Command.bytes (c : Command) : List UInt8 := c.type :: 58 :: (c.arg ++ [59])

/-- A command that a key can add. -/
structure Command.Ok (c : Command) : Prop where
  digits : IsDigits c.arg
  nonempty : c.arg ≠ []
  type : c.type = 120 ∨ c.type = 121 ∧ number 10 c.arg < height ∨ c.type = 111

theorem ok_of_accepts {low high : ℕ} {typed : List UInt8} (h : accepts low high typed = true) :
    IsDigits typed ∧ typed ≠ [] ∧ number 10 typed ≤ high := by
  rw [accepts, decide_eq_true_eq] at h
  exact ⟨List.all_eq_true.mp h.2.1, h.1, h.2.2.2⟩

theorem Key.command_ok {key : Key} {c : Command} (h : key.command = some c) : c.Ok := by
  cases key with
  | x typed =>
    simp only [Key.command, Option.ite_none_right_eq_some, Option.some.injEq] at h
    rcases h with ⟨haccepts, rfl⟩
    rcases ok_of_accepts haccepts with ⟨hdigits, hne, -⟩
    exact ⟨hdigits, hne, .inl rfl⟩
  | y typed =>
    simp only [Key.command, Option.ite_none_right_eq_some, Option.some.injEq] at h
    rcases h with ⟨haccepts, rfl⟩
    rcases ok_of_accepts haccepts with ⟨hdigits, hne, hle⟩
    exact ⟨hdigits, hne, .inr (.inl ⟨rfl, Nat.lt_succ_of_le hle⟩)⟩
  | o =>
    rw [Key.command, Option.some.injEq] at h
    rw [← h]
    exact ⟨by decide, by decide, .inr (.inr rfl)⟩
  | zero => cases h

theorem pending_ok (keys : List Key) : ∀ c ∈ keys.foldl pending [], c.Ok := by
  induction keys using List.reverseRecOn with
  | nil => simp
  | append_singleton keys key ih =>
    rw [List.foldl_append, List.foldl_cons, List.foldl_nil, pending]
    split_ifs
    · simp
    · intro c hc
      rcases List.mem_append.mp hc with hc | hc
      · exact ih c hc
      · exact Key.command_ok (Option.mem_toList.mp hc)

/-- The string is that of its commands. -/
theorem press_eq (keys : List Key) :
    keys.foldl press [] = (keys.foldl pending []).flatMap Command.bytes := by
  induction keys using List.reverseRecOn with
  | nil => rfl
  | append_singleton keys key ih =>
    rw [List.foldl_append, List.foldl_append, List.foldl_cons, List.foldl_nil, List.foldl_cons,
      List.foldl_nil, ih, press, pending]
    split_ifs
    · rfl
    · rw [List.flatMap_append]
      cases key.command with
      | none => simp
      | some c => simp [appendCtrl, Command.bytes]

/-- What is meant by the keys is what the commands in the string mean. -/
theorem marks_eq (keys : List Key) :
    keys.foldl Marks.press .blank = (keys.foldl pending []).foldl Command.apply .blank := by
  induction keys using List.reverseRecOn with
  | nil => rfl
  | append_singleton keys key ih =>
    rw [List.foldl_append, List.foldl_append, List.foldl_cons, List.foldl_nil, List.foldl_cons,
      List.foldl_nil, ih, Marks.press, pending]
    split_ifs
    · rfl
    · rw [List.foldl_append]
      cases key.command with
      | none => rfl
      | some c => rfl

/-! ## One turn -/

variable {c : Command} {v : Vars} {rest : List UInt8}

theorem sscanf_command (hc : c.Ok) (rest : List UInt8) :
    sscanf controlFormat (c.bytes ++ rest) =
      [.char c.type, .text c.arg, .count (c.arg.length + 3)] := by
  have hset : ∀ b ∈ c.arg, decide (b ≠ 59) = true := by
    intro b hb
    have hdigit := isDigit_iff.mp (hc.digits b hb)
    rw [decide_eq_true_eq]
    rintro rfl
    exact absurd hdigit.2 (by decide)
  have hbytes : c.bytes ++ rest = c.type :: ([58] ++ (c.arg ++ ([59] ++ rest))) := by
    simp [Command.bytes]
  have hsize : (c.bytes ++ rest).length - rest.length = c.arg.length + 3 := by
    simp [Command.bytes]
    omega
  rw [sscanf]
  generalize (c.bytes ++ rest).length = size at hsize
  have hcolon : fields size [.lit 58, .set true (· ≠ 59), .lit 59, .count]
      ([58] ++ (c.arg ++ ([59] ++ rest))) =
        fields size [.set true (· ≠ 59), .lit 59, .count] (c.arg ++ ([59] ++ rest)) :=
    fields_lits [58] _
  have hsemicolon : fields size [.lit 59, .count] ([59] ++ rest) = fields size [.count] rest :=
    fields_lits [59] rest
  have hend : ∀ b ∈ ([59] ++ rest).head?, decide (b ≠ 59) = false := by simp
  rw [hbytes, controlFormat, fields_char, hcolon, fields_set hc.nonempty hset hend, hsemicolon,
    fields_count, hsize]
  rfl

theorem atoi_digits (hc : c.Ok) : atoi c.arg = number 10 c.arg := by
  have hskip := (skip_digits hc.digits hc.nonempty []).1
  have hinteger : integer (c.arg ++ []) = some ((number 10 c.arg : ℤ), []) :=
    integer_digits hc.digits hc.nonempty (by decide)
  rw [List.append_nil] at hskip hinteger
  rw [atoi, hskip, hinteger]
  rfl

/-- A column that is marked is shown if it is in the frame. -/
theorem shown_update (m : Marks) (j : ℕ) :
    ({ m with x := Function.update m.x j true } : Marks).shown =
      if j < width then { m.shown with x := Function.update m.shown.x j true } else m.shown := by
  split_ifs with hwidth
  all_goals
    simp only [Marks.shown, Marks.mk.injEq, and_true]
    funext i
    by_cases hi : i = j <;> simp [hi, hwidth]

/-- The `switch` shows what the command means. -/
theorem mark_command (hc : c.Ok) (m : Marks) :
    mark m.shown c.type (some c.arg) = .ok (c.apply m).shown := by
  have hatoi := atoi_digits hc
  have hpos : (number 10 c.arg : ℤ) ≥ 0 := Int.natCast_nonneg _
  rcases hc.type with htype | ⟨htype, hlt⟩ | htype
  · rw [mark, Command.apply, if_pos htype, if_pos htype, shown_update, fetch, Except.map, hatoi,
      Int.toNat_natCast]
    by_cases hwidth : number 10 c.arg < width
    · rw [if_pos ⟨hpos, Nat.cast_lt.mpr hwidth⟩, if_pos hwidth]
    · rw [if_neg fun h => hwidth (Nat.cast_lt.mp h.2), if_neg hwidth]
  · have hother : c.type ≠ 120 := by
      rw [htype]
      decide
    rw [mark, Command.apply, if_neg hother, if_pos htype, if_neg hother, if_pos htype, fetch,
      Except.map, hatoi, Int.toNat_natCast, if_pos ⟨hpos, Nat.cast_lt.mpr hlt⟩]
    rfl
  · have hother : c.type ≠ 120 ∧ c.type ≠ 121 := by
      rw [htype]
      decide
    rw [mark, Command.apply, if_neg hother.1, if_neg hother.2, if_pos htype, if_neg hother.1,
      if_neg hother.2]
    rfl

/-- A command whose argument fits is taken off the string. -/
theorem turn_command (hc : c.Ok) (hshort : c.arg.length ≤ 15) {m : Marks}
    (hm : v.marks = m.shown) (rest : List UInt8) :
    turn v (c.bytes ++ rest) =
      .ok (⟨some c.type, some c.arg, some (c.arg.length + 3), (c.apply m).shown⟩, rest) := by
  have hstored : [Item.char c.type, .text c.arg, .count (c.arg.length + 3)].foldlM storeItem v =
      .ok ⟨some c.type, some c.arg, some (c.arg.length + 3), m.shown⟩ := by
    simp only [List.foldlM_cons, List.foldlM_nil, storeItem, if_pos (Nat.lt_succ_of_le hshort), hm]
    rfl
  have hlength : c.bytes.length = c.arg.length + 3 := by
    simp [Command.bytes]
  have hle : c.arg.length + 3 ≤ (c.bytes ++ rest).length := by
    rw [List.length_append, hlength]
    exact Nat.le_add_right _ _
  have hdrop : (c.bytes ++ rest).drop (c.arg.length + 3) = rest := by
    rw [← hlength, List.drop_left]
  simp only [turn, sscanf_command hc, hstored, bind, Except.bind, fetch, if_pos hle,
    mark_command hc, hdrop, pure, Except.pure]

/-- An argument that does not fit overruns its buffer. -/
theorem turn_long (hc : c.Ok) (hlong : 15 < c.arg.length) (v : Vars) (rest : List UInt8) :
    turn v (c.bytes ++ rest) = .error .overrun := by
  have hstored : [Item.char c.type, .text c.arg, .count (c.arg.length + 3)].foldlM storeItem v =
      .error .overrun := by
    have hover : ¬ c.arg.length < 16 := by omega
    simp only [List.foldlM_cons, List.foldlM_nil, storeItem, if_neg hover]
    rfl
  rw [turn, sscanf_command hc, hstored]
  rfl

/-! ## The loop -/

/-- Before a command the loop goes on. -/
theorem readLoop_command (hc : c.Ok) (fuel : ℕ) (v : Vars) (rest : List UInt8) :
    readLoop (fuel + 1) v (c.bytes ++ rest) =
      match turn v (c.bytes ++ rest) with
      | .error e => some (.error e)
      | .ok (v, ctrl) => readLoop fuel v ctrl := by
  rw [readLoop, sscanf_command hc, if_neg (by simp)]

/-- A command whose argument fits is shown, and the loop goes on behind it. -/
theorem readLoop_fits (hc : c.Ok) (hshort : c.arg.length ≤ 15) {m : Marks}
    (hm : v.marks = m.shown) (fuel : ℕ) (rest : List UInt8) :
    ∃ v', v'.marks = (c.apply m).shown ∧
      readLoop (fuel + 1) v (c.bytes ++ rest) = readLoop fuel v' rest := by
  refine ⟨⟨some c.type, some c.arg, some (c.arg.length + 3), (c.apply m).shown⟩, rfl, ?_⟩
  rw [readLoop_command hc, turn_command hc hshort hm]

theorem readLoop_short {cs : List Command} (hok : ∀ c ∈ cs, c.Ok)
    (hshort : ∀ c ∈ cs, c.arg.length ≤ 15) :
    ∀ (fuel : ℕ) (v : Vars) (m : Marks), v.marks = m.shown → cs.length < fuel →
      readLoop fuel v (cs.flatMap Command.bytes) = some (.ok (cs.foldl Command.apply m).shown) := by
  induction cs with
  | nil =>
    intro fuel v m hm hfuel
    obtain ⟨fuel, rfl⟩ := Nat.exists_eq_succ_of_ne_zero hfuel.ne'
    rw [List.foldl_nil, ← hm]
    rfl
  | cons c cs ih =>
    intro fuel v m hm hfuel
    obtain ⟨fuel, rfl⟩ := Nat.exists_eq_succ_of_ne_zero (Nat.ne_zero_of_lt hfuel)
    have hrest := ih (fun c hc => hok c (List.mem_cons_of_mem _ hc))
      (fun c hc => hshort c (List.mem_cons_of_mem _ hc))
    obtain ⟨v', hm', hloop⟩ := readLoop_fits (hok c List.mem_cons_self)
      (hshort c List.mem_cons_self) hm fuel (cs.flatMap Command.bytes)
    rw [List.flatMap_cons, Nat.succ_eq_add_one, hloop]
    exact hrest _ _ _ hm' (Nat.lt_of_succ_lt_succ hfuel)

theorem readLoop_long {cs : List Command} (hok : ∀ c ∈ cs, c.Ok)
    (hlong : ∃ c ∈ cs, 15 < c.arg.length) :
    ∀ (fuel : ℕ) (v : Vars) (m : Marks), v.marks = m.shown → cs.length < fuel →
      readLoop fuel v (cs.flatMap Command.bytes) = some (.error .overrun) := by
  induction cs with
  | nil => simp at hlong
  | cons c cs ih =>
    intro fuel v m hm hfuel
    obtain ⟨fuel, rfl⟩ := Nat.exists_eq_succ_of_ne_zero (Nat.ne_zero_of_lt hfuel)
    have hc := hok c List.mem_cons_self
    rw [List.flatMap_cons, Nat.succ_eq_add_one]
    by_cases hfirst : 15 < c.arg.length
    · rw [readLoop_command hc, turn_long hc hfirst]
    · -- the command that does not fit is further on
      have hrest : ∃ c ∈ cs, 15 < c.arg.length := by
        rcases hlong with ⟨d, hd, hdlong⟩
        rcases List.mem_cons.mp hd with rfl | hd
        · exact absurd hdlong hfirst
        · exact ⟨d, hd, hdlong⟩
      obtain ⟨v', hm', hloop⟩ := readLoop_fits hc (not_lt.mp hfirst) hm fuel
        (cs.flatMap Command.bytes)
      rw [hloop]
      exact ih (fun c hc => hok c (List.mem_cons_of_mem _ hc)) hrest fuel v' _ hm'
        (Nat.lt_of_succ_lt_succ hfuel)

/-- Every command takes some of the string. -/
theorem length_le_flatMap (cs : List Command) :
    cs.length ≤ (cs.flatMap Command.bytes).length := by
  induction cs with
  | nil => rfl
  | cons c cs ih =>
    rw [List.flatMap_cons, List.length_append, List.length_cons]
    have hpos : 0 < c.bytes.length := by simp [Command.bytes]
    omega

theorem shown_blank : Marks.blank.shown = .blank := by
  simp only [Marks.shown, Marks.blank, Bool.and_false]

/-- What is highlighted is what the keys mean, as far as the frame goes, if every number that is
typed fits its buffer; if not, the program overruns it. -/
theorem control_read (keys : List Key) :
    (Short keys → ∀ fuel > (keys.foldl press []).length,
      readControl fuel (keys.foldl press []) =
        some (.ok (keys.foldl Marks.press .blank).shown)) ∧
    (¬ Short keys → ∀ fuel > (keys.foldl press []).length,
      readControl fuel (keys.foldl press []) = some (.error .overrun)) := by
  have hok := pending_ok keys
  rw [press_eq, marks_eq, Short]
  generalize keys.foldl pending [] = cs at hok
  have hlength := length_le_flatMap cs
  constructor
  · intro hshort fuel hfuel
    rw [readControl]
    split_ifs with hempty
    · have hnone : cs = [] := List.length_eq_zero_iff.mp (by omega)
      rw [hnone, List.foldl_nil, shown_blank]
    · exact readLoop_short hok hshort _ _ _ shown_blank.symm (hlength.trans_lt hfuel)
  · intro hlong fuel hfuel
    push Not at hlong
    rw [readControl, if_neg]
    · exact readLoop_long hok hlong fuel _ _ shown_blank.symm (hlength.trans_lt hfuel)
    · rcases hlong with ⟨c, hc, -⟩
      have hpos := List.length_pos_of_mem hc
      omega

/-- Column 187 is accepted by the script, and not in the frame of the program. -/
example : (Marks.press .blank (.x (ascii "187"))).x 187 = true ∧
    (Marks.press .blank (.x (ascii "187"))).shown.x 187 = false := by decide

/-- Sixteen digits are accepted by the script, and overrun the buffer of the program. -/
example : ¬ Short [.x (List.replicate 15 48 ++ [49])] := by decide

end SmartCar.Test

import SmartCar.Lib.Events
import SmartCar.Menu.Params

/-!
# The main loop and the keys

The main loop hands the keys to the functions of the menu, one after the other, and the PIT
interrupt, which may come between any two accesses to the keys, scans them. A step of the main
loop is one such access: a test of a key, what is done for it, or the clearing of its state.

* `keysBody`: what the main loop does with the keys, without interrupts;
* `reaches_keysBody`: the steps compose to it.
-/

namespace SmartCar.Menu

/-! ## The functions of the menu -/

/-- The pages that `menu_init` has created. A page that could not be created has the id 0. -/
structure PageIds where
  image : UInt16
  debugInfo : UInt16
  cubeInfo : UInt16
  param : UInt16

/-- `key_change_page`: the page that comes next. -/
def nextPage (ids : PageIds) (currentPageId : UInt16) : UInt16 :=
  if currentPageId = ids.image then ids.debugInfo
  else if currentPageId = ids.debugInfo then ids.cubeInfo
  else if currentPageId = ids.cubeInfo then ids.param
  else ids.image

/-- `CUBE_INFO_PAGE_LIST_SIZE` -/
def cubeInfoPageListSize : UInt8 := 13

/-- The row after `row`, in a table of `count` rows that are numbered from 1. -/
def nextRow (count row : UInt8) : UInt8 := if row = count then 1 else row + 1

def State.turnPage (ids : PageIds) (s : State) : State :=
  { s with currentPageId := nextPage ids s.currentPageId }

/-- `key_select_next_table_row`: the row of the table that is shown. -/
def State.selectRow (ids : PageIds) (s : State) : State :=
  if s.currentPageId = ids.cubeInfo then
    { s with cubeInfoTableSelectedRow := nextRow cubeInfoPageListSize s.cubeInfoTableSelectedRow }
  else if s.currentPageId = ids.param then
    { s with paramTableSelectedRow := nextRow (.ofNat paramCount) s.paramTableSelectedRow }
  else s

def State.switchMotor (s : State) : State := { s with motorEnableFlag := !s.motorEnableFlag }

/-- `key_change_page` -/
def keyChangePage (ids : PageIds) (key : KeyIndex) (s : State) : State :=
  if keyGetState key s.keys = .release then s else (s.turnPage ids).clearKey key

/-- `key_select_next_table_row` -/
def keySelectNextTableRow (ids : PageIds) (key : KeyIndex) (s : State) : State :=
  if keyGetState key s.keys = .release then s else (s.selectRow ids).clearKey key

/-- `key_switch_motor` -/
def keySwitchMotor (key : KeyIndex) (s : State) : State :=
  if keyGetState key s.keys = .release then s else s.switchMotor.clearKey key

/-- The rows of a table are selected on the two pages that have one. -/
def HasTable (ids : PageIds) (s : State) : Prop :=
  s.currentPageId = ids.cubeInfo ∨ s.currentPageId = ids.param

instance (ids : PageIds) (s : State) : Decidable (HasTable ids s) :=
  inferInstanceAs (Decidable (_ ∨ _))

/-- The main loop: the first two keys choose the page and the row. -/
def chooseBody (ids : PageIds) (s : State) : State :=
  let s := keyChangePage ids .key1 s
  if HasTable ids s then keySelectNextTableRow ids .key2 s else s

/-- The main loop: what the other two keys do depends on the page. -/
def actBody (ids : PageIds) (s : State) : Option State :=
  if s.currentPageId = ids.param then keyAdjustParam .key3 .key4 s
  else some (keySwitchMotor .key4 s)

/-- The part of the main loop that handles the keys. -/
def keysBody (ids : PageIds) (s : State) : Option State := actBody ids (chooseBody ids s)

/-! ## Steps -/

/-- Where the main loop stands. -/
inductive Pc
  | changePage | turnPage | turnPageClear
  | ifTable | selectRow | nextRow | nextRowClear
  | ifParam | plus | minus (plusPressed : Bool) | adjust (plusPressed minusPressed : Bool)
  | plusClear | minusClear
  | switchMotor | toggle | toggleClear
  -- a parameter outside of the table has been adjusted
  | undefined
deriving DecidableEq, Repr

structure Machine where
  menu : State
  pc : Pc

/-- The key is pressed, as `key_get_state` tells the main loop. -/
def State.pressed (s : State) (key : KeyIndex) : Bool := keyGetState key s.keys ≠ .release

/-- One step of the main loop. -/
def mainStep (ids : PageIds) : Machine → Machine
  | ⟨s, .changePage⟩ => ⟨s, if s.pressed .key1 then .turnPage else .ifTable⟩
  | ⟨s, .turnPage⟩ => ⟨s.turnPage ids, .turnPageClear⟩
  | ⟨s, .turnPageClear⟩ => ⟨s.clearKey .key1, .ifTable⟩
  | ⟨s, .ifTable⟩ => ⟨s, if HasTable ids s then .selectRow else .ifParam⟩
  | ⟨s, .selectRow⟩ => ⟨s, if s.pressed .key2 then .nextRow else .ifParam⟩
  | ⟨s, .nextRow⟩ => ⟨s.selectRow ids, .nextRowClear⟩
  | ⟨s, .nextRowClear⟩ => ⟨s.clearKey .key2, .ifParam⟩
  | ⟨s, .ifParam⟩ => ⟨s, if s.currentPageId = ids.param then .plus else .switchMotor⟩
  | ⟨s, .plus⟩ => ⟨s, .minus (s.pressed .key3)⟩
  | ⟨s, .minus plusPressed⟩ => ⟨s, .adjust plusPressed (s.pressed .key4)⟩
  | ⟨s, .adjust plusPressed minusPressed⟩ =>
    if plusPressed = minusPressed then ⟨s, .changePage⟩
    else
      match s.adjustParam (if plusPressed then 1 else -1) with
      | some s' => ⟨s', .plusClear⟩
      | none => ⟨s, .undefined⟩
  | ⟨s, .plusClear⟩ => ⟨s.clearKey .key3, .minusClear⟩
  | ⟨s, .minusClear⟩ => ⟨s.clearKey .key4, .changePage⟩
  | ⟨s, .switchMotor⟩ => ⟨s, if s.pressed .key4 then .toggle else .changePage⟩
  | ⟨s, .toggle⟩ => ⟨s.switchMotor, .toggleClear⟩
  | ⟨s, .toggleClear⟩ => ⟨s.clearKey .key4, .changePage⟩
  | ⟨s, .undefined⟩ => ⟨s, .undefined⟩

/-- A scan of the keys by the PIT interrupt, with the levels at their pins, or a step of the main
loop. -/
inductive KeyEvent
  | scan (levels : KeyIndex → Level)
  | main

def keyStep (ids : PageIds) (m : Machine) : KeyEvent → Machine
  | .scan levels => { m with menu.keys := keyScanner levels m.menu.keys }
  | .main => mainStep ids m

/-! ## What the steps leave alone -/

section Frame

variable (ids : PageIds) (s : State)

@[simp] theorem keys_clearKey (key : KeyIndex) :
    (s.clearKey key).keys = keyClearState key s.keys := rfl

@[simp] theorem paramTableSelectedRow_clearKey (key : KeyIndex) :
    (s.clearKey key).paramTableSelectedRow = s.paramTableSelectedRow := rfl

@[simp] theorem motorEnableFlag_clearKey (key : KeyIndex) :
    (s.clearKey key).motorEnableFlag = s.motorEnableFlag := rfl

@[simp] theorem keys_turnPage : (s.turnPage ids).keys = s.keys := rfl

@[simp] theorem paramTableSelectedRow_turnPage :
    (s.turnPage ids).paramTableSelectedRow = s.paramTableSelectedRow := rfl

@[simp] theorem motorEnableFlag_turnPage :
    (s.turnPage ids).motorEnableFlag = s.motorEnableFlag := rfl

@[simp] theorem keys_switchMotor : s.switchMotor.keys = s.keys := rfl

@[simp] theorem paramTableSelectedRow_switchMotor :
    s.switchMotor.paramTableSelectedRow = s.paramTableSelectedRow := rfl

@[simp] theorem keys_selectRow : (s.selectRow ids).keys = s.keys := by
  unfold State.selectRow
  split_ifs <;> rfl

@[simp] theorem motorEnableFlag_selectRow :
    (s.selectRow ids).motorEnableFlag = s.motorEnableFlag := by
  unfold State.selectRow
  split_ifs <;> rfl

/-- An adjustment changes nothing but the parameters. -/
theorem adjust_frame (plusPressed minusPressed : Bool) :
    let m := mainStep ids ⟨s, .adjust plusPressed minusPressed⟩
    m.menu.keys = s.keys ∧ m.menu.paramTableSelectedRow = s.paramTableSelectedRow ∧
      m.menu.motorEnableFlag = s.motorEnableFlag ∧
      (m.pc = .changePage ∨ m.pc = .plusClear ∨ m.pc = .undefined) := by
  by_cases heq : plusPressed = minusPressed
  · -- both keys or none: nothing is done
    simp [mainStep, heq]
  · by_cases hin : InTable s.paramIndex
    · simp [mainStep, heq, State.adjustParam, hin, State.adjustEntry]
    · simp [mainStep, heq, State.adjustParam, hin]

end Frame

/-! ## Power-up -/

/-- The ids that the screen gives out, in the order in which `menu_init` creates the pages. -/
def boardIds : PageIds where
  image := 0x1003
  debugInfo := 0x1002
  cubeInfo := 0x1001
  param := 0x1004

/-- The main loop begins, with the page of the debug information on the screen. -/
def powerUp (ids : PageIds) : Machine where
  menu :=
    { keys := noKeys
      currentPageId := ids.debugInfo
      cubeInfoTableSelectedRow := 1
      paramTableSelectedRow := 0
      params := powerUpParams
      motorEnableFlag := false }
  pc := .changePage

/-- A scan that finds one key held down. -/
def held (key : KeyIndex) : KeyEvent :=
  .scan (Function.update (fun _ => keyReleaseLevel) key .low)

/-- A scan that finds none. -/
def released : KeyEvent := .scan fun _ => keyReleaseLevel

/-! ## Iterations without interrupts -/

/-- The main loop gets from `m` to `m'` by steps of its own. -/
def Reaches (ids : PageIds) (m m' : Machine) : Prop := ∃ n, (mainStep ids)^[n] m = m'

variable {ids : PageIds} {m₁ m₂ m₃ : Machine}

theorem Reaches.trans (h₁ : Reaches ids m₁ m₂) (h₂ : Reaches ids m₂ m₃) : Reaches ids m₁ m₃ := by
  obtain ⟨n, rfl⟩ := h₁
  obtain ⟨k, rfl⟩ := h₂
  exact ⟨k + n, Function.iterate_add_apply _ k n m₁⟩

/-- Such steps are a run in which no interrupt comes. -/
theorem Reaches.run (h : Reaches ids m₁ m₂) :
    ∃ n, Events.run (keyStep ids) m₁ (List.replicate n .main) = m₂ := by
  obtain ⟨n, rfl⟩ := h
  refine ⟨n, ?_⟩
  induction n generalizing m₁ with
  | zero => rfl
  | succ n ih =>
    rw [List.replicate_succ, Events.run_cons, Function.iterate_succ_apply]
    exact ih

theorem pressed_eq_false {s : State} {key : KeyIndex} :
    s.pressed key = false ↔ keyGetState key s.keys = .release := by
  simp [State.pressed]

theorem reaches_keyChangePage (s : State) :
    Reaches ids ⟨s, .changePage⟩ ⟨keyChangePage ids .key1 s, .ifTable⟩ := by
  by_cases hkey : keyGetState .key1 s.keys = .release
  · exact ⟨1, by simp [mainStep, keyChangePage, State.pressed, hkey]⟩
  · exact ⟨3, by simp [mainStep, keyChangePage, State.pressed, hkey]⟩

theorem reaches_keySelectNextTableRow (s : State) :
    Reaches ids ⟨s, .selectRow⟩ ⟨keySelectNextTableRow ids .key2 s, .ifParam⟩ := by
  by_cases hkey : keyGetState .key2 s.keys = .release
  · exact ⟨1, by simp [mainStep, keySelectNextTableRow, State.pressed, hkey]⟩
  · exact ⟨3, by simp [mainStep, keySelectNextTableRow, State.pressed, hkey]⟩

theorem reaches_keySwitchMotor (s : State) :
    Reaches ids ⟨s, .switchMotor⟩ ⟨keySwitchMotor .key4 s, .changePage⟩ := by
  by_cases hkey : keyGetState .key4 s.keys = .release
  · exact ⟨1, by simp [mainStep, keySwitchMotor, State.pressed, hkey]⟩
  · exact ⟨3, by simp [mainStep, keySwitchMotor, State.pressed, hkey]⟩

/-- `key_adjust_param` returns, or a parameter outside of the table has been looked up. -/
theorem reaches_keyAdjustParam (s : State) :
    Reaches ids ⟨s, .plus⟩
      (match keyAdjustParam .key3 .key4 s with
      | some s' => ⟨s', .changePage⟩
      | none => ⟨s, .undefined⟩) := by
  by_cases heq : s.pressed .key3 = s.pressed .key4
  · refine ⟨3, ?_⟩
    have hcall : keyAdjustParam .key3 .key4 s = some s := by
      simp only [State.pressed, decide_eq_decide] at heq
      simp only [keyAdjustParam]
      rw [if_pos heq]
    simp [mainStep, heq, hcall]
  · have hcall : keyAdjustParam .key3 .key4 s =
        (s.adjustParam (if s.pressed .key3 then 1 else -1)).map fun s' =>
          (s'.clearKey .key3).clearKey .key4 := by
      simp only [State.pressed, decide_eq_decide] at heq
      simp [keyAdjustParam, heq, State.pressed]
    rw [hcall]
    cases hadjust : s.adjustParam (if s.pressed .key3 then 1 else -1) with
    | none => exact ⟨3, by simp [mainStep, heq, hadjust]⟩
    | some s' => exact ⟨5, by simp [mainStep, heq, hadjust]⟩

theorem reaches_chooseBody (s : State) :
    Reaches ids ⟨s, .changePage⟩ ⟨chooseBody ids s, .ifParam⟩ := by
  refine (reaches_keyChangePage s).trans ?_
  rw [chooseBody]
  by_cases htable : HasTable ids (keyChangePage ids .key1 s)
  · have hif : Reaches ids ⟨keyChangePage ids .key1 s, .ifTable⟩
        ⟨keyChangePage ids .key1 s, .selectRow⟩ := ⟨1, by simp [mainStep, htable]⟩
    rw [if_pos htable]
    exact hif.trans (reaches_keySelectNextTableRow _)
  · exact ⟨1, by simp [mainStep, htable]⟩

theorem reaches_actBody (s : State) :
    Reaches ids ⟨s, .ifParam⟩
      (match actBody ids s with
      | some s' => ⟨s', .changePage⟩
      | none => ⟨s, .undefined⟩) := by
  by_cases hparam : s.currentPageId = ids.param
  · have hif : Reaches ids ⟨s, .ifParam⟩ ⟨s, .plus⟩ := ⟨1, by simp [mainStep, hparam]⟩
    rw [actBody, if_pos hparam]
    exact hif.trans (reaches_keyAdjustParam s)
  · have hif : Reaches ids ⟨s, .ifParam⟩ ⟨s, .switchMotor⟩ := ⟨1, by simp [mainStep, hparam]⟩
    rw [actBody, if_neg hparam]
    exact hif.trans (reaches_keySwitchMotor s)

/-- An iteration that no interrupt breaks does what the functions of the menu do. -/
theorem reaches_keysBody (s : State) :
    Reaches ids ⟨s, .changePage⟩
      (match keysBody ids s with
      | some s' => ⟨s', .changePage⟩
      | none => ⟨chooseBody ids s, .undefined⟩) :=
  (reaches_chooseBody s).trans (reaches_actBody _)

end SmartCar.Menu

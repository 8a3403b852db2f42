import Mathlib.Data.Fin.Basic
import SmartCar.Lib.Actions
import SmartCar.Lib.Dial
import SmartCar.Menu.MainLoop

/-!
# menu: the panel

What the menu is for: four pages in a circle, two tables with a row selected in each, two outputs
that are dials, and two switches. A press that the main loop serves is one operation on it.

* `Panel.serve`: the operations, on the pages that offer them;
* `menu_shows_panel`: in every run, whenever the keys are scanned, the variables of the menu are
  those of the panel after the presses that have been served. The one fault is a parameter that
  is adjusted before a row has been selected.
-/

namespace SmartCar.Menu

open Actions Dial Events

/-! ## The panel -/

inductive Page
  | image | debugInfo | cubeInfo | param
deriving DecidableEq, Repr

def Page.next : Page → Page
  | .image => .debugInfo
  | .debugInfo => .cubeInfo
  | .cubeInfo => .param
  | .param => .image

/-- What a press asks for. -/
inductive Request
  | page
  | row
  | adjust (up : Bool)
  | motors
deriving DecidableEq, Repr

/-- Why it cannot be done. -/
inductive Fault
  | notOffered
  | noRow
deriving DecidableEq, Repr

/-- The rows are numbered from 0 here; in the table of the parameters there may be none. -/
structure Panel where
  page : Page
  cubeRow : Fin 13
  paramRow : Option (Fin 3)
  straight : Fin 13
  curve : Fin 13
  loop : Bool
  motors : Bool
deriving DecidableEq, Repr

def Panel.adjust (up : Bool) (p : Panel) : Fin 3 → Panel
  | 0 => { p with straight := turn up p.straight }
  | 1 => { p with curve := turn up p.curve }
  | 2 => { p with loop := !p.loop }

theorem Panel.adjust_same (up : Bool) (p : Panel) (row : Fin 3) :
    (p.adjust up row).page = p.page ∧ (p.adjust up row).cubeRow = p.cubeRow ∧
      (p.adjust up row).paramRow = p.paramRow ∧ (p.adjust up row).motors = p.motors :=
  match row with
  | 0 => ⟨rfl, rfl, rfl, rfl⟩
  | 1 => ⟨rfl, rfl, rfl, rfl⟩
  | 2 => ⟨rfl, rfl, rfl, rfl⟩

def Panel.serve (p : Panel) : Request → Except Fault Panel
  | .page => .ok { p with page := p.page.next }
  | .row =>
    match p.page with
    | .cubeInfo => .ok { p with cubeRow := p.cubeRow + 1 }
    | .param => .ok { p with paramRow := some (p.paramRow.elim 0 (· + 1)) }
    | _ => .error .notOffered
  | .adjust up =>
    if p.page = .param then
      match p.paramRow with
      | some row => .ok (p.adjust up row)
      | none => .error .noRow
    else .error .notOffered
  | .motors => if p.page = .param then .error .notOffered else .ok { p with motors := !p.motors }

/-- The outputs are 80 and 70, two steps above their minima. -/
def panelPowerUp : Panel where
  page := .debugInfo
  cubeRow := 0
  paramRow := none
  straight := 2
  curve := 2
  loop := true
  motors := false

/-! ## What the program shows of it -/

/-- The press that a step of the main loop serves. -/
def request (m : Machine) : KeyEvent → Option Request
  | .scan _ => none
  | .main =>
    match m.pc with
    | .turnPage => some .page
    | .nextRow => some .row
    | .adjust plusPressed minusPressed =>
      if plusPressed = minusPressed then none else some (.adjust plusPressed)
    | .toggle => some .motors
    | _ => none

def PageIds.id (ids : PageIds) : Page → UInt16
  | .image => ids.image
  | .debugInfo => ids.debugInfo
  | .cubeInfo => ids.cubeInfo
  | .param => ids.param

/-- A parameter that is a dial. -/
def dialParam {n : ℕ} (w low step : ℕ) (k : Fin (n + 1)) : IntParam w :=
  ⟨.ofNat w (reading low step k), .ofNat w low, .ofNat w (low + step * n), .ofNat w step⟩

/-- `params`: from 70 to 130, and from 60 to 120, by 5. -/
def Panel.params (p : Panel) : Vector Param paramCount :=
  #v[.u16 (dialParam 16 70 5 p.straight), .u16 (dialParam 16 60 5 p.curve), .bool p.loop]

/-- The pages on which the main loop can stand at a place. -/
def Placed : Pc → Page → Prop
  | .selectRow, page | .nextRow, page => page = .cubeInfo ∨ page = .param
  | .plus, page | .minus _, page | .adjust _ _, page => page = .param
  | .switchMotor, page | .toggle, page => page ≠ .param
  | .undefined, _ => False
  | _, _ => True

structure Shows (ids : PageIds) (m : Machine) (p : Panel) : Prop where
  page : m.menu.currentPageId = ids.id p.page
  cubeRow : m.menu.cubeInfoTableSelectedRow = .ofNat (p.cubeRow + 1)
  paramRow : m.menu.paramTableSelectedRow = p.paramRow.elim 0 fun row => .ofNat (row + 1)
  params : m.menu.params = p.params
  motors : m.menu.motorEnableFlag = p.motors
  placed : Placed m.pc p.page

/-- The fault is that no row has been selected, and the program is lost. -/
def Lost (m : Machine) (f : Fault) : Prop := f = .noRow ∧ m.pc = .undefined

/-! ## Pages, rows and parameters -/

section Parts

variable {ids : PageIds}

theorem nextPage_id (h : Function.Injective ids.id) (page : Page) :
    nextPage ids (ids.id page) = ids.id page.next := by
  show (if ids.id page = ids.id .image then ids.id .debugInfo
    else if ids.id page = ids.id .debugInfo then ids.id .cubeInfo
    else if ids.id page = ids.id .cubeInfo then ids.id .param else ids.id .image) = _
  simp only [h.eq_iff]
  cases page <;> rfl

/-- After the last row comes the first. -/
theorem nextRow_ofNat {n : ℕ} [NeZero n] (hn : n < 255) (row : Fin n) :
    nextRow (.ofNat n) (.ofNat (row + 1)) = .ofNat ((row + 1 : Fin n) + 1) := by
  have hrow := row.isLt
  have hsize : UInt8.size = 256 := rfl
  have hlast : (UInt8.ofNat (row + 1) = UInt8.ofNat n) ↔ row + 1 = n := by
    rw [← UInt8.toNat_inj, UInt8.toNat_ofNat_of_lt' (by omega), UInt8.toNat_ofNat_of_lt' (by omega)]
  have hval : ((row + 1 : Fin n) : ℕ) = (row + 1) % n := by
    rw [Fin.val_add, Fin.val_one', Nat.add_mod_mod]
  rw [nextRow, hval]
  split_ifs with heq
  · rw [hlast.mp heq, Nat.mod_self]
    rfl
  · have hne : (row : ℕ) + 1 ≠ n := fun h => heq (hlast.mpr h)
    rw [Nat.mod_eq_of_lt (by omega), UInt8.ofNat_add (row + 1)]
    rfl

theorem IntParam.number_injective {w : ℕ} :
    Function.Injective (IntParam.number : IntParam w → Number) := by
  rintro ⟨value, lo, hi, step⟩ ⟨value', lo', hi', step'⟩ h
  simpa [IntParam.number, BitVec.toNat_inj] using h

theorem number_dialParam {n w low step : ℕ} (hfits : low + step * (n + 1) < 2 ^ w)
    (hlow : step ≤ low) (k : Fin (n + 1)) :
    (dialParam w low step k).number =
      ⟨w, reading low step k, low, (low + step * n : ℕ), step⟩ := by
  have hle := reading_le low step k
  have heq : low + step * (n + 1) = low + step * n + step := by ring
  have hlt : ∀ x ≤ low + step * n, (BitVec.ofNat w x).toNat = x := fun x hx =>
    (BitVec.toNat_ofNat x w).trans (Nat.mod_eq_of_lt (by omega))
  simp only [IntParam.number, dialParam]
  rw [hlt _ hle, hlt _ (by omega), hlt _ le_rfl, hlt _ (by omega)]

theorem adjust_dialParam {n w low step : ℕ} (hfits : low + step * (n + 1) < 2 ^ w)
    (hlow : step ≤ low) (up : Bool) (k : Fin (n + 1)) :
    (dialParam w low step k).adjust (if up then 1 else -1) = dialParam w low step (turn up k) := by
  apply IntParam.number_injective
  rw [IntParam.number_adjust, number_dialParam hfits hlow, number_dialParam hfits hlow,
    Number.adjust]
  have hclamp := clamp_turn_emod hlow hfits k up
  push_cast at hclamp ⊢
  rw [hclamp]

theorem adjustEntry_params {s : State} {p : Panel} (h : s.params = p.params) (up : Bool)
    (row : Fin 3) :
    (s.adjustEntry row (if up then 1 else -1)).params = (p.adjust up row).params := by
  obtain ⟨keys, page, cubeRow, paramRow, params, motors⟩ := s
  obtain rfl : params = p.params := h
  have hdial : ∀ (low : ℕ) (k : Fin 13), 5 ≤ low ∧ low ≤ 70 →
      (dialParam 16 low 5 k).adjust (if up then 1 else -1) = dialParam 16 low 5 (turn up k) :=
    fun low k hlow => adjust_dialParam (by omega) hlow.1 up k
  match row with
  | 0 =>
    exact congrArg (fun x => #v[Param.u16 x, Param.u16 (dialParam 16 60 5 p.curve),
      Param.bool p.loop]) (hdial 70 p.straight (by decide))
  | 1 =>
    exact congrArg (fun x => #v[Param.u16 (dialParam 16 70 5 p.straight), Param.u16 x,
      Param.bool p.loop]) (hdial 60 p.curve (by decide))
  | 2 => rfl

/-- The entry before the number of the row. -/
theorem paramIndex_of_row {s : State} {row : Fin 3}
    (h : s.paramTableSelectedRow = .ofNat (row + 1)) : s.paramIndex = (row : ℕ) := by
  have hsize : UInt8.size = 256 := rfl
  rw [State.paramIndex, h, UInt8.toNat_ofNat_of_lt' (by omega)]
  push_cast
  ring

theorem adjustParam_of_no_row {s : State} (h : s.paramTableSelectedRow = 0) (sign : ℤ) :
    s.adjustParam sign = none := by
  have hout : ¬ InTable s.paramIndex := by
    rw [State.paramIndex, h]
    decide
  rw [State.adjustParam, dif_neg hout]

end Parts

/-! ## One step -/

section Step

variable {ids : PageIds} {s : State} {pc pc' : Pc} {p : Panel}

theorem shows_powerUp (ids : PageIds) : Shows ids (powerUp ids) panelPowerUp where
  page := rfl
  cubeRow := rfl
  paramRow := rfl
  params := rfl
  motors := rfl
  placed := trivial

theorem Shows.move (h : Shows ids ⟨s, pc⟩ p) (hplaced : Placed pc' p.page) :
    Shows ids ⟨s, pc'⟩ p := ⟨h.page, h.cubeRow, h.paramRow, h.params, h.motors, hplaced⟩

theorem Shows.clear (h : Shows ids ⟨s, pc⟩ p) (key : KeyIndex) (hplaced : Placed pc' p.page) :
    Shows ids ⟨s.clearKey key, pc'⟩ p :=
  ⟨h.page, h.cubeRow, h.paramRow, h.params, h.motors, hplaced⟩

theorem Shows.on_iff (hids : Function.Injective ids.id) (h : Shows ids ⟨s, pc⟩ p) (page : Page) :
    s.currentPageId = ids.id page ↔ p.page = page := by
  rw [h.page, hids.eq_iff]

/-- The steps that serve no press leave the panel alone, and find their way by its page. -/
theorem Shows.idle (hids : Function.Injective ids.id) {m : Machine} (h : Shows ids m p)
    {e : KeyEvent} (hidle : request m e = none) : Shows ids (keyStep ids m e) p := by
  obtain ⟨s, pc⟩ := m
  cases e with
  | scan levels => exact ⟨h.page, h.cubeRow, h.paramRow, h.params, h.motors, h.placed⟩
  | main =>
    have hon := Shows.on_iff hids h
    cases pc with
    | changePage =>
      refine h.move ?_
      split_ifs <;> trivial
    | ifTable =>
      refine h.move ?_
      split_ifs with htable
      · exact htable.imp (hon .cubeInfo).mp (hon .param).mp
      · trivial
    | selectRow =>
      refine h.move ?_
      split_ifs
      · exact h.placed
      · trivial
    | ifParam =>
      refine h.move ?_
      split_ifs with hparam
      · exact (hon .param).mp hparam
      · exact fun heq => hparam ((hon .param).mpr heq)
    | plus => exact h.move h.placed
    | minus plusPressed => exact h.move h.placed
    | adjust plusPressed minusPressed =>
      -- both keys or none
      have heq : plusPressed = minusPressed := by
        by_contra hne
        simp [request, hne] at hidle
      simp only [keyStep, mainStep, if_pos heq]
      exact h.move trivial
    | switchMotor =>
      refine h.move ?_
      split_ifs
      · exact h.placed
      · trivial
    | turnPageClear => exact h.clear .key1 trivial
    | nextRowClear => exact h.clear .key2 trivial
    | plusClear => exact h.clear .key3 trivial
    | minusClear => exact h.clear .key4 trivial
    | toggleClear => exact h.clear .key4 trivial
    | undefined => exact h.placed.elim
    | turnPage => cases hidle
    | nextRow => cases hidle
    | toggle => cases hidle

/-- The row of the table that is on the screen. -/
theorem Shows.row (hids : Function.Injective ids.id) (h : Shows ids ⟨s, .nextRow⟩ p) :
    Agrees (Shows ids) Lost ⟨s.selectRow ids, .nextRowClear⟩ (p.serve .row) := by
  have hon := Shows.on_iff hids h
  obtain ⟨page, cubeRow, paramRow, straight, curve, loop, motors⟩ := p
  rcases h.placed with rfl | rfl
  · have hcube : s.currentPageId = ids.cubeInfo := (hon .cubeInfo).mpr rfl
    rw [State.selectRow, if_pos hcube]
    refine ⟨h.page, ?_, h.paramRow, h.params, h.motors, trivial⟩
    show nextRow _ s.cubeInfoTableSelectedRow = _
    rw [h.cubeRow]
    exact nextRow_ofNat (by decide) cubeRow
  · have hparam : s.currentPageId = ids.param := (hon .param).mpr rfl
    have hcube : s.currentPageId ≠ ids.cubeInfo := fun heq => nomatch (hon .cubeInfo).mp heq
    rw [State.selectRow, if_neg hcube, if_pos hparam]
    refine ⟨h.page, h.cubeRow, ?_, h.params, h.motors, trivial⟩
    show nextRow _ s.paramTableSelectedRow = _
    rw [h.paramRow]
    cases paramRow with
    | none => rfl
    | some row => exact nextRow_ofNat (by decide) row

/-- The parameter of the selected row, if there is one. -/
theorem Shows.adjusted {plusPressed minusPressed : Bool} (hne : plusPressed ≠ minusPressed)
    (h : Shows ids ⟨s, .adjust plusPressed minusPressed⟩ p) :
    Agrees (Shows ids) Lost (mainStep ids ⟨s, .adjust plusPressed minusPressed⟩)
      (p.serve (.adjust plusPressed)) := by
  have hparam : p.page = .param := h.placed
  have hrow := h.paramRow
  simp only [mainStep, if_neg hne, Panel.serve, if_pos hparam]
  cases hselected : p.paramRow with
  | none =>
    rw [hselected] at hrow
    rw [adjustParam_of_no_row hrow]
    exact ⟨rfl, rfl⟩
  | some row =>
    rw [hselected] at hrow
    rw [adjustParam_of_row (paramIndex_of_row hrow)]
    obtain ⟨hpage, hcubeRow, hparamRow, hmotors⟩ := Panel.adjust_same plusPressed p row
    refine ⟨?_, ?_, ?_, adjustEntry_params h.params plusPressed row, ?_, trivial⟩
    · rw [hpage]
      exact h.page
    · rw [hcubeRow]
      exact h.cubeRow
    · rw [hparamRow]
      exact h.paramRow
    · rw [hmotors]
      exact h.motors

theorem Shows.served (hids : Function.Injective ids.id) {m : Machine} (h : Shows ids m p)
    {e : KeyEvent} {r : Request} (hserved : request m e = some r) :
    Agrees (Shows ids) Lost (keyStep ids m e) (p.serve r) := by
  obtain ⟨s, pc⟩ := m
  cases e with
  | scan levels => cases hserved
  | main =>
    cases pc with
    | turnPage =>
      obtain rfl := Option.some.inj hserved
      refine ⟨?_, h.cubeRow, h.paramRow, h.params, h.motors, trivial⟩
      show nextPage ids s.currentPageId = _
      rw [h.page]
      exact nextPage_id hids p.page
    | nextRow =>
      obtain rfl := Option.some.inj hserved
      exact Shows.row hids h
    | adjust plusPressed minusPressed =>
      simp only [request] at hserved
      split_ifs at hserved with heq
      obtain rfl := Option.some.inj hserved
      exact h.adjusted heq
    | toggle =>
      obtain rfl := Option.some.inj hserved
      simp only [Panel.serve, if_neg h.placed]
      exact ⟨h.page, h.cubeRow, h.paramRow, h.params, congrArg not h.motors, trivial⟩
    | _ => cases hserved

end Step

/-! ## The law -/

/-- In every run the menu shows the panel after the presses served, each of which the page
offers, or it is lost because a parameter has been adjusted before a row was selected. -/
theorem menu_shows_panel (ids : PageIds) (hids : Function.Injective ids.id)
    (tr : List KeyEvent) :
    Agrees (Shows ids) Lost (run (keyStep ids) (powerUp ids) tr)
      ((actions (keyStep ids) request (powerUp ids) tr).foldlM Panel.serve panelPowerUp) := by
  refine agrees_actions (shows_powerUp ids) (fun _ _ _ h => Shows.idle hids h)
    (fun _ _ _ _ h => Shows.served hids h) ?_ tr
  rintro ⟨s, pc⟩ f e ⟨hrow, rfl⟩
  cases e with
  | scan levels => exact ⟨hrow, rfl⟩
  | main => exact ⟨hrow, rfl⟩

theorem injective_boardIds : Function.Injective boardIds.id := by
  intro page page' h
  cases page <;> cases page' <;> first | rfl | exact absurd h (by decide)

/-- KEY_1 twice, and then KEY_2 and KEY_3: the first output goes up. -/
def tune : List KeyEvent :=
  [held .key1, released] ++ List.replicate 7 .main ++
    [held .key1, released] ++ List.replicate 9 .main ++
    [held .key2, released] ++ List.replicate 9 .main ++
    [held .key3, released] ++ List.replicate 9 .main

theorem menu_shows_panel_tune :
    Agrees (Shows boardIds) Lost (run (keyStep boardIds) (powerUp boardIds) tune)
      ((actions (keyStep boardIds) request (powerUp boardIds) tune).foldlM Panel.serve
        panelPowerUp) :=
  menu_shows_panel boardIds injective_boardIds tune

example : actions (keyStep boardIds) request (powerUp boardIds) tune =
    [.page, .page, .row, .adjust true] := by
  decide +kernel

end SmartCar.Menu

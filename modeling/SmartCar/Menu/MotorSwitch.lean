import SmartCar.Menu.MainLoop

/-!
# menu: KEY_4 and the motors

`key_switch_motor` switches the motors when it finds a state of KEY_4, and then clears the
state. But a key that is held down for a second is reported again by each scan, and a short
press that is served late is served during the next one.

* `Press`: the press that is going on, or was the last one, and how often it has switched the
  motors;
* `PressInv`: the switches so far and the one that is outstanding are one at most;
* `once_per_press`: so they are in every run whose scans raise no state that has been served
  already, and begin no press while a switch is outstanding.
-/

namespace SmartCar.Menu

open Events

variable {ids : PageIds} {m : Machine} {level : Level} {key : Key}

/-! ## Presses -/

/-- `held`: the scans in a row, up to the last one, that have seen KEY_4 pressed. `toggles`: how
often the motors have been switched since the last press began. `presses`: all presses. -/
structure Press where
  held : ℕ
  toggles : ℕ
  presses : ℕ
deriving DecidableEq

/-- What a scan tells of KEY_4. -/
def Press.scan (level : Level) (p : Press) : Press :=
  if keyReleaseLevel = level then { p with held := 0 }
  else if p.held = 0 then ⟨1, 0, p.presses + 1⟩
  else { p with held := p.held + 1 }

/-- The machine, with its presses. -/
structure Watched where
  machine : Machine
  press : Press

/-- How often a step switches the motors. -/
def switches (ids : PageIds) (m : Machine) (e : KeyEvent) : ℕ :=
  if (keyStep ids m e).menu.motorEnableFlag ≠ m.menu.motorEnableFlag then 1 else 0

def observe (ids : PageIds) (m : Machine) (p : Press) : KeyEvent → Press
  | .scan levels => p.scan (levels .key4)
  | .main => { p with toggles := p.toggles + switches ids m .main }

def watch (ids : PageIds) (w : Watched) (e : KeyEvent) : Watched :=
  ⟨keyStep ids w.machine e, observe ids w.machine w.press e⟩

/-- Watching does not change the run. -/
theorem machine_run_watch (w : Watched) (tr : List KeyEvent) :
    (run (watch ids) w tr).machine = run (keyStep ids) w.machine tr := by
  induction tr using List.reverseRecOn with
  | nil => rfl
  | append_singleton tr e ih => rw [run_concat, run_concat, ← ih, watch]

/-! ## Law and condition -/

/-- One press switches the motors once at most, and without a press they are not switched. -/
def OncePerPress (w : Watched) : Prop := w.press.toggles ≤ min w.press.presses 1

/-- The motors are going to be switched: `key_switch_motor` has found a state of KEY_4, or will
find one. -/
def Outstanding (m : Machine) : Prop :=
  m.pc = .toggle ∨ m.pc ≠ .toggleClear ∧ (m.menu.keys .key4).state ≠ .release

instance (m : Machine) : Decidable (Outstanding m) := inferInstanceAs (Decidable (_ ∨ _))

/-- A scan gives a key a state that has none. -/
def Raises (level : Level) (key : Key) : Prop :=
  key.state = .release ∧
    if keyReleaseLevel ≠ level then keyLongPressPeriod ≤ key.pressTime + scannerPeriod
    else keyMaxShockPeriod ≤ key.pressTime ∧ keyLongPressPeriod > key.pressTime

instance (level : Level) (key : Key) : Decidable (Raises level key) :=
  inferInstanceAs (Decidable (_ ∧ _))

/-- A press begins when the one before it has been served; and after 50 scans, when a long press
is reported, no scan raises the state again. -/
def Calm (_ : List KeyEvent) (w : Watched) : KeyEvent → Prop
  | .scan levels =>
    (levels .key4 ≠ keyReleaseLevel → w.press.held = 0 → ¬ Outstanding w.machine) ∧
      (50 ≤ w.press.held → ¬ Raises (levels .key4) (w.machine.menu.keys .key4))
  | .main => True

instance (before : List KeyEvent) (w : Watched) (e : KeyEvent) : Decidable (Calm before w e) :=
  match e with
  | .scan _ => inferInstanceAs (Decidable ((_ → _ → _) ∧ (_ → _)))
  | .main => inferInstanceAs (Decidable True)

/-! ## Scans -/

theorem state_scanKey (h : ¬ Raises level key) (hstate : key.state = .release) :
    (scanKey level key).state = .release := by
  simp only [Raises, hstate, true_and] at h
  unfold scanKey
  split_ifs at h ⊢ with hlevel
  · simp [h, hstate]
  · simp [h, hstate]

theorem pressTime_scanKey_of_ne (h : keyReleaseLevel ≠ level) :
    (scanKey level key).pressTime = key.pressTime + scannerPeriod := by
  simp [scanKey, h]

theorem pressTime_scanKey_of_eq (h : keyReleaseLevel = level) :
    (scanKey level key).pressTime = 0 := by
  simp [scanKey, h]

/-- A scan that raises no state makes no switch outstanding. -/
theorem outstanding_of_scan {levels : KeyIndex → Level}
    (h : ¬ Raises (levels .key4) (m.menu.keys .key4))
    (hnext : Outstanding (keyStep ids m (.scan levels))) : Outstanding m := by
  rcases hnext with htoggle | ⟨hpc, hstate⟩
  · exact .inl htoggle
  · exact .inr ⟨hpc, fun hrelease => hstate (state_scanKey h hrelease)⟩

/-! ## Steps of the main loop -/

/-- What a step of the main loop is to KEY_4 and the motors. -/
inductive Serves (m m' : Machine) : Prop
  | switched (hpc : m.pc = .toggle) (hpc' : m'.pc = .toggleClear)
  | cleared (hflag : m'.menu.motorEnableFlag = m.menu.motorEnableFlag) (hpc' : m'.pc ≠ .toggle)
      (hstate : (m'.menu.keys .key4).state = .release)
  | kept (hflag : m'.menu.motorEnableFlag = m.menu.motorEnableFlag) (hpc : m.pc ≠ .toggleClear)
      (hstate : (m'.menu.keys .key4).state = (m.menu.keys .key4).state)
      (htoggle : m'.pc = .toggle → (m.menu.keys .key4).state ≠ .release)

/-- The motors are switched after a state of KEY_4 has been found, and only then. -/
theorem pressed_of_toggle {m : Machine} (h : (mainStep ids m).pc = .toggle) :
    m.pc = .switchMotor ∧ (m.menu.keys .key4).state ≠ .release := by
  obtain ⟨s, pc⟩ := m
  cases pc with
  | switchMotor =>
    refine ⟨rfl, fun hrelease => ?_⟩
    have hpressed : s.pressed .key4 = false := pressed_eq_false.mpr hrelease
    simp [mainStep, hpressed] at h
  | changePage | ifTable | selectRow | ifParam =>
    simp only [mainStep] at h
    split_ifs at h
  | adjust plusPressed minusPressed =>
    obtain ⟨-, -, -, hpc⟩ := adjust_frame ids s plusPressed minusPressed
    rcases hpc with hpc | hpc | hpc <;> simp [hpc] at h
  | _ => simp [mainStep] at h

theorem serves_mainStep (ids : PageIds) (m : Machine) : Serves m (mainStep ids m) := by
  obtain ⟨s, pc⟩ := m
  cases pc with
  | toggle => exact .switched rfl rfl
  | toggleClear => exact .cleared rfl (by simp [mainStep]) (keyGetState_keyClearState .key4 s.keys)
  | minusClear => exact .cleared rfl (by simp [mainStep]) (keyGetState_keyClearState .key4 s.keys)
  | adjust plusPressed minusPressed =>
    obtain ⟨hkeys, -, hflag, -⟩ := adjust_frame ids s plusPressed minusPressed
    exact .kept hflag (by simp) (by rw [hkeys]) fun h => (pressed_of_toggle h).2
  | _ =>
    exact .kept (by simp [mainStep]) (by simp) (by simp [mainStep]) fun h => (pressed_of_toggle h).2

/-- A switch that is made was outstanding, and is so no longer. -/
theorem Serves.outstanding {m m' : Machine} (h : Serves m m') (hnext : Outstanding m') :
    m'.menu.motorEnableFlag = m.menu.motorEnableFlag ∧ Outstanding m := by
  cases h with
  | switched hpc hpc' =>
    rcases hnext with htoggle | ⟨hclear, -⟩
    · simp [hpc'] at htoggle
    · exact absurd hpc' hclear
  | cleared hflag hpc' hstate =>
    rcases hnext with htoggle | ⟨-, hpressed⟩
    · exact absurd htoggle hpc'
    · exact absurd hstate hpressed
  | kept hflag hpc hstate htoggle =>
    refine ⟨hflag, .inr ⟨hpc, ?_⟩⟩
    rcases hnext with htoggle' | ⟨-, hpressed⟩
    · exact htoggle htoggle'
    · rwa [hstate] at hpressed

theorem Serves.outstanding_of_switch {m m' : Machine} (h : Serves m m')
    (hflag : m'.menu.motorEnableFlag ≠ m.menu.motorEnableFlag) : Outstanding m := by
  cases h with
  | switched hpc hpc' => exact .inl hpc
  | cleared hsame _ _ => exact absurd hsame hflag
  | kept hsame _ _ _ => exact absurd hsame hflag

theorem pressTime_mainStep (ids : PageIds) (m : Machine) :
    ((mainStep ids m).menu.keys .key4).pressTime = (m.menu.keys .key4).pressTime := by
  obtain ⟨s, pc⟩ := m
  cases pc with
  | adjust plusPressed minusPressed =>
    rw [(adjust_frame ids s plusPressed minusPressed).1]
  | _ => simp [mainStep]

/-! ## Switches -/

/-- The switches that are outstanding, one or none. -/
def outstanding (m : Machine) : ℕ := if Outstanding m then 1 else 0

theorem outstanding_le (m : Machine) : outstanding m ≤ 1 := by
  unfold outstanding
  split_ifs <;> omega

/-- The main loop makes a switch that is outstanding, and no other. -/
theorem switches_add_outstanding (ids : PageIds) (m : Machine) :
    switches ids m .main + outstanding (mainStep ids m) ≤ outstanding m := by
  have hserves := serves_mainStep ids m
  unfold switches outstanding
  by_cases hnext : Outstanding (mainStep ids m)
  · -- it is outstanding still, so it has not been made
    obtain ⟨hflag, hm⟩ := hserves.outstanding hnext
    simp [keyStep, hflag, hnext, hm]
  · by_cases hflag : (mainStep ids m).menu.motorEnableFlag = m.menu.motorEnableFlag
    · simp [keyStep, hflag, hnext]
    · simp [keyStep, hflag, hnext, hserves.outstanding_of_switch hflag]

theorem outstanding_scan_le (ids : PageIds) {levels : KeyIndex → Level}
    (h : ¬ Raises (levels .key4) (m.menu.keys .key4)) :
    outstanding (keyStep ids m (.scan levels)) ≤ outstanding m := by
  unfold outstanding
  by_cases hnext : Outstanding (keyStep ids m (.scan levels))
  · simp [hnext, outstanding_of_scan h hnext]
  · simp [hnext]

/-! ## The invariant -/

/-- The time of a press is that of its scans; a press of less than 50 scans has not been reported
yet; and each press has one switch at most, made or outstanding. -/
structure PressInv (w : Watched) : Prop where
  time : w.press.held < 50 →
    (w.machine.menu.keys .key4).pressTime.toNat = 20 * w.press.held
  fresh : 0 < w.press.held → w.press.held < 50 →
    w.press.toggles = 0 ∧ outstanding w.machine = 0
  began : 0 < w.press.held → 0 < w.press.presses
  once : w.press.toggles + outstanding w.machine ≤ min w.press.presses 1

variable {w : Watched} {levels : KeyIndex → Level}

theorem PressInv.time_add (inv : PressInv w) (h : w.press.held < 50) :
    ((w.machine.menu.keys .key4).pressTime + scannerPeriod).toNat = 20 * (w.press.held + 1) := by
  rw [UInt32.toNat_add, inv.time h]
  simp [scannerPeriod]
  omega

/-- The first 49 scans of a press raise no state. -/
theorem PressInv.not_raises_of_pressed (inv : PressInv w) (hlevel : keyReleaseLevel ≠ level)
    (h : w.press.held < 49) : ¬ Raises level (w.machine.menu.keys .key4) := by
  rintro ⟨-, htime⟩
  rw [if_pos hlevel, UInt32.le_iff_toNat_le, inv.time_add (by omega)] at htime
  simp [keyLongPressPeriod] at htime
  omega

/-- Without a press no state is raised. -/
theorem PressInv.not_raises_of_idle (inv : PressInv w) (hlevel : keyReleaseLevel = level)
    (h : w.press.held = 0) : ¬ Raises level (w.machine.menu.keys .key4) := by
  rintro ⟨-, htime⟩
  rw [if_neg (not_not.mpr hlevel), UInt32.le_iff_toNat_le, inv.time (by omega), h] at htime
  simp [keyMaxShockPeriod] at htime

theorem PressInv.released (inv : PressInv w) (hlevel : keyReleaseLevel = levels .key4)
    (hcalm : Calm [] w (.scan levels)) : PressInv (watch ids w (.scan levels)) := by
  have hpress : (watch ids w (.scan levels)).press = { w.press with held := 0 } := by
    simp [watch, observe, Press.scan, hlevel]
  constructor
  · intro _
    rw [hpress]
    simp [watch, keyStep, keyScanner, pressTime_scanKey_of_eq hlevel]
  · intro hpos
    simp [hpress] at hpos
  · intro hpos
    simp [hpress] at hpos
  · rw [hpress]
    by_cases hshort : 0 < w.press.held ∧ w.press.held < 50
    · -- a short press may be reported now, and has not been before
      obtain ⟨htoggles, -⟩ := inv.fresh hshort.1 hshort.2
      have hbegan := inv.began hshort.1
      have hle := outstanding_le (watch ids w (.scan levels)).machine
      dsimp only
      omega
    · have hraises : ¬ Raises (levels .key4) (w.machine.menu.keys .key4) := by
        by_cases hidle : w.press.held = 0
        · exact inv.not_raises_of_idle hlevel hidle
        · exact hcalm.2 (by omega)
      exact (Nat.add_le_add_left (outstanding_scan_le ids hraises) _).trans inv.once

/-- The first scan of a press. -/
theorem PressInv.begun (inv : PressInv w) (hlevel : keyReleaseLevel ≠ levels .key4)
    (hidle : w.press.held = 0) (hcalm : Calm [] w (.scan levels)) :
    PressInv (watch ids w (.scan levels)) := by
  have hpress : (watch ids w (.scan levels)).press = ⟨1, 0, w.press.presses + 1⟩ := by
    simp [watch, observe, Press.scan, hlevel, hidle]
  -- the press before has been served, and this one is not reported by its first scan
  have hnone : outstanding (watch ids w (.scan levels)).machine = 0 := by
    have hraises := inv.not_raises_of_pressed hlevel (by omega : w.press.held < 49)
    have hserved : outstanding w.machine = 0 := if_neg (hcalm.1 hlevel.symm hidle)
    exact Nat.le_zero.mp (hserved ▸ outstanding_scan_le ids hraises)
  constructor
  · intro _
    simp only [watch, keyStep, keyScanner]
    rw [pressTime_scanKey_of_ne hlevel, inv.time_add (by omega), hidle]
    simp [observe, Press.scan, hlevel, hidle]
  · intro _ _
    exact ⟨by rw [hpress], hnone⟩
  · intro _
    simp [hpress]
  · rw [hnone, hpress]
    simp

/-- The scans after it. -/
theorem PressInv.continued (inv : PressInv w) (hlevel : keyReleaseLevel ≠ levels .key4)
    (hheld : 0 < w.press.held) (hcalm : Calm [] w (.scan levels)) :
    PressInv (watch ids w (.scan levels)) := by
  have hpress : (watch ids w (.scan levels)).press = { w.press with held := w.press.held + 1 } := by
    simp [watch, observe, Press.scan, hlevel, hheld.ne']
  constructor
  · intro hlt
    rw [hpress] at hlt ⊢
    dsimp only at hlt ⊢
    simp only [watch, keyStep, keyScanner]
    rw [pressTime_scanKey_of_ne hlevel, inv.time_add (by omega)]
  · intro _ hlt
    rw [hpress] at hlt ⊢
    dsimp only at hlt ⊢
    obtain ⟨htoggles, hnone⟩ := inv.fresh hheld (by omega)
    have hraises := inv.not_raises_of_pressed hlevel (by omega : w.press.held < 49)
    exact ⟨htoggles, Nat.le_zero.mp (hnone ▸ outstanding_scan_le ids hraises)⟩
  · intro _
    rw [hpress]
    exact inv.began hheld
  · rw [hpress]
    by_cases hlast : w.press.held = 49
    · -- a long press is reported now, and has not been before
      obtain ⟨htoggles, -⟩ := inv.fresh hheld (by omega)
      have hbegan := inv.began hheld
      have hle := outstanding_le (watch ids w (.scan levels)).machine
      dsimp only
      omega
    · have hraises : ¬ Raises (levels .key4) (w.machine.menu.keys .key4) := by
        by_cases hshort : w.press.held < 49
        · exact inv.not_raises_of_pressed hlevel hshort
        · exact hcalm.2 (by omega)
      exact (Nat.add_le_add_left (outstanding_scan_le ids hraises) _).trans inv.once

theorem PressInv.main (inv : PressInv w) : PressInv (watch ids w .main) := by
  have hmachine : (watch ids w .main).machine = mainStep ids w.machine := rfl
  have hpress : (watch ids w .main).press =
      { w.press with toggles := w.press.toggles + switches ids w.machine .main } := rfl
  have hle := switches_add_outstanding ids w.machine
  constructor
  · intro hlt
    rw [hmachine, pressTime_mainStep]
    exact inv.time hlt
  · intro hpos hlt
    obtain ⟨htoggles, hnone⟩ := inv.fresh hpos hlt
    rw [hmachine, hpress]
    dsimp only
    omega
  · exact inv.began
  · have honce := inv.once
    rw [hmachine, hpress]
    dsimp only
    omega

/-! ## The law -/

theorem step_pressInv (before : List KeyEvent) {e : KeyEvent} (inv : PressInv w)
    (hcalm : Calm before w e) : PressInv (watch ids w e) := by
  cases e with
  | main => exact inv.main
  | scan levels =>
    by_cases hlevel : keyReleaseLevel = levels .key4
    · exact inv.released hlevel hcalm
    · rcases Nat.eq_zero_or_pos w.press.held with hidle | hheld
      · exact inv.begun hlevel hidle hcalm
      · exact inv.continued hlevel hheld hcalm

/-- No press yet. -/
def unpressed : Press := ⟨0, 0, 0⟩

theorem init_pressInv {m₀ : Machine} (hkey : m₀.menu.keys .key4 = ⟨0, .release⟩)
    (hpc : m₀.pc ≠ .toggle) : PressInv ⟨m₀, unpressed⟩ := by
  have hnone : outstanding m₀ = 0 := by
    simp [outstanding, Outstanding, hkey, hpc]
  exact ⟨by simp [hkey, unpressed], by simp [unpressed], by simp [unpressed],
    by simp [hnone, unpressed]⟩

/-- In every run whose scans are calm, each press switches the motors once at most. -/
theorem once_per_press (ids : PageIds) (m₀ : Machine)
    (hkey : m₀.menu.keys .key4 = ⟨0, .release⟩) (hpc : m₀.pc ≠ .toggle) (tr : List KeyEvent)
    (hcalm : Along (watch ids) ⟨m₀, unpressed⟩ Calm tr) :
    Throughout (watch ids) ⟨m₀, unpressed⟩ OncePerPress tr := by
  refine throughout_of_inv (watch ids) ⟨m₀, unpressed⟩ Calm OncePerPress ?_ tr hcalm
  intro before hbefore
  have inv := run_induction_along (watch ids) ⟨m₀, unpressed⟩ Calm (fun _ w => PressInv w)
    (init_pressInv hkey hpc) (fun tr e inv hcalm => step_pressInv tr inv hcalm) before hbefore
  exact (Nat.le_add_right _ _).trans inv.once

/-! ## A long press -/

/-- The key is pressed for the time of a scan, and served. -/
def tapped : List KeyEvent := [held .key4, released] ++ List.replicate 6 .main

theorem once_per_press_tapped :
    Throughout (watch boardIds) ⟨powerUp boardIds, unpressed⟩ OncePerPress tapped :=
  once_per_press boardIds (powerUp boardIds) rfl (by decide) tapped (by decide +kernel)

/-- The key is held down for 51 scans, and the main loop serves it after the 50th and after the
51st. -/
def keptDown : List KeyEvent :=
  List.replicate 50 (held .key4) ++ List.replicate 6 .main ++ [held .key4] ++
    List.replicate 6 .main

/-- The one press switches the motors on and off again. -/
theorem keptDown_twice :
    ¬ Throughout (watch boardIds) ⟨powerUp boardIds, unpressed⟩ OncePerPress keptDown := by
  intro h
  have hpress :
      (run (watch boardIds) ⟨powerUp boardIds, unpressed⟩ keptDown).press = ⟨51, 2, 1⟩ := by
    decide +kernel
  have honce := h keptDown [] (by simp)
  rw [OncePerPress, hpress] at honce
  exact absurd honce (by decide)

end SmartCar.Menu

import Mathlib.Logic.Function.Basic
import Mathlib.Tactic.Common

/-!
# zf_device_key

`key_scanner`, which the PIT interrupt calls every 20 ms, measures how long each key has been
pressed. A short press is reported when it ends; a long one at each scan from the 50th on, until
it ends. A state that has been reported stays until `key_clear_state` or a later scan takes it
back.
-/

namespace SmartCar.Menu

/-- `key_index_enum` -/
inductive KeyIndex
  | key1 | key2 | key3 | key4
deriving DecidableEq, Repr

/-- `key_state_enum` -/
inductive KeyState
  | release | shortPress | longPress
deriving DecidableEq, Repr

/-- `GPIO_LOW`, `GPIO_HIGH` -/
inductive Level
  | low | high
deriving DecidableEq, Repr

def keyReleaseLevel : Level := .high
def keyMaxShockPeriod : UInt32 := 10
def keyLongPressPeriod : UInt32 := 1000

/-- `scanner_period`, as `key_init(20)` sets it. -/
def scannerPeriod : UInt32 := 20

/-- `key_press_time` and `key_state` of a key. -/
structure Key where
  pressTime : UInt32
  state : KeyState
deriving DecidableEq, Repr

/-- `key_scanner`, for one key. -/
def scanKey (level : Level) (key : Key) : Key :=
  if keyReleaseLevel ≠ level then
    let pressTime := key.pressTime + scannerPeriod
    ⟨pressTime, if keyLongPressPeriod ≤ pressTime then .longPress else key.state⟩
  else
    let short := key.state ≠ .longPress ∧ keyMaxShockPeriod ≤ key.pressTime ∧
      keyLongPressPeriod > key.pressTime
    ⟨0, if short then .shortPress else .release⟩

/-- The keys of the board. -/
abbrev Keys := KeyIndex → Key

/-- `key_scanner` -/
def keyScanner (levels : KeyIndex → Level) (keys : Keys) : Keys :=
  fun i => scanKey (levels i) (keys i)

/-- `key_get_state` -/
def keyGetState (key : KeyIndex) (keys : Keys) : KeyState := (keys key).state

/-- `key_clear_state` -/
def keyClearState (key : KeyIndex) (keys : Keys) : Keys :=
  Function.update keys key { keys key with state := .release }

@[simp] theorem keyGetState_keyClearState (key : KeyIndex) (keys : Keys) :
    keyGetState key (keyClearState key keys) = .release := by
  simp [keyGetState, keyClearState]

@[simp] theorem keyClearState_of_ne {i key : KeyIndex} (h : i ≠ key) (keys : Keys) :
    keyClearState key keys i = keys i := by
  simp [keyClearState, h]

@[simp] theorem pressTime_keyClearState (i key : KeyIndex) (keys : Keys) :
    (keyClearState key keys i).pressTime = (keys i).pressTime := by
  by_cases h : i = key
  · subst h
    simp [keyClearState]
  · simp [h]

/-- The keys at power-up. -/
def noKeys : Keys := fun _ => ⟨0, .release⟩

end SmartCar.Menu

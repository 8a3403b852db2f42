import Mathlib.Data.Rat.Floor
import Mathlib.Tactic.FieldSimp
import SmartCar.Lib.Scan

/-!
# Stepping through a data set

`App.vue` steps through the frames of a data set with a plain modulus. The frames are numbered
from 1: `from-vid.sh` writes them so, a new session begins at 1, and the progress bar goes to
`1 … size`. The modulus walks round `0 … size - 1`.

* `progressIndex_mem`: the progress bar leads to frames of the data set only;
* `covers_fromZero`: the steps would be right for frames numbered from 0;
* `not_covers_fromOne`: as they are numbered, the last frame is never reached;
* `runNext_mem_iff` and its neighbours: which frames the two steps are right for.
-/

namespace SmartCar.Debugger

/-! ## Data -/

/-- An entry of `history`. -/
structure HistoryEntry where
  frameIndex : ℤ
  offset : ℚ
deriving DecidableEq

/-- `OFFSET_HISTORY_SIZE` -/
def offsetHistorySize : ℕ := 15

/-- The size of the data set, the frame index of the session, and what is kept of the frames
that have been run. -/
structure App where
  size : ℕ
  frameIndex : ℤ
  history : List HistoryEntry
  isLoadingFrame : Bool
  loadedFrameIndex : ℤ
deriving DecidableEq

/-- The application with the session that `/create-session` returns. -/
def App.start (size : ℕ) : App := ⟨size, 1, [], false, 1⟩

/-! ## The code -/

/-- `if (history[0]?.frameIndex === sess.frameIndex) history.shift()` -/
def shiftHistory (app : App) : App :=
  if app.history.head?.map HistoryEntry.frameIndex = some app.frameIndex then
    { app with history := app.history.tail }
  else app

/-- `runFrame`, awaited: `reply` is the offset that the frame has printed. A run that fails, or
prints none, leaves the history as it was. -/
def runFrame (app : App) (reply : Option ℚ) : App :=
  let app := shiftHistory app
  if app.isLoadingFrame then app
  else
    match reply with
    | none => app
    | some offset =>
      let history := ⟨app.frameIndex, offset⟩ :: app.history
      { app with
        history := if history.length > offsetHistorySize then history.dropLast else history
        loadedFrameIndex := app.frameIndex }

/-- `runNext` -/
def runNext (app : App) (reply : Option ℚ) : App :=
  runFrame { app with frameIndex := (app.frameIndex + 1).tmod app.size } reply

/-- `runPrev` -/
def runPrev (app : App) (reply : Option ℚ) : App :=
  let app := shiftHistory app
  runFrame { app with frameIndex := (app.frameIndex - 1 + app.size).tmod app.size } reply

/-- `progressIndex`, for a mouse at `x` and `y` from the corner of the bar. -/
def progressIndex (app : App) (x y width height : ℚ) : Option ℤ :=
  if x ≥ 0 ∧ x < width ∧ y ≥ 0 ∧ y ≤ height then some (⌊x / width * app.size⌋ + 1) else none

/-- `gotoProgress` -/
def gotoProgress (app : App) (progressIndex : Option ℤ) (reply : Option ℚ) : App :=
  match progressIndex with
  | none => app
  | some index => runFrame { app with frameIndex := index } reply

/-- The frames that successive `runNext` steps lead to. -/
def visited (app : App) : List (Option ℚ) → List ℤ
  | [] => []
  | reply :: replies =>
    (runNext app reply).frameIndex :: visited (runNext app reply) replies

variable {app : App}

/-! ## The frame index -/

@[simp] theorem shiftHistory_frameIndex (app : App) :
    (shiftHistory app).frameIndex = app.frameIndex := by
  unfold shiftHistory
  split_ifs <;> rfl

@[simp] theorem shiftHistory_size (app : App) : (shiftHistory app).size = app.size := by
  unfold shiftHistory
  split_ifs <;> rfl

@[simp] theorem runFrame_frameIndex (app : App) (reply : Option ℚ) :
    (runFrame app reply).frameIndex = app.frameIndex := by
  unfold runFrame
  cases reply <;> dsimp only <;> split_ifs <;> simp

@[simp] theorem runFrame_size (app : App) (reply : Option ℚ) :
    (runFrame app reply).size = app.size := by
  unfold runFrame
  cases reply <;> dsimp only <;> split_ifs <;> simp

@[simp] theorem runNext_size (app : App) (reply : Option ℚ) :
    (runNext app reply).size = app.size := by
  simp [runNext]

@[simp] theorem runPrev_size (app : App) (reply : Option ℚ) :
    (runPrev app reply).size = app.size := by
  simp [runPrev]

theorem runNext_frameIndex (h : 0 ≤ app.frameIndex) (reply : Option ℚ) :
    (runNext app reply).frameIndex = (app.frameIndex + 1) % app.size := by
  rw [runNext, runFrame_frameIndex, Int.tmod_eq_emod_of_nonneg (by omega)]

theorem runPrev_frameIndex (h : 0 ≤ app.frameIndex) (hsize : 1 ≤ app.size) (reply : Option ℚ) :
    (runPrev app reply).frameIndex = (app.frameIndex - 1) % app.size := by
  rw [runPrev, runFrame_frameIndex]
  simp only [shiftHistory_frameIndex, shiftHistory_size]
  rw [Int.tmod_eq_emod_of_nonneg (by omega), Int.add_emod_right]

theorem visited_eq (h : 0 ≤ app.frameIndex) (hsize : 1 ≤ app.size) (replies : List (Option ℚ)) :
    visited app replies =
      (List.range replies.length).map fun i : ℕ => (app.frameIndex + 1 + i) % app.size := by
  induction replies generalizing app with
  | nil => rfl
  | cons reply replies ih =>
    have hnext := runNext_frameIndex h reply
    have hnonneg : 0 ≤ (runNext app reply).frameIndex := by
      rw [hnext]
      exact Int.emod_nonneg _ (by omega)
    rw [visited, ih hnonneg (by simpa using hsize), hnext, List.length_cons,
      List.range_succ_eq_map, List.map_cons, List.map_map]
    congr 1
    · simp
    · refine List.map_congr_left fun i _ => ?_
      rw [runNext_size, add_assoc, Int.emod_add_emod]
      simp only [Function.comp_apply, Nat.succ_eq_add_one]
      congr 1
      push_cast
      ring

/-! ## Covering a data set -/

/-- Frames numbered from 1, as they are. -/
def fromOne (size : ℕ) : List ℤ := (List.range size).map fun i : ℕ => (i : ℤ) + 1

/-- Frames numbered from 0. -/
def fromZero (size : ℕ) : List ℤ := (List.range size).map fun i : ℕ => (i : ℤ)

theorem mem_fromOne {size : ℕ} {f : ℤ} : f ∈ fromOne size ↔ 1 ≤ f ∧ f ≤ size := by
  simp only [fromOne, List.mem_map, List.mem_range]
  constructor
  · rintro ⟨i, hi, rfl⟩
    omega
  · intro h
    exact ⟨(f - 1).toNat, by omega, by omega⟩

theorem mem_fromZero {size : ℕ} {f : ℤ} : f ∈ fromZero size ↔ 0 ≤ f ∧ f < size := by
  simp only [fromZero, List.mem_map, List.mem_range]
  constructor
  · rintro ⟨i, hi, rfl⟩
    omega
  · intro h
    exact ⟨f.toNat, by omega, by omega⟩

/-- Stepping from here stays among the frames, forward and back undo each other, and as many
steps as there are frames visit each of them once. -/
structure Covers (frames : List ℤ) (app : App) : Prop where
  next_mem : ∀ reply, (runNext app reply).frameIndex ∈ frames
  prev_mem : ∀ reply, (runPrev app reply).frameIndex ∈ frames
  prev_next : ∀ reply reply',
    (runPrev (runNext app reply) reply').frameIndex = app.frameIndex
  next_prev : ∀ reply reply',
    (runNext (runPrev app reply) reply').frameIndex = app.frameIndex
  cycle : ∀ replies, replies.length = app.size → (visited app replies).Perm frames

/-- The progress bar leads to frames of the data set, numbered from 1. -/
theorem progressIndex_mem {x y width height : ℚ} {index : ℤ} (hsize : 1 ≤ app.size)
    (h : progressIndex app x y width height = some index) : index ∈ fromOne app.size := by
  rw [progressIndex] at h
  split_ifs at h with hin
  obtain ⟨hx, hwidth, -, -⟩ := hin
  rw [Option.some.injEq] at h
  subst h
  have hpos : 0 < width := by linarith
  have hsize' : (0 : ℚ) < app.size := by exact_mod_cast hsize
  have hlow : 0 ≤ x / width * app.size := by positivity
  have hhigh : x / width * app.size < app.size := by
    have hlt : x / width < 1 := (div_lt_one hpos).mpr hwidth
    nlinarith
  have hfloor : 0 ≤ ⌊x / width * app.size⌋ := Int.floor_nonneg.mpr hlow
  have hfloor' : ⌊x / width * app.size⌋ < app.size := Int.floor_lt.mpr (by exact_mod_cast hhigh)
  rw [mem_fromOne]
  omega

/-- For frames numbered from 0 the steps are right. -/
theorem covers_fromZero (h : app.frameIndex ∈ fromZero app.size) :
    Covers (fromZero app.size) app := by
  rw [mem_fromZero] at h
  have hsize : 1 ≤ app.size := by omega
  have hne : (app.size : ℤ) ≠ 0 := by omega
  have hself : app.frameIndex % app.size = app.frameIndex := Int.emod_eq_of_lt h.1 h.2
  constructor
  · intro reply
    rw [runNext_frameIndex h.1, mem_fromZero]
    exact ⟨Int.emod_nonneg _ hne, Int.emod_lt_of_pos _ (by omega)⟩
  · intro reply
    rw [runPrev_frameIndex h.1 hsize, mem_fromZero]
    exact ⟨Int.emod_nonneg _ hne, Int.emod_lt_of_pos _ (by omega)⟩
  · intro reply reply'
    have hnext := runNext_frameIndex h.1 reply
    have hnonneg : 0 ≤ (runNext app reply).frameIndex := by
      rw [hnext]
      exact Int.emod_nonneg _ hne
    rw [runPrev_frameIndex hnonneg (by simpa using hsize), runNext_size, hnext,
      Int.emod_sub_emod, add_sub_cancel_right, hself]
  · intro reply reply'
    have hprev := runPrev_frameIndex h.1 hsize reply
    have hnonneg : 0 ≤ (runPrev app reply).frameIndex := by
      rw [hprev]
      exact Int.emod_nonneg _ hne
    rw [runNext_frameIndex hnonneg, runPrev_size, hprev, Int.emod_add_emod, sub_add_cancel, hself]
  · intro replies hlength
    rw [visited_eq h.1 hsize, hlength]
    exact Scan.round_perm app.size (app.frameIndex + 1)

/-! ## Frames numbered from 1 -/

section FromOne

variable (h : app.frameIndex ∈ fromOne app.size)

include h

theorem runNext_mem_iff (reply : Option ℚ) :
    (runNext app reply).frameIndex ∈ fromOne app.size ↔
      app.frameIndex + 1 ≠ app.size ∧ app.size ≠ 1 := by
  rw [mem_fromOne] at h
  rw [runNext_frameIndex (by omega), mem_fromOne]
  rcases lt_trichotomy (app.frameIndex + 1) app.size with hlt | heq | hgt
  · rw [Int.emod_eq_of_lt (by omega) hlt]
    omega
  · rw [heq, Int.emod_self]
    omega
  · -- from the last frame, the step leads to the first one if there is another
    have hlast : app.frameIndex = app.size := by omega
    rw [hlast, Int.add_emod_left]
    rcases Nat.lt_or_eq_of_le (show 1 ≤ app.size by omega) with hmany | hone
    · rw [Int.emod_eq_of_lt (by omega) (by omega)]
      omega
    · rw [← hone]
      decide

theorem runPrev_mem_iff (reply : Option ℚ) :
    (runPrev app reply).frameIndex ∈ fromOne app.size ↔ app.frameIndex ≠ 1 := by
  rw [mem_fromOne] at h
  rw [runPrev_frameIndex (by omega) (by omega), mem_fromOne,
    Int.emod_eq_of_lt (by omega) (by omega)]
  omega

theorem prev_next_iff (reply reply' : Option ℚ) :
    (runPrev (runNext app reply) reply').frameIndex = app.frameIndex ↔
      app.frameIndex ≠ app.size := by
  rw [mem_fromOne] at h
  have hpos : 0 ≤ app.frameIndex := by omega
  have hnext := runNext_frameIndex hpos reply
  have hnonneg : 0 ≤ (runNext app reply).frameIndex := by
    rw [hnext]
    exact Int.emod_nonneg _ (by omega)
  rw [runPrev_frameIndex hnonneg (by rw [runNext_size]; omega), runNext_size, hnext,
    Int.emod_sub_emod, add_sub_cancel_right]
  rcases Int.lt_or_eq_of_le h.2 with hlt | heq
  · rw [Int.emod_eq_of_lt (by omega) hlt]
    omega
  · rw [heq, Int.emod_self]
    omega

theorem next_prev_iff (reply reply' : Option ℚ) :
    (runNext (runPrev app reply) reply').frameIndex = app.frameIndex ↔
      app.frameIndex ≠ app.size := by
  rw [mem_fromOne] at h
  have hpos : 0 ≤ app.frameIndex := by omega
  have hprev := runPrev_frameIndex hpos (by omega) reply
  have hnonneg : 0 ≤ (runPrev app reply).frameIndex := by
    rw [hprev]
    exact Int.emod_nonneg _ (by omega)
  rw [runNext_frameIndex hnonneg, runPrev_size, hprev, Int.emod_add_emod, sub_add_cancel]
  rcases Int.lt_or_eq_of_le h.2 with hlt | heq
  · rw [Int.emod_eq_of_lt (by omega) hlt]
    omega
  · rw [heq, Int.emod_self]
    omega

/-- The last frame is visited from nowhere. -/
theorem last_not_visited (replies : List (Option ℚ)) :
    (app.size : ℤ) ∉ visited app replies := by
  rw [mem_fromOne] at h
  rw [visited_eq (by omega) (by omega)]
  intro hmem
  rcases List.mem_map.mp hmem with ⟨i, -, hi⟩
  have hlt := Int.emod_lt_of_pos (app.frameIndex + 1 + i) (show (0 : ℤ) < app.size by omega)
  omega

end FromOne

/-- Whatever the size of the data set and the current frame, stepping does not cover it. -/
theorem not_covers_fromOne (app : App) (h : app.frameIndex ∈ fromOne app.size) :
    ¬ Covers (fromOne app.size) app := by
  intro hcovers
  have hcycle := hcovers.cycle (List.replicate app.size none) List.length_replicate
  have hlast : (app.size : ℤ) ∈ fromOne app.size := by
    rw [mem_fromOne] at h ⊢
    omega
  exact last_not_visited h _ (hcycle.mem_iff.mpr hlast)

/-- A new session on a data set of three frames. -/
theorem not_covers_fromOne_start : ¬ Covers (fromOne 3) (App.start 3) :=
  not_covers_fromOne (App.start 3) (by decide)

/-- From the frame 2 of three, the next one is 0. -/
theorem three_not_covered :
    ¬ ∀ app : App, app.frameIndex ∈ fromOne app.size → Covers (fromOne app.size) app := by
  intro h
  have hnext := (h ⟨3, 2, [], false, 2⟩ (by decide)).next_mem none
  exact absurd hnext (by decide)

end SmartCar.Debugger

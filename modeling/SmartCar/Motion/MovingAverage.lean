import Mathlib.Data.List.DropRight
import SmartCar.Lib.Events
import SmartCar.Lib.Window
import SmartCar.Motion.Motor

/-!
# motion_control: the moving average of an encoder

`MAF_Update` keeps the last five readings in a ring and their sum in an `int16`, from which it
takes the oldest reading before it adds the newest. The sum of five readings need not fit an
`int16`, but it is right again as soon as it does.

* `Filters`: what the filter holds after a stream of readings;
* `moving_average_iff`: a call returns the average exactly where the sum fits.
-/

namespace SmartCar.Motion

open Events

variable {filter : MovingAverageFilter} {readings : List Int16} {x : Int16}

/-! ## The filter -/

/-- `MAF_Init` -/
def mafInit : MovingAverageFilter := ⟨fun _ => 0, 0, 0⟩

/-- `MAF_Update`, for the filter alone. -/
def mafStep (filter : MovingAverageFilter) (x : Int16) : MovingAverageFilter :=
  (mafUpdate filter x).1

/-- The sum of the last `WINDOW_SIZE` readings. -/
def windowSum (readings : List Int16) : ℤ := ((readings.rtake windowSize).map Int16.toInt).sum

/-! ## The invariant -/

/-- The ring of the filter. -/
def MovingAverageFilter.window (filter : MovingAverageFilter) : Window Int16 windowSize :=
  ⟨filter.buffer, filter.index⟩

/-- The ring holds the newest readings, and the sum is theirs, as far as it fits. -/
structure Filters (readings : List Int16) (filter : MovingAverageFilter) : Prop where
  shows : filter.window.Shows readings.reverse 0
  sum : filter.sum.toInt = (∑ i, (filter.window.cells i).toInt).bmod 65536

theorem init_filters : Filters [] mafInit where
  shows := Window.shows_const 0 0
  sum := by simp [mafInit, MovingAverageFilter.window]

theorem step_filters (h : Filters readings filter) (x : Int16) :
    Filters (readings ++ [x]) (mafStep filter x) := by
  constructor
  · rw [List.reverse_append]
    exact h.shows.push x
  · -- the oldest reading is taken out of the sum, and the newest goes in
    have hpush := filter.window.sum_push x Int16.toInt
    have hsum : (mafStep filter x).sum.toInt =
        (∑ i, (filter.window.cells i).toInt -
          (filter.window.cells filter.window.next).toInt + x.toInt).bmod 65536 := by
      simp only [mafStep, mafUpdate, Int16.toInt_add, Int16.toInt_sub, h.sum]
      simp [MovingAverageFilter.window]
    rw [hsum]
    congr 1
    change _ = ∑ i, ((filter.window.push x).cells i).toInt
    omega

theorem filters_run (readings : List Int16) : Filters readings (run mafStep mafInit readings) := by
  refine run_induction mafStep mafInit (fun tr filter => Filters tr filter) init_filters ?_ readings
  intro tr x h
  exact step_filters h x

theorem Filters.sum_eq (h : Filters readings filter) :
    filter.sum.toInt = (windowSum readings).bmod 65536 := by
  have hcells := h.shows.sum_cells Int16.toInt rfl
  rw [h.sum, hcells, windowSum, List.rtake_eq_reverse_take_reverse, List.map_reverse,
    List.sum_reverse]

/-! ## The law -/

/-- A value that has wrapped is so far off that its fifth part shows it. -/
theorem bmod_tdiv_eq_iff (z : ℤ) :
    (z.bmod 65536).tdiv windowSize = z.tdiv windowSize ↔ -32768 ≤ z ∧ z < 32768 := by
  constructor
  · intro h
    have hz := Int.mul_tdiv_add_tmod z 5
    have hw := Int.mul_tdiv_add_tmod (z.bmod 65536) 5
    have hzlt := Int.tmod_lt_of_pos z (show 0 < (5 : ℤ) by decide)
    have hzgt := Int.lt_tmod_of_pos z (show 0 < (5 : ℤ) by decide)
    have hwlt := Int.tmod_lt_of_pos (z.bmod 65536) (show 0 < (5 : ℤ) by decide)
    have hwgt := Int.lt_tmod_of_pos (z.bmod 65536) (show 0 < (5 : ℤ) by decide)
    have hlow := Int.le_bmod (x := z) (show 0 < 65536 by decide)
    have hhigh := Int.bmod_lt (x := z) (show 0 < 65536 by decide)
    obtain ⟨k, hk⟩ := Int.dvd_bmod_sub_self (x := z) (m := 65536)
    -- the two differ by less than 10, and by a multiple of 65536
    rw [Nat.cast_ofNat] at h
    rw [h] at hw
    omega
  · intro h
    rw [Int.bmod_eq_of_le (by omega) (by omega)]

/-- A call of `MAF_Update` returns the average of the last readings if and only if their sum
fits an `int16`. -/
theorem moving_average_iff (readings : List Int16) (x : Int16) :
    (mafUpdate (run mafStep mafInit readings) x).2.toInt =
        (windowSum (readings ++ [x])).tdiv windowSize ↔
      -32768 ≤ windowSum (readings ++ [x]) ∧ windowSum (readings ++ [x]) < 32768 := by
  have hsum := (step_filters (filters_run readings) x).sum_eq
  have havg : (mafUpdate (run mafStep mafInit readings) x).2.toInt =
      (mafStep (run mafStep mafInit readings) x).sum.toInt.tdiv windowSize :=
    Int16.toInt_div_of_ne_right _ 5 (by decide)
  rw [havg, hsum]
  exact bmod_tdiv_eq_iff _

/-- Two readings of a wheel that turns as fast as an encoder can count. -/
theorem moving_average_wraps :
    ¬ ∀ readings x, (mafUpdate (run mafStep mafInit readings) x).2.toInt =
      (windowSum (readings ++ [x])).tdiv windowSize := by
  intro h
  exact absurd (h [32767] 32767) (by decide +kernel)

end SmartCar.Motion

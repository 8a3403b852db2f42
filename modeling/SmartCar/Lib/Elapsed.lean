import Mathlib.Algebra.BigOperators.Intervals
import Mathlib.Algebra.Group.Nat.Even
import Mathlib.Algebra.Order.BigOperators.Group.Finset
import Mathlib.Algebra.Ring.Parity

/-!
# Readings of a clock

A clock is read again and again: `t n` is the reading `n`, and the wait `n` leads from it to
the next one.

* `everySecond t n`: the time up to the reading `n` in every second wait, the last one included.
  It is what a variable that is replaced by its difference to the next reading shows
  (`eq_everySecond`), and with its neighbour it makes up the whole time (`everySecond_add`).
* `FirstAt P n`: `n` is the first index where `P` holds. `firstAt_congr_iff` says when two
  conditions hold first at the same place.
-/

namespace Elapsed

/-! ## The first time -/

/-- `P` holds at `n`, and nowhere before. -/
def FirstAt (P : ℕ → Prop) (n : ℕ) : Prop := P n ∧ ∀ k < n, ¬ P k

theorem exists_firstAt {P : ℕ → Prop} {n : ℕ} (h : P n) : ∃ k ≤ n, FirstAt P k := by
  induction n using Nat.strong_induction_on with
  | _ n ih =>
    by_cases hex : ∃ k < n, P k
    · rcases hex with ⟨k, hk, hP⟩
      rcases ih k hk hP with ⟨m, hm, hfirst⟩
      exact ⟨m, by omega, hfirst⟩
    · exact ⟨n, le_rfl, h, fun k hk hP => hex ⟨k, hk, hP⟩⟩

/-- Two conditions hold first at the same place if and only if they agree up to the place
where one of them does. -/
theorem firstAt_congr_iff {P Q : ℕ → Prop} :
    (∀ n, FirstAt P n ↔ FirstAt Q n) ↔ ∀ n, (∀ k < n, ¬ Q k) → (P n ↔ Q n) := by
  constructor
  · intro h n hbefore
    constructor
    · intro hP
      -- `P` holds first at some `k`, and so does `Q`: that is not before `n`
      rcases exists_firstAt hP with ⟨k, hk, hfirst⟩
      have hQ : Q k := ((h k).mp hfirst).1
      rcases Nat.lt_or_eq_of_le hk with hlt | rfl
      · exact absurd hQ (hbefore k hlt)
      · exact hQ
    · intro hQ
      exact ((h n).mpr ⟨hQ, hbefore⟩).1
  · intro h n
    have hbefore : (∀ k < n, ¬ P k) ↔ ∀ k < n, ¬ Q k := by
      induction n with
      | zero => simp
      | succ n ih =>
        simp only [Nat.forall_lt_succ_right, ih]
        exact and_congr_right fun hQ => not_congr (h n hQ)
    rw [FirstAt, FirstAt, hbefore]
    exact and_congr_left fun hQ => h n hQ

/-! ## Every second wait -/

variable {t : ℕ → ℕ}

/-- The time up to the reading `n`, of every second wait, counted from the last one. -/
def everySecond (t : ℕ → ℕ) (n : ℕ) : ℕ :=
  ∑ i ∈ Finset.range n with Odd (n - i), (t (i + 1) - t i)

/-- What one reading leaves out, the next one counts. -/
theorem everySecond_add (ht : Monotone t) (n : ℕ) :
    everySecond t (n + 1) + everySecond t n = t (n + 1) - t 0 := by
  have hnext : everySecond t (n + 1) =
      (t (n + 1) - t n) + ∑ i ∈ Finset.range n with ¬ Odd (n - i), (t (i + 1) - t i) := by
    rw [everySecond, Finset.sum_filter, Finset.sum_range_succ, add_comm, Finset.sum_filter]
    congr 1
    · simp
    · refine Finset.sum_congr rfl fun i hi => ?_
      have hlt := Finset.mem_range.mp hi
      rw [show n + 1 - i = n - i + 1 by omega]
      simp [Nat.odd_add_one]
  have hsplit := Finset.sum_filter_add_sum_filter_not (Finset.range n)
    (fun i => Odd (n - i)) (fun i => t (i + 1) - t i)
  have hall := Finset.sum_range_tsub ht n
  have hmono := ht (Nat.le_add_right n 1)
  have hzero := ht (Nat.zero_le n)
  rw [hnext]
  unfold everySecond
  omega

theorem everySecond_le (ht : Monotone t) (n : ℕ) : everySecond t n ≤ t n - t 0 := by
  cases n with
  | zero => simp [everySecond]
  | succ n =>
    have h := everySecond_add ht n
    omega

/-- A variable that starts with the first reading, and is replaced by its difference to each
further one. -/
theorem eq_everySecond (ht : Monotone t) {a : ℕ → ℕ} (hzero : a 0 = t 0)
    (hsucc : ∀ n, a n ≤ t (n + 1) → a (n + 1) = t (n + 1) - a n) (n : ℕ) :
    a n = everySecond t n + if Even n then t 0 else 0 := by
  induction n with
  | zero => simp [everySecond, hzero]
  | succ n ih =>
    have hadd := everySecond_add ht n
    have hstart := ht (Nat.zero_le (n + 1))
    have hlast := ht (Nat.le_add_right n 1)
    have hle := everySecond_le ht n
    have hzero' := ht (Nat.zero_le n)
    by_cases hn : Even n
    · rw [if_pos hn] at ih
      rw [if_neg (by simpa [Nat.even_add_one] using hn), hsucc n (by omega)]
      omega
    · rw [if_neg hn] at ih
      rw [if_pos (by simpa [Nat.even_add_one] using hn), hsucc n (by omega)]
      omega

end Elapsed

import Mathlib.Algebra.BigOperators.Fin
import Mathlib.Algebra.Group.Fin.Basic
import Mathlib.Algebra.Group.Units.Equiv
import Mathlib.Algebra.BigOperators.Group.Finset.Piecewise
import Mathlib.Tactic.Abel

/-!
# Sliding windows

The last `n` values of a stream, kept in a ring of `n` cells: each value is written over the
oldest one.

* `Shows`: the cells hold the newest values of a stream, and a default where it has been
  shorter;
* `Shows.push` and `sum_push` are what one write does;
* `Shows.sum_cells`: a sum over the cells is one over the newest values of the stream.
-/

/-- A ring of cells, and the cell that is written next. -/
structure Window (α : Type*) (n : ℕ) where
  cells : Fin n → α
  next : Fin n

namespace Window

variable {α M : Type*} {n : ℕ} [NeZero n] {w : Window α n} {ys : List α} {a z : α}

/-- Write `a`. -/
def push (w : Window α n) (a : α) : Window α n := ⟨Function.update w.cells w.next a, w.next + 1⟩

/-- The value that was written `k` writes before the last one. -/
def ago (w : Window α n) (k : Fin n) : α := w.cells (w.next - 1 - k)

theorem ago_push_zero (w : Window α n) (a : α) : (w.push a).ago 0 = a := by
  simp [ago, push]

theorem ago_push (w : Window α n) (a : α) {k : Fin n} (hk : k ≠ 0) :
    (w.push a).ago k = w.ago (k - 1) := by
  -- the cell is not the one that is written
  have hcell : w.next + 1 - 1 - k ≠ w.next := by
    intro h
    exact hk (by simpa using h)
  have heq : w.next + 1 - 1 - k = w.next - 1 - (k - 1) := by abel
  rw [ago, ago, ← heq]
  exact Function.update_of_ne hcell a w.cells

/-- The oldest value leaves a sum over the cells, and the new one enters it. -/
theorem sum_push [AddCommMonoid M] (w : Window α n) (a : α) (f : α → M) :
    ∑ i, f ((w.push a).cells i) + f (w.cells w.next) = ∑ i, f (w.cells i) + f a := by
  have hcomp : (fun i => f ((w.push a).cells i)) =
      Function.update (fun i => f (w.cells i)) w.next (f a) :=
    Function.comp_update f w.cells w.next a
  rw [hcomp, Finset.sum_update_of_mem (Finset.mem_univ _),
    Finset.sum_eq_add_sum_sdiff_singleton_of_mem (Finset.mem_univ w.next) fun i => f (w.cells i)]
  abel

/-- The cells hold the values of `ys`, the newest first, and `z` where there are none. -/
def Shows (w : Window α n) (ys : List α) (z : α) : Prop := ∀ k : Fin n, w.ago k = ys.getD k z

theorem shows_const (next : Fin n) (z : α) : Shows ⟨fun _ => z, next⟩ [] z := fun _ => rfl

theorem Shows.push (h : w.Shows ys z) (a : α) : (w.push a).Shows (a :: ys) z := by
  intro k
  by_cases hk : k = 0
  · rw [hk, ago_push_zero]
    rfl
  · have hval : (k : ℕ) = ((k - 1 : Fin n) : ℕ) + 1 := by
      have hsub := Fin.val_sub_one_of_ne_zero hk
      have hpos : 0 < (k : ℕ) := Fin.pos_iff_ne_zero.mpr hk
      omega
    rw [ago_push w a hk, h (k - 1), hval, List.getD_cons_succ]

theorem sum_getD [AddCommMonoid M] (f : α → M) (hz : f z = 0) (ys : List α) (n : ℕ) :
    ∑ k ∈ Finset.range n, f (ys.getD k z) = ((ys.take n).map f).sum := by
  induction n generalizing ys with
  | zero => simp
  | succ n ih =>
    cases ys with
    | nil => simp [hz]
    | cons y ys =>
      -- the newest value is taken off the range and off the list
      rw [Finset.sum_range_succ', List.take_succ_cons, List.map_cons, List.sum_cons, ← ih ys,
        add_comm]
      rfl

/-- A sum over the cells, by the age of the values. -/
theorem Shows.sum_cells [AddCommMonoid M] (h : w.Shows ys z) (f : α → M) (hz : f z = 0) :
    ∑ i, f (w.cells i) = ((ys.take n).map f).sum := by
  calc ∑ i, f (w.cells i) = ∑ k, f (w.ago k) :=
        (Equiv.sum_comp (Equiv.subLeft (w.next - 1)) fun i => f (w.cells i)).symm
    _ = ∑ k : Fin n, f (ys.getD k z) := Finset.sum_congr rfl fun k _ => by rw [h k]
    _ = ∑ k ∈ Finset.range n, f (ys.getD k z) :=
        Fin.sum_univ_eq_sum_range (fun k => f (ys.getD k z)) n
    _ = ((ys.take n).map f).sum := sum_getD f hz ys n

end Window

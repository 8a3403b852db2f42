import Mathlib.Order.Lattice
import Mathlib.Order.Monotone.Basic
import Mathlib.Tactic.Common

/-!
# Climbing through windows

A search that moves, again and again, to the first of the best places of a window around the
place where it is. `Top` says what that place is, and `Climbs` that a sequence of places is
such a search.

* `Climbs.straight`: it never turns back;
* `Climbs.height_mono`: it never gets worse;
* `Climbs.settles`: between two bounds it comes to rest, at a place that is the best of its own
  window, after as many moves as there are places at most.
-/

namespace HillClimb

variable {κ α : Type*} [LinearOrder κ] [LinearOrder α]

/-- `k` is the first of the highest candidates from `a` to `b`. -/
structure Top (ok : κ → Prop) (height : κ → α) (a b k : κ) : Prop where
  low : a ≤ k
  high : k ≤ b
  meets : ok k
  greatest : ∀ j, ok j → a ≤ j → j ≤ b → height j ≤ height k
  first : ∀ j, ok j → a ≤ j → j < k → height j < height k

variable {ok : κ → Prop} {height : κ → α} {lo hi : κ → κ} {a b a' b' k k' : κ}

/-- There is one first highest candidate at most. -/
theorem Top.unique (h : Top ok height a b k) (h' : Top ok height a b k') : k = k' := by
  apply le_antisymm
  · by_contra hlt
    exact absurd (h'.greatest k h.meets h.low h.high)
      (not_le.mpr (h.first k' h'.meets h'.low (not_le.mp hlt)))
  · by_contra hlt
    exact absurd (h.greatest k' h'.meets h'.low h'.high)
      (not_le.mpr (h'.first k h.meets h.low (not_le.mp hlt)))

/-- It is that of every smaller window it is in. -/
theorem Top.narrow (h : Top ok height a b k) (ha : a ≤ a') (hb : b' ≤ b) (hlow : a' ≤ k)
    (hhigh : k ≤ b') : Top ok height a' b' k where
  low := hlow
  high := hhigh
  meets := h.meets
  greatest := fun j hj h1 h2 => h.greatest j hj (ha.trans h1) (h2.trans hb)
  first := fun j hj h1 h2 => h.first j hj (ha.trans h1) h2

/-- The next window lies higher: the search goes on upwards. -/
theorem Top.up (h : Top ok height a b k) (h' : Top ok height a' b' k') (ha : a ≤ a')
    (hlow : a' ≤ k) (hhigh : k ≤ b') : k ≤ k' := by
  by_contra hlt
  have hbelow : height k' < height k := h.first k' h'.meets (ha.trans h'.low) (not_le.mp hlt)
  exact absurd (h'.greatest k h.meets hlow hhigh) (not_le.mpr hbelow)

/-- The next window lies lower: the search goes on downwards. -/
theorem Top.down (h : Top ok height a b k) (h' : Top ok height a' b' k') (hb : b' ≤ b)
    (hlow : a' ≤ k) : k' ≤ k := by
  by_contra hlt
  have hbelow : height k < height k' := h'.first k h.meets hlow (not_le.mp hlt)
  have habove : a ≤ k' := h.low.trans (not_le.mp hlt).le
  exact absurd (h.greatest k' h'.meets habove (h'.high.trans hb)) (not_le.mpr hbelow)

/-- `x` moves from window to window. -/
structure Climbs (ok : κ → Prop) (height : κ → α) (lo hi : κ → κ) (x : ℕ → κ) : Prop where
  meets : ∀ n, ok (x n)
  within : ∀ n, lo (x n) ≤ x n ∧ x n ≤ hi (x n)
  top : ∀ n, Top ok height (lo (x n)) (hi (x n)) (x (n + 1))

variable {x : ℕ → κ} {n : ℕ}

/-- It never gets worse. -/
theorem Climbs.height_mono (h : Climbs ok height lo hi x) : Monotone fun n => height (x n) := by
  apply monotone_nat_of_le_succ
  intro n
  exact (h.top n).greatest (x n) (h.meets n) (h.within n).1 (h.within n).2

theorem Climbs.up_succ (h : Climbs ok height lo hi x) (hlo : Monotone lo)
    (hup : x n ≤ x (n + 1)) : x (n + 1) ≤ x (n + 2) :=
  (h.top n).up (h.top (n + 1)) (hlo hup) (h.within (n + 1)).1 (h.within (n + 1)).2

theorem Climbs.down_succ (h : Climbs ok height lo hi x) (hhi : Monotone hi)
    (hdown : x (n + 1) ≤ x n) : x (n + 2) ≤ x (n + 1) :=
  (h.top n).down (h.top (n + 1)) (hhi hdown) (h.within (n + 1)).1

/-- It never turns back. -/
theorem Climbs.straight (h : Climbs ok height lo hi x) (hlo : Monotone lo) (hhi : Monotone hi) :
    Monotone x ∨ Antitone x := by
  rcases le_total (x 0) (x 1) with hup | hdown
  · left
    apply monotone_nat_of_le_succ
    intro n
    induction n with
    | zero => exact hup
    | succ n ih => exact h.up_succ hlo ih
  · right
    apply antitone_nat_of_succ_le
    intro n
    induction n with
    | zero => exact hdown
    | succ n ih => exact h.down_succ hhi ih

/-- A place that is left for itself is kept. -/
theorem Climbs.rests (h : Climbs ok height lo hi x) (hn : x (n + 1) = x n) :
    ∀ m, n ≤ m → x m = x n := by
  intro m hm
  induction m, hm using Nat.le_induction with
  | base => rfl
  | succ m _ ih =>
    have htop := h.top m
    rw [ih] at htop
    rw [htop.unique (h.top n), hn]

/-! ## Places that are numbered -/

section Settling

variable {height : ℕ → α} {ok : ℕ → Prop} {lo hi x : ℕ → ℕ} {bound₀ bound₁ : ℕ}

/-- Between two bounds it comes to rest. -/
theorem Climbs.settles (h : Climbs ok height lo hi x) (hlo : Monotone lo) (hhi : Monotone hi)
    (hbound : ∀ n, bound₀ ≤ x n ∧ x n ≤ bound₁) :
    ∀ m, bound₁ - bound₀ ≤ m → x m = x (bound₁ - bound₀) := by
  -- some move within the first `bound₁ - bound₀ + 1` does not leave its place
  have hrest : ∃ n, n ≤ bound₁ - bound₀ ∧ x (n + 1) = x n := by
    by_contra hnone
    push Not at hnone
    rcases h.straight hlo hhi with hmono | hanti
    · have hfar : ∀ n, n ≤ bound₁ - bound₀ + 1 → x 0 + n ≤ x n := by
        intro n
        induction n with
        | zero => exact fun _ => le_rfl
        | succ n ih =>
          intro hn
          have hle := hmono (Nat.le_succ n)
          have hne := hnone n (by omega)
          have := ih (by omega)
          simp only [Nat.succ_eq_add_one] at hle
          omega
      have h0 := hbound 0
      have h1 := hbound (bound₁ - bound₀ + 1)
      have := hfar _ le_rfl
      omega
    · have hfar : ∀ n, n ≤ bound₁ - bound₀ + 1 → x n + n ≤ x 0 := by
        intro n
        induction n with
        | zero => exact fun _ => le_rfl
        | succ n ih =>
          intro hn
          have hle := hanti (Nat.le_succ n)
          have hne := hnone n (by omega)
          have := ih (by omega)
          simp only [Nat.succ_eq_add_one] at hle
          omega
      have h0 := hbound 0
      have h1 := hbound (bound₁ - bound₀ + 1)
      have := hfar _ le_rfl
      omega
  rcases hrest with ⟨n, hn, heq⟩
  intro m hm
  rw [h.rests heq m (hn.trans hm), h.rests heq _ hn]

end Settling

end HillClimb

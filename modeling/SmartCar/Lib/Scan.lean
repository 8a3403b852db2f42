import Mathlib.Data.Finset.Card
import Mathlib.Data.Int.ModEq
import Mathlib.Order.Lattice.Nat
import Mathlib.Tactic.LinearCombination
import Mathlib.Tactic.Ring

/-!
# Scans for a position

A cursor walks over integer positions, by `1` or `-1` at each step, until it finds
one where `P` holds.

* A cursor that wraps, as an unsigned integer does, walks round `0 … m - 1`:
  `distance m P d x` is the number of steps from `x` to the next such position, and
  `distance_lt` says that it falls at every step, if there is such a position. A walk of
  `m` steps by `1` visits every position once: `round_perm`.
* A cursor that must not leave a range looks ahead: `Within P a b` says that there is
  such a position from `a` to `b`; `Within.up` and `Within.down` carry it along.
* Conversely, a walk of at most `n` steps that never leaves the range has room for all
  of them, or there is such a position: `within_of_walk_up`, `within_of_walk_down`.
-/

namespace Scan

/-! ## Walks round a ring -/

variable {m : ℤ} {P : ℤ → Prop} {d x : ℤ}

/-- The number of steps of `d` from `x` to the next position where `P` holds. -/
noncomputable def distance (m : ℤ) (P : ℤ → Prop) (d x : ℤ) : ℕ :=
  sInf {n : ℕ | P ((x + n * d) % m)}

/-- A walk by `1` or `-1` comes to every position. -/
theorem exists_reach (hm : 0 < m) (hd : d * d = 1) (x : ℤ) {i : ℤ} (h0 : 0 ≤ i) (hi : i < m) :
    ∃ n : ℕ, (x + n * d) % m = i := by
  -- as `d` is its own inverse, `(i - x) * d` steps lead to `i`; so do they modulo `m`
  refine ⟨((i - x) * d % m).toNat, ?_⟩
  have hn : (((i - x) * d % m).toNat : ℤ) = (i - x) * d % m :=
    Int.toNat_of_nonneg (Int.emod_nonneg _ (by omega))
  have hmod : (i - x) * d % m = (i - x) * d - m * ((i - x) * d / m) := Int.emod_def _ _
  have hsum : x + (i - x) * d % m * d = i + m * (-((i - x) * d / m) * d) := by
    rw [hmod]
    linear_combination (i - x) * hd
  rw [hn, hsum, Int.add_mul_emod_self_left, Int.emod_eq_of_lt h0 hi]

/-- Before the walk is over, the distance falls at each step. -/
theorem distance_lt (hx : ¬ P (x % m)) (hex : ∃ n : ℕ, P ((x + n * d) % m)) :
    distance m P d ((x + d) % m) < distance m P d x := by
  have hmem : P ((x + (distance m P d x : ℕ) * d) % m) := Nat.sInf_mem hex
  cases hn : distance m P d x with
  | zero =>
    rw [hn] at hmem
    exact absurd (by simpa using hmem) hx
  | succ n =>
    rw [hn] at hmem
    have hstep : ((x + d) % m + n * d) % m = (x + (n + 1 : ℕ) * d) % m := by
      rw [Int.emod_add_emod]
      congr 1
      push_cast
      ring
    -- after the first step there are `n` left, and perhaps fewer
    have hle : distance m P d ((x + d) % m) ≤ n := Nat.sInf_le (by
      rw [Set.mem_ofPred_eq, hstep]
      exact hmem)
    omega

/-- The first `n` positions of a walk by `1` round a ring of `n`. -/
theorem round_perm (n : ℕ) (x : ℤ) :
    ((List.range n).map fun i : ℕ => (x + i) % n).Perm
      ((List.range n).map fun i : ℕ => (i : ℤ)) := by
  have hnodup : ((List.range n).map fun i : ℕ => (x + i) % n).Nodup := by
    refine List.Nodup.map_on ?_ List.nodup_range
    intro i hi j hj heq
    rw [List.mem_range] at hi hj
    have hmod : (i : ℤ) % n = (j : ℤ) % n := Int.ModEq.add_left_cancel' x heq
    rw [Int.emod_eq_of_lt (by omega) (by omega), Int.emod_eq_of_lt (by omega) (by omega)] at hmod
    exact_mod_cast hmod
  refine List.perm_of_nodup_nodup_toFinset_eq hnodup
    (List.nodup_range.map Nat.cast_injective) (Finset.eq_of_subset_of_card_le ?_ ?_)
  · intro y hy
    simp only [List.mem_toFinset, List.mem_map, List.mem_range] at hy ⊢
    rcases hy with ⟨i, hi, rfl⟩
    have hn : (0 : ℤ) < n := by omega
    have hlow := Int.emod_nonneg (x + i) hn.ne'
    have hhigh := Int.emod_lt_of_pos (x + i) hn
    exact ⟨((x + i) % n).toNat, by omega, by omega⟩
  · -- both have as many elements as the lists are long
    rw [List.toFinset_card_of_nodup hnodup,
      List.toFinset_card_of_nodup (List.nodup_range.map Nat.cast_injective)]
    simp

/-! ## Looking ahead -/

variable {a b : ℤ}

/-- `P` holds somewhere from `a` to `b`. -/
def Within (P : ℤ → Prop) (a b : ℤ) : Prop := ∃ i, a ≤ i ∧ i ≤ b ∧ P i

instance [DecidablePred P] (a b : ℤ) : Decidable (Within P a b) :=
  decidable_of_iff (∃ i : Fin (b - a + 1).toNat, P (a + i)) <| by
    constructor
    · rintro ⟨i, hi⟩
      exact ⟨a + i, by omega, by omega, hi⟩
    · rintro ⟨i, ha, hb, hi⟩
      refine ⟨⟨(i - a).toNat, by omega⟩, ?_⟩
      rwa [show a + (((⟨(i - a).toNat, _⟩ : Fin _) : ℕ) : ℤ) = i by
        rw [Int.toNat_of_nonneg (by omega)]; omega]

theorem Within.le (h : Within P a b) : a ≤ b := by
  rcases h with ⟨i, ha, hb, -⟩
  exact ha.trans hb

/-- A step up from a position where `P` does not hold. -/
theorem Within.up (h : Within P a b) (ha : ¬ P a) : Within P (a + 1) b := by
  rcases h with ⟨i, hai, hib, hi⟩
  have hne : i ≠ a := by
    rintro rfl
    exact ha hi
  exact ⟨i, by omega, hib, hi⟩

/-- A step down from a position where `P` does not hold. -/
theorem Within.down (h : Within P a b) (hb : ¬ P b) : Within P a (b - 1) := by
  rcases h with ⟨i, hai, hib, hi⟩
  have hne : i ≠ b := by
    rintro rfl
    exact hb hi
  exact ⟨i, hai, by omega, hi⟩

/-! ## Looking back -/

/-- A walk of `n` steps that goes on for as long as `Q` does not hold. -/
theorem stops_or_goes_on {S Q : ℕ → Prop} {n : ℕ} (hinit : S 0)
    (hstep : ∀ k < n, S k → ¬ Q k → S (k + 1)) : (∃ k, S k ∧ Q k) ∨ S n := by
  suffices hmain : ∀ m ≤ n, (∃ k, S k ∧ Q k) ∨ S m from hmain n le_rfl
  intro m
  induction m with
  | zero => exact fun _ => .inr hinit
  | succ m ih =>
    intro hm
    rcases ih (by omega) with hstop | hS
    · exact .inl hstop
    · by_cases hQ : Q m
      · exact .inl ⟨m, hS, hQ⟩
      · exact .inr (hstep m (by omega) hS hQ)

theorem within_of_walk_up {S : ℕ → Prop} {n : ℕ} (hinit : S 0)
    (hrange : ∀ k, S k → a + k ≤ b) (hstep : ∀ k < n, S k → ¬ P (a + k) → S (k + 1)) :
    a + n ≤ b ∨ Within P a b := by
  rcases stops_or_goes_on (Q := fun k : ℕ => P (a + k)) hinit hstep with ⟨k, hS, hP⟩ | hS
  · exact .inr ⟨a + k, by omega, hrange k hS, hP⟩
  · exact .inl (hrange n hS)

theorem within_of_walk_down {S : ℕ → Prop} {n : ℕ} (hinit : S 0)
    (hrange : ∀ k, S k → a ≤ b - k) (hstep : ∀ k < n, S k → ¬ P (b - k) → S (k + 1)) :
    a ≤ b - n ∨ Within P a b := by
  rcases stops_or_goes_on (Q := fun k : ℕ => P (b - k)) hinit hstep with ⟨k, hS, hP⟩ | hS
  · exact .inr ⟨b - k, hrange k hS, by omega, hP⟩
  · exact .inl (hrange n hS)

end Scan

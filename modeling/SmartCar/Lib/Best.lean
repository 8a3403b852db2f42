import Mathlib.Order.Lattice
import Mathlib.Tactic.Common

/-!
# Keeping the best

A loop over candidates that keeps the first one whose value is above all values before
it: `keepBest` is one turn, with the best candidate so far and its value. `foldl_cases`
says which candidate is kept in the end: the first of those with the greatest value;
`first_best` says it of a list in order.
-/

namespace Best

variable {κ α : Type*} [LinearOrder α] (f : κ → α)

/-- `if (f k > best) { best = f k; kept = k; }` -/
def keepBest (b : Option κ × α) (k : κ) : Option κ × α :=
  if b.2 < f k then (some k, f k) else b

variable {f} {l : List κ} {b : Option κ × α}

/-- What is kept is a candidate. -/
theorem mem_of_foldl {k : κ} (h : (l.foldl (keepBest f) b).1 = some k) : b.1 = some k ∨ k ∈ l := by
  induction l generalizing b with
  | nil => exact .inl h
  | cons j l ih =>
    rcases ih h with hb | hk
    · unfold keepBest at hb
      split at hb
      · obtain rfl : j = k := Option.some.inj hb
        exact .inr List.mem_cons_self
      · exact .inl hb
    · exact .inr (List.mem_cons_of_mem j hk)

/-- Something is kept if some candidate is better than the value to begin with. -/
theorem isSome_foldl :
    (l.foldl (keepBest f) b).1.isSome ↔ b.1.isSome ∨ ∃ k ∈ l, b.2 < f k := by
  induction l generalizing b with
  | nil => simp
  | cons j l ih =>
    rw [List.foldl_cons, ih, keepBest]
    split
    · rename_i hlt
      simp [hlt]
    · rename_i hle
      simp [hle]

/-- All candidates may be no better than what was there before; or one is kept that is
better than that and than the candidates before it, and as good as those after it. -/
theorem foldl_cases (f : κ → α) (l : List κ) (b : Option κ × α) :
    (l.foldl (keepBest f) b = b ∧ ∀ j ∈ l, f j ≤ b.2) ∨
      ∃ l₁ k l₂, l = l₁ ++ k :: l₂ ∧ l.foldl (keepBest f) b = (some k, f k) ∧ b.2 < f k ∧
        (∀ j ∈ l₁, f j < f k) ∧ ∀ j ∈ l₂, f j ≤ f k := by
  induction l generalizing b with
  | nil => exact .inl ⟨rfl, by simp⟩
  | cons j l ih =>
    rw [List.foldl_cons]
    by_cases hj : b.2 < f j
    · rw [keepBest, if_pos hj]
      rcases ih (some j, f j) with ⟨heq, hle⟩ | ⟨l₁, k, l₂, rfl, heq, hlt, hbefore, hafter⟩
      · exact .inr ⟨[], j, l, rfl, heq, hj, by simp, hle⟩
      · -- a later candidate is better still
        refine .inr ⟨j :: l₁, k, l₂, rfl, heq, hj.trans hlt, ?_, hafter⟩
        simpa using ⟨hlt, hbefore⟩
    · rw [keepBest, if_neg hj]
      have hle : f j ≤ b.2 := not_lt.mp hj
      rcases ih b with ⟨heq, hall⟩ | ⟨l₁, k, l₂, rfl, heq, hlt, hbefore, hafter⟩
      · exact .inl ⟨heq, by simpa using ⟨hle, hall⟩⟩
      · refine .inr ⟨j :: l₁, k, l₂, rfl, heq, hlt, ?_, hafter⟩
        simpa using ⟨hle.trans_lt hlt, hbefore⟩

/-- If all candidates are better than the value to begin with, the one that is kept is the
first of the best; the list may be ordered by any `r`. -/
theorem first_best {r : κ → κ → Prop} {v : α} (hordered : l.Pairwise r) (hne : l ≠ [])
    (habove : ∀ k ∈ l, v < f k) :
    ∃ k ∈ l, (l.foldl (keepBest f) (none, v)).1 = some k ∧ (∀ j ∈ l, f j ≤ f k) ∧
      ∀ j ∈ l, f j < f k ∨ j = k ∨ r k j := by
  rcases foldl_cases f l (none, v) with
    ⟨-, hle⟩ | ⟨l₁, k, l₂, rfl, heq, -, hbefore, hafter⟩
  · rcases List.exists_mem_of_ne_nil l hne with ⟨k, hk⟩
    exact absurd (hle k hk) (not_le.mpr (habove k hk))
  · refine ⟨k, by simp, by rw [heq], ?_, ?_⟩
    · intro j hj
      rcases List.mem_append.mp hj with hj | hj
      · exact (hbefore j hj).le
      · rcases List.mem_cons.mp hj with rfl | hj
        · exact le_rfl
        · exact hafter j hj
    · intro j hj
      rcases List.mem_append.mp hj with hj | hj
      · exact .inl (hbefore j hj)
      · rcases List.mem_cons.mp hj with rfl | hj
        · exact .inr (.inl rfl)
        · exact .inr (.inr ((List.pairwise_cons.mp (List.pairwise_append.mp hordered).2.1).1 j hj))

end Best

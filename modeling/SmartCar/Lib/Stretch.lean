import Mathlib.Data.List.Basic
import Mathlib.Tactic.Common

/-!
# Stretches of a list

A stretch of a list is some of its elements in a row. `Last p q n l` and `Within p q n l` ask for
one that is free of `q` and in which `n` elements meet `p`: at the end of the list, or anywhere in
it. The lemmas say what an element more does to them.
-/

namespace Stretch

variable {α : Type*} {p q : α → Prop} [DecidablePred p] {m n : ℕ} {l : List α} {a : α}

variable (p q) in
/-- The list ends in a stretch free of `q` in which at least `n` elements meet `p`. -/
def Last (n : ℕ) (l : List α) : Prop :=
  ∃ before stretch, l = before ++ stretch ∧ (∀ a ∈ stretch, ¬ q a) ∧
    n ≤ stretch.countP fun a => p a

variable (p q) in
/-- The list has a stretch free of `q` in which at least `n` elements meet `p`. -/
def Within (n : ℕ) (l : List α) : Prop :=
  ∃ before stretch after, l = before ++ stretch ++ after ∧ (∀ a ∈ stretch, ¬ q a) ∧
    n ≤ stretch.countP fun a => p a

/-- A stretch may be empty. -/
theorem last_zero (l : List α) : Last p q 0 l := ⟨l, [], by simp, by simp, by simp⟩

/-- A stretch in which `n` meet `p` is one in which fewer do. -/
theorem Last.mono (h : Last p q n l) (hmn : m ≤ n) : Last p q m l := by
  obtain ⟨before, stretch, hl, hfree, hn⟩ := h
  exact ⟨before, stretch, hl, hfree, Nat.le_trans hmn hn⟩

/-- What does not break a stretch may come after it, -/
theorem Last.concat (h : Last p q n l) (hq : ¬ q a) : Last p q n (l ++ [a]) := by
  obtain ⟨before, stretch, rfl, hfree, hn⟩ := h
  refine ⟨before, stretch ++ [a], by simp, ?_, ?_⟩
  · exact List.forall_mem_append.mpr ⟨hfree, by simpa using hq⟩
  · rw [List.countP_append]
    omega

/-- and counts if it is asked for. -/
theorem Last.concat_of_pos (h : Last p q n l) (hp : p a) (hq : ¬ q a) :
    Last p q (n + 1) (l ++ [a]) := by
  obtain ⟨before, stretch, rfl, hfree, hn⟩ := h
  refine ⟨before, stretch ++ [a], by simp, ?_, ?_⟩
  · exact List.forall_mem_append.mpr ⟨hfree, by simpa using hq⟩
  · have hlast : [a].countP (fun a => p a) = 1 := by simp [hp]
    rw [List.countP_append, hlast]
    omega

/-- A stretch at the end is a stretch. -/
theorem Last.within (h : Last p q n l) : Within p q n l := by
  obtain ⟨before, stretch, rfl, hfree, hn⟩ := h
  exact ⟨before, stretch, [], by simp, hfree, hn⟩

/-- A stretch stays where it is when more comes. -/
theorem Within.concat (h : Within p q n l) (a : α) : Within p q n (l ++ [a]) := by
  obtain ⟨before, stretch, after, rfl, hfree, hn⟩ := h
  exact ⟨before, stretch, after ++ [a], by simp, hfree, hn⟩

end Stretch

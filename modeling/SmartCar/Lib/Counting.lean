import Mathlib.Data.Fintype.Card
import Mathlib.Data.Fintype.Prod
import Mathlib.Data.List.ProdSigma

/-!
# Counting in a loop

A loop that visits every element of a finite type once, and counts, counts the
cardinality of a set. Two nested loops are one loop over pairs.
-/

namespace Counting

variable {α β σ : Type*}

/-- Two nested loops are one loop over the pairs, row by row. -/
theorem foldl_foldl (f : σ → α → β → σ) (as : List α) (bs : List β) (s : σ) :
    as.foldl (fun s a => bs.foldl (fun s b => f s a b) s) s =
      (as ×ˢ bs).foldl (fun s p => f s p.1 p.2) s := by
  simp [SProd.sprod, List.product, List.foldl_flatMap, List.foldl_map]

/-- Over a list that holds every element once, counting is taking the cardinality. -/
theorem countP_eq_card [Fintype α] [DecidableEq α] {as : List α} (hnodup : as.Nodup)
    (hall : ∀ a, a ∈ as) (p : α → Prop) [DecidablePred p] :
    as.countP (fun a => p a) = (Finset.univ.filter p).card := by
  have hset : Finset.univ.filter p = (as.filter fun a => p a).toFinset := by
    ext a
    simp [hall a]
  rw [hset, List.toFinset_card_of_nodup (hnodup.filter _), List.countP_eq_length_filter]

/-- A loop that ticks a counter for some of the elements it visits. -/
theorem foldl_eq_iterate {M : Type*} (get : σ → M) (tick : M → M) (p : α → Prop)
    [DecidablePred p] {f : σ → α → σ}
    (hstep : ∀ s a, get (f s a) = if p a then tick (get s) else get s) (as : List α) (s : σ) :
    get (as.foldl f s) = tick^[as.countP fun a => p a] (get s) := by
  induction as generalizing s with
  | nil => rfl
  | cons a as ih =>
    rw [List.foldl_cons, ih, hstep]
    by_cases hp : p a
    · rw [if_pos hp, List.countP_cons_of_pos (by simpa using hp), Function.iterate_succ_apply]
    · rw [if_neg hp, List.countP_cons_of_neg (by simpa using hp)]

/-- Where two coordinates tell the elements apart, those that share the first are no more
than there are values of the second. -/
theorem card_fiber_le {γ : Type*} [Fintype γ] [DecidableEq β] [DecidableEq γ] (s : Finset α)
    {g : α → β} {h : α → γ} (hinj : ∀ a a', g a = g a' → h a = h a' → a = a') (b : β) :
    (s.filter (g · = b)).card ≤ Fintype.card γ := by
  have hinjOn : ∀ a ∈ s.filter (g · = b), ∀ a' ∈ s.filter (g · = b), h a = h a' → a = a' := by
    intro a ha a' ha' heq
    rw [Finset.mem_filter] at ha ha'
    exact hinj a a' (ha.2.trans ha'.2.symm) heq
  rw [← Finset.card_image_of_injOn hinjOn]
  exact Finset.card_le_univ _

end Counting

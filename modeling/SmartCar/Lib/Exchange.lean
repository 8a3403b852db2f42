import Mathlib.Data.Multiset.Count
import Mathlib.Tactic.Common

/-!
# Requests that stand in for one another

A request may ask for a value (`some v`) or take what is there (`none`). Where a
request that asks for nothing has been served with what another one has asked for,
the two can change places: the `pool` of requests still to be counted is then not the
one that is really waiting, but can stand in for it.

* `StandsFor.exchange`: the pool always has a request for the value that is served;
* `coe_filterMap_set`: the waiting ones, where they are kept in a list of handlers.
-/

namespace Exchange

/-! ## The pool -/

section Pool

variable {V : Type*} [DecidableEq V] {pool waiting : Multiset (Option V)}

/-- As many requests, and no value asked for more often. -/
structure StandsFor (pool waiting : Multiset (Option V)) : Prop where
  card : pool.card = waiting.card
  count : ∀ v, pool.count (some v) ≤ waiting.count (some v)

theorem standsFor_zero : StandsFor (0 : Multiset (Option V)) 0 := ⟨rfl, fun _ => le_refl _⟩

theorem StandsFor.cons (h : StandsFor pool waiting) (o : Option V) :
    StandsFor (o ::ₘ pool) (o ::ₘ waiting) := by
  refine ⟨by rw [Multiset.card_cons, Multiset.card_cons, h.card], fun v => ?_⟩
  have hcount := h.count v
  rw [Multiset.count_cons, Multiset.count_cons]
  omega

theorem StandsFor.eq_zero (h : StandsFor pool 0) : pool = 0 := by
  rw [← Multiset.card_eq_zero, h.card, Multiset.card_zero]

/-- Without a request that asks for nothing the two are the same. -/
theorem StandsFor.eq_of_none_notMem (h : StandsFor pool waiting) (hnone : none ∉ pool) :
    pool = waiting := by
  apply Multiset.eq_of_le_of_card_le
  · rw [Multiset.le_iff_count]
    intro o
    cases o with
    | none => simp [Multiset.count_eq_zero_of_notMem hnone]
    | some v => exact h.count v
  · exact le_of_eq h.card.symm

/-- A request for `v` is taken out when one of the waiting ones is served with `v`. -/
theorem StandsFor.tail_some {o : Option V} {v : V}
    (h : StandsFor (some v ::ₘ pool) (o ::ₘ waiting)) (ho : o = none ∨ o = some v) :
    StandsFor pool waiting := by
  refine ⟨by simpa using h.card, fun w => ?_⟩
  have hcount := h.count w
  rw [Multiset.count_cons, Multiset.count_cons] at hcount
  rcases ho with rfl | rfl
  · simp at hcount
    omega
  · omega

/-- A request that asks for nothing is taken out in its place. -/
theorem StandsFor.tail_none {o : Option V} {v : V}
    (h : StandsFor (none ::ₘ pool) (o ::ₘ waiting)) (ho : o = none ∨ o = some v)
    (hcount : pool.count (some v) ≤ waiting.count (some v)) : StandsFor pool waiting := by
  refine ⟨by simpa using h.card, fun w => ?_⟩
  have hw := h.count w
  rw [Multiset.count_cons_of_ne (by simp)] at hw
  by_cases hwv : w = v
  · rw [hwv]
    exact hcount
  · rcases ho with rfl | rfl
    · simpa using hw
    · rwa [Multiset.count_cons_of_ne (by simpa using hwv)] at hw

theorem StandsFor.none_mem {o : Option V} {v : V} (h : StandsFor pool (o ::ₘ waiting))
    (ho : o = none ∨ o = some v) (hcount : pool.count (some v) ≤ waiting.count (some v)) :
    none ∈ pool := by
  by_contra hnone
  have heq := h.eq_of_none_notMem hnone
  rcases ho with rfl | rfl
  · exact hnone (heq ▸ Multiset.mem_cons_self _ _)
  · rw [heq, Multiset.count_cons_self] at hcount
    omega

/-- One of the waiting requests is served with `v`, while `g` is what a request that asks
for nothing would take. -/
theorem StandsFor.exchange {o : Option V} {g v : V} (h : StandsFor pool (o ::ₘ waiting))
    (ho : o = none ∨ o = some v) (hv : g = v ∨ some v ∈ pool) :
    ∃ o' rest, pool = o' ::ₘ rest ∧ StandsFor rest waiting ∧ (o' = none ∨ o' = some v) ∧
      o'.getD g = v := by
  by_cases hsome : some v ∈ pool ∧
      (g ≠ v ∨ waiting.count (some v) < pool.count (some v))
  · rcases Multiset.exists_cons_of_mem hsome.1 with ⟨rest, rfl⟩
    exact ⟨some v, rest, rfl, h.tail_some ho, .inr rfl, rfl⟩
  · have hg : g = v := by tauto
    have hcount : pool.count (some v) ≤ waiting.count (some v) := by
      by_cases hmem : some v ∈ pool
      · exact not_lt.mp fun hlt => hsome ⟨hmem, .inr hlt⟩
      · simp [Multiset.count_eq_zero_of_notMem hmem]
    rcases Multiset.exists_cons_of_mem (h.none_mem ho hcount) with ⟨rest, rfl⟩
    rw [Multiset.count_cons_of_ne (by simp)] at hcount
    exact ⟨none, rest, rfl, h.tail_none ho hcount, .inl rfl, hg⟩

end Pool

/-! ## Handlers in a list -/

section Handlers

variable {α β : Type*} {f : α → Option β} {l : List α} {i : ℕ} {a a' : α}

theorem filterMap_set_of_eq (hi : l[i]? = some a) (ha : f a' = f a) :
    (l.set i a').filterMap f = l.filterMap f := by
  induction l generalizing i with
  | nil => rfl
  | cons c l ih =>
    cases i with
    | zero =>
      obtain rfl : c = a := by simpa using hi
      simp [List.filterMap_cons, ha]
    | succ i => simp [List.filterMap_cons, ih (by simpa using hi)]

theorem coe_filterMap_set {b : β} (hi : l[i]? = some a) (ha : f a = some b) (ha' : f a' = none) :
    (l.filterMap f : Multiset β) = b ::ₘ ((l.set i a').filterMap f : Multiset β) := by
  induction l generalizing i with
  | nil => simp at hi
  | cons c l ih =>
    cases i with
    | zero =>
      obtain rfl : c = a := by simpa using hi
      simp [ha, ha']
    | succ i =>
      have ih := ih (by simpa using hi)
      cases hc : f c with
      | none => simpa [List.filterMap_cons, hc] using ih
      | some d =>
        simp only [List.set_cons_succ, List.filterMap_cons, hc, ← Multiset.cons_coe, ih]
        exact Multiset.cons_swap _ _ _

end Handlers

end Exchange

import Mathlib.Algebra.Order.Group.Nat
import Mathlib.Tactic.SplitIfs
import SmartCar.Lib.Events

/-!
# Visits

How often a machine comes into a part of its states, and how often it leaves it. The two
balance (`entered_balance`): a run leaves `P` as often as it has come in, unless it starts or ends
inside. Where the steps into one part are the steps out of another, `count_congr` chains the
balances.
-/

namespace Events

variable {σ ε : Type*} (step : σ → ε → σ) (s₀ : σ)

/-- How many events of `tr` met `ok` when they were consumed. -/
def count (ok : σ → ε → Prop) [∀ s e, Decidable (ok s e)] (tr : List ε) : ℕ :=
  (consumed step s₀ tr).countP fun c => ok c.1 c.2

@[simp] theorem count_nil (ok : σ → ε → Prop) [∀ s e, Decidable (ok s e)] :
    count step s₀ ok [] = 0 := rfl

theorem count_concat (ok : σ → ε → Prop) [∀ s e, Decidable (ok s e)] (tr : List ε) (e : ε) :
    count step s₀ ok (tr ++ [e]) =
      count step s₀ ok tr + if ok (run step s₀ tr) e then 1 else 0 := by
  simp [count, List.countP_append, List.countP_singleton]

theorem count_congr {ok ok' : σ → ε → Prop} [∀ s e, Decidable (ok s e)]
    [∀ s e, Decidable (ok' s e)] (h : ∀ s e, ok s e ↔ ok' s e) (tr : List ε) :
    count step s₀ ok tr = count step s₀ ok' tr := by
  apply List.countP_congr
  rintro ⟨s, e⟩ -
  simpa using h s e

variable (P : σ → Prop) [DecidablePred P]

/-- The step comes into `P`. -/
def Enters (s : σ) (e : ε) : Prop := ¬ P s ∧ P (step s e)

/-- The step leaves `P`. -/
def Leaves (s : σ) (e : ε) : Prop := P s ∧ ¬ P (step s e)

instance (s : σ) (e : ε) : Decidable (Enters step P s e) := inferInstanceAs (Decidable (_ ∧ _))

instance (s : σ) (e : ε) : Decidable (Leaves step P s e) := inferInstanceAs (Decidable (_ ∧ _))

/-- A run leaves `P` as often as it comes in, but for where it starts and where it is. -/
theorem entered_balance (tr : List ε) :
    count step s₀ (Enters step P) tr + (if P s₀ then 1 else 0) =
      count step s₀ (Leaves step P) tr + if P (run step s₀ tr) then 1 else 0 := by
  induction tr using List.reverseRecOn with
  | nil => rfl
  | append_singleton tr e ih =>
    rw [count_concat, count_concat, run_concat]
    -- a step that neither enters nor leaves stays on its side
    by_cases hbefore : P (run step s₀ tr) <;> by_cases hafter : P (step (run step s₀ tr) e) <;>
      simp only [Enters, Leaves, hbefore, hafter, not_true, not_false_iff, and_true, and_false,
        if_true, if_false] at ih ⊢ <;> omega

end Events

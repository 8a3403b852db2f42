import SmartCar.Lib.Events

/-!
# Machines that act

Some steps of a machine are actions of a simpler one, which may fault at them; the other steps
are none of its business.

* `actions`: what the machine does in a run;
* `agrees_actions`: a relation of the two that the steps keep holds at the end of every run,
  unless the simpler machine has faulted, and then the other one is where its fault leads.
-/

namespace Actions

open Events

variable {σ ε α τ φ : Type*} {step : σ → ε → σ} {act : σ → ε → Option α}
  {spec : τ → α → Except φ τ}

/-- The actions of a run, in order. -/
def actions (step : σ → ε → σ) (act : σ → ε → Option α) (s₀ : σ) (tr : List ε) : List α :=
  (consumed step s₀ tr).filterMap fun c => act c.1 c.2

@[simp] theorem actions_nil (s₀ : σ) : actions step act s₀ [] = [] := rfl

theorem actions_concat (s₀ : σ) (tr : List ε) (e : ε) :
    actions step act s₀ (tr ++ [e]) =
      actions step act s₀ tr ++ (act (run step s₀ tr) e).toList := by
  rw [actions, consumed_concat, List.filterMap_append]
  cases hact : act (run step s₀ tr) e with
  | none => simp [actions, hact]
  | some a => simp [actions, hact]

/-- The simpler machine is in a state that the other one is related to, or has faulted. -/
def Agrees (R : σ → τ → Prop) (dead : σ → φ → Prop) (s : σ) : Except φ τ → Prop
  | .ok t => R s t
  | .error f => dead s f

/-- Nothing is done after a fault. -/
theorem agrees_actions {R : σ → τ → Prop} {dead : σ → φ → Prop} {s₀ : σ} {t₀ : τ}
    (hstart : R s₀ t₀) (hidle : ∀ s t e, R s t → act s e = none → R (step s e) t)
    (hact : ∀ s t e a, R s t → act s e = some a → Agrees R dead (step s e) (spec t a))
    (hdead : ∀ s f e, dead s f → dead (step s e) f) (tr : List ε) :
    Agrees R dead (run step s₀ tr) ((actions step act s₀ tr).foldlM spec t₀) := by
  refine run_induction step s₀ (fun tr s => Agrees R dead s
    ((actions step act s₀ tr).foldlM spec t₀)) hstart ?_ tr
  intro tr e ih
  rw [actions_concat, List.foldlM_append]
  generalize (actions step act s₀ tr).foldlM spec t₀ = r at ih ⊢
  cases r with
  | error f => exact hdead _ f e ih
  | ok t =>
    cases hdone : act (run step s₀ tr) e with
    | none => exact hidle _ t e ih hdone
    | some a =>
      show Agrees R dead _ (spec t a >>= pure)
      rw [bind_pure]
      exact hact _ t e a ih hdone

end Actions

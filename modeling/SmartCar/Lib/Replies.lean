import Mathlib.Tactic.Common

/-!
# Machines that reply

A machine takes a request at a time, gives a reply, and may fail. It refines another one, which
does not fail, if the replies to any requests are the same.

* `serve` and `answer`: the replies of the two, and the states they end in;
* `serve_of_simulation`: a relation of the states that is kept by each permitted request, with the
  same reply, is kept by any list of them; what is permitted may depend on the state.
-/

namespace Replies

variable {σ τ ι ο : Type*}

/-- The replies of a machine that may fail. -/
def serve (step : σ → ι → Option (ο × σ)) : σ → List ι → Option (List ο × σ)
  | s, [] => some ([], s)
  | s, i :: is => do
    let (o, s) ← step s i
    let (os, s) ← serve step s is
    return (o :: os, s)

/-- The replies of a machine that does not fail. -/
def answer (spec : τ → ι → ο × τ) : τ → List ι → List ο × τ
  | t, [] => ([], t)
  | t, i :: is =>
    let (o, t) := spec t i
    let (os, t) := answer spec t is
    (o :: os, t)

/-- Each request is permitted in the state that it finds. -/
def Permitted (spec : τ → ι → ο × τ) (ok : τ → ι → Prop) : τ → List ι → Prop
  | _, [] => True
  | t, i :: is => ok t i ∧ Permitted spec ok (spec t i).2 is

instance decidablePermitted (spec : τ → ι → ο × τ) (ok : τ → ι → Prop)
    [∀ t i, Decidable (ok t i)] : ∀ t is, Decidable (Permitted spec ok t is)
  | _, [] => .isTrue trivial
  | t, i :: is =>
    have := decidablePermitted spec ok (spec t i).2 is
    inferInstanceAs (Decidable (ok t i ∧ Permitted spec ok (spec t i).2 is))

theorem serve_of_simulation {step : σ → ι → Option (ο × σ)} {spec : τ → ι → ο × τ}
    (R : σ → τ → Prop) (ok : τ → ι → Prop)
    (hstep : ∀ s t i, R s t → ok t i →
      ∃ s', step s i = some ((spec t i).1, s') ∧ R s' (spec t i).2) :
    ∀ is s t, R s t → Permitted spec ok t is →
      ∃ s', serve step s is = some ((answer spec t is).1, s') ∧ R s' (answer spec t is).2 := by
  intro is
  induction is with
  | nil =>
    intro s t hR _
    exact ⟨s, rfl, hR⟩
  | cons i is ih =>
    intro s t hR hok
    obtain ⟨s₁, hs₁, hR₁⟩ := hstep s t i hR hok.1
    obtain ⟨s₂, hs₂, hR₂⟩ := ih s₁ _ hR₁ hok.2
    refine ⟨s₂, ?_, hR₂⟩
    simp only [serve, hs₁]
    simp only [Option.bind_eq_bind, Option.bind_some, hs₂]
    rfl

/-- Where everything is permitted, every list of requests is. -/
theorem permitted_of_forall {spec : τ → ι → ο × τ} {ok : τ → ι → Prop} (h : ∀ t i, ok t i)
    (t : τ) (is : List ι) : Permitted spec ok t is := by
  induction is generalizing t with
  | nil => trivial
  | cons i is ih => exact ⟨h t i, ih _⟩

end Replies

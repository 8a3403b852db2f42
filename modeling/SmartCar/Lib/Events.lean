import Mathlib.Data.List.Induction
import Mathlib.Tactic.Common

/-!
# Event-driven machines

A machine is a step function `σ → ε → σ`; a run is the list of events it has
been fed. Laws about runs relate the *history* (all events so far) to the
state, or speak about the next event in the state the history has led to.

* `run_induction` is the invariant rule for facts about history and state;
* `Throughout P tr` says that `P` holds of every state of the run;
* `Along ok tr` says that every event of `tr` met `ok` when it was consumed,
  and `run_induction_along` is the invariant rule for such runs;
* `Happened ok tr` says that some event of `tr` met `ok`, and `Since q p tr` that some event
  met `p`, and none after it met `q`;
* `along_of_inv` turns a law of single steps, under an invariant, into a law of runs,
  `throughout_of_inv` does so for a law of states, and `along_congr` turns an equivalence of two
  laws of steps into one of runs.
-/

namespace Events

variable {σ ε : Type*} (step : σ → ε → σ) (s₀ : σ)

/-- The state after the events of `tr`, in order. -/
def run (tr : List ε) : σ := tr.foldl step s₀

@[simp] theorem run_concat (tr : List ε) (e : ε) :
    run step s₀ (tr ++ [e]) = step (run step s₀ tr) e := by
  simp [run]

theorem run_cons (e : ε) (tr : List ε) : run step s₀ (e :: tr) = run step (step s₀ e) tr := rfl

/-- The events of `tr`, each with the state in which it was consumed. -/
def consumed : σ → List ε → List (σ × ε)
  | _, [] => []
  | s, e :: tr => (s, e) :: consumed (step s e) tr

@[simp] theorem consumed_concat (tr : List ε) (e : ε) :
    consumed step s₀ (tr ++ [e]) = consumed step s₀ tr ++ [(run step s₀ tr, e)] := by
  induction tr generalizing s₀ with
  | nil => rfl
  | cons e' tr ih => simp [consumed, ih, run_cons]

/-! ## Invariants of history and state -/

/-- Invariant induction, the invariant seeing the whole history. -/
theorem run_induction (inv : List ε → σ → Prop) (hinit : inv [] s₀)
    (hstep : ∀ tr e, inv tr (run step s₀ tr) →
      inv (tr ++ [e]) (step (run step s₀ tr) e)) :
    ∀ tr, inv tr (run step s₀ tr) := by
  intro tr
  induction tr using List.reverseRecOn with
  | nil => exact hinit
  | append_singleton tr e ih =>
    rw [run_concat]
    exact hstep tr e ih

/-- `P` holds of every state of the run, the last one included. -/
def Throughout (P : σ → Prop) (tr : List ε) : Prop :=
  ∀ before after, tr = before ++ after → P (run step s₀ before)

theorem throughout_nil (P : σ → Prop) : Throughout step s₀ P [] ↔ P s₀ := by
  constructor
  · intro h
    exact h [] [] rfl
  · intro h before after heq
    obtain ⟨rfl, -⟩ := List.append_eq_nil_iff.mp heq.symm
    exact h

theorem throughout_concat (P : σ → Prop) (tr : List ε) (e : ε) :
    Throughout step s₀ P (tr ++ [e]) ↔
      Throughout step s₀ P tr ∧ P (step (run step s₀ tr) e) := by
  constructor
  · intro h
    refine ⟨fun before after heq => h before (after ++ [e]) (by simp [heq]), ?_⟩
    rw [← run_concat step s₀ tr e]
    exact h _ [] (by simp)
  · rintro ⟨h, hlast⟩ before after heq
    rcases List.eq_nil_or_concat after with rfl | ⟨after', e', rfl⟩
    · rw [List.append_nil] at heq
      rw [← heq, run_concat]
      exact hlast
    · rw [List.concat_eq_append, ← List.append_assoc] at heq
      obtain ⟨rfl, -⟩ := List.append_inj' heq rfl
      exact h before after' rfl

/-! ## Laws of single steps along a run -/

/-- Every event of `tr` satisfied `ok` at the moment it was consumed: `ok` sees
the events before it, the state they led to, and the event. -/
def Along (ok : List ε → σ → ε → Prop) (tr : List ε) : Prop :=
  ∀ before e after, tr = before ++ e :: after → ok before (run step s₀ before) e

@[simp] theorem along_nil (ok : List ε → σ → ε → Prop) : Along step s₀ ok [] := by
  intro before e after h
  simp at h

theorem along_concat (ok : List ε → σ → ε → Prop) (tr : List ε) (e : ε) :
    Along step s₀ ok (tr ++ [e]) ↔
      Along step s₀ ok tr ∧ ok tr (run step s₀ tr) e := by
  constructor
  · intro h
    refine ⟨?_, h tr e [] rfl⟩
    intro before e' after heq
    exact h before e' (after ++ [e]) (by simp [heq])
  · rintro ⟨h, he⟩ before e' after heq
    rcases List.eq_nil_or_concat after with rfl | ⟨after', e'', rfl⟩
    · -- the event in question is the last one
      rcases List.append_inj' heq rfl with ⟨rfl, hlast⟩
      simp only [List.cons.injEq, and_true] at hlast
      exact hlast ▸ he
    · -- it came before the last one
      rw [List.concat_eq_append, ← List.cons_append, ← List.append_assoc] at heq
      rcases List.append_inj' heq rfl with ⟨rfl, -⟩
      exact h before e' after' rfl

theorem along_iff_forall_fin (ok : List ε → σ → ε → Prop) (tr : List ε) :
    Along step s₀ ok tr ↔
      ∀ i : Fin tr.length, ok (tr.take i) (run step s₀ (tr.take i)) tr[i] := by
  constructor
  · intro h i
    exact h _ _ (tr.drop (i + 1)) (by simp)
  · rintro h before e after rfl
    simpa using h ⟨before.length, by simp⟩

instance (ok : List ε → σ → ε → Prop) [∀ before s e, Decidable (ok before s e)] (tr : List ε) :
    Decidable (Along step s₀ ok tr) :=
  decidable_of_iff _ (along_iff_forall_fin step s₀ ok tr).symm

/-- Invariant induction in runs whose steps all meet `ok`. -/
theorem run_induction_along (ok : List ε → σ → ε → Prop) (inv : List ε → σ → Prop)
    (hinit : inv [] s₀)
    (hstep : ∀ tr e, inv tr (run step s₀ tr) → ok tr (run step s₀ tr) e →
      inv (tr ++ [e]) (step (run step s₀ tr) e)) :
    ∀ tr, Along step s₀ ok tr → inv tr (run step s₀ tr) := by
  intro tr
  induction tr using List.reverseRecOn with
  | nil => exact fun _ => hinit
  | append_singleton tr e ih =>
    intro h
    rcases (along_concat step s₀ ok tr e).mp h with ⟨htr, he⟩
    rw [run_concat]
    exact hstep tr e (ih htr) he

/-- What an invariant of the runs that meet `ok` says of a state holds throughout such a run. -/
theorem throughout_of_inv (ok : List ε → σ → ε → Prop) (P : σ → Prop)
    (hinv : ∀ tr, Along step s₀ ok tr → P (run step s₀ tr)) :
    ∀ tr, Along step s₀ ok tr → Throughout step s₀ P tr := by
  rintro tr h before after rfl
  refine hinv before ?_
  rintro before' e after' rfl
  exact h before' e (after' ++ after) (by simp)

/-- A law that follows, at each step, from `ok` and an invariant of the runs
that meet `ok`, holds all along those runs. -/
theorem along_of_inv (ok law : List ε → σ → ε → Prop) (inv : List ε → σ → Prop)
    (hinv : ∀ tr, Along step s₀ ok tr → inv tr (run step s₀ tr))
    (hlaw : ∀ tr e, inv tr (run step s₀ tr) → ok tr (run step s₀ tr) e →
      law tr (run step s₀ tr) e) :
    ∀ tr, Along step s₀ ok tr → Along step s₀ law tr := by
  intro tr
  induction tr using List.reverseRecOn with
  | nil => exact fun _ => along_nil step s₀ law
  | append_singleton tr e ih =>
    intro h
    rcases (along_concat step s₀ ok tr e).mp h with ⟨htr, he⟩
    rw [along_concat]
    exact ⟨ih htr, hlaw tr e (hinv tr htr) he⟩

/-- Laws that say the same at each step of every run hold along the same runs. -/
theorem along_congr (law law' : List ε → σ → ε → Prop)
    (hlaw : ∀ tr e, law tr (run step s₀ tr) e ↔ law' tr (run step s₀ tr) e) (tr : List ε) :
    Along step s₀ law tr ↔ Along step s₀ law' tr := by
  constructor
  · intro h before e after heq
    exact (hlaw before e).mp (h before e after heq)
  · intro h before e after heq
    exact (hlaw before e).mpr (h before e after heq)

/-- Some event of `tr` satisfied `ok` at the moment it was consumed. -/
def Happened (ok : List ε → σ → ε → Prop) (tr : List ε) : Prop :=
  ∃ before e after, tr = before ++ e :: after ∧ ok before (run step s₀ before) e

theorem happened_iff_not_along (ok : List ε → σ → ε → Prop) (tr : List ε) :
    Happened step s₀ ok tr ↔ ¬ Along step s₀ (fun before s e => ¬ ok before s e) tr := by
  simp only [Happened, Along, not_forall, not_not, exists_prop]

@[simp] theorem not_happened_nil (ok : List ε → σ → ε → Prop) : ¬ Happened step s₀ ok [] := by
  simp [happened_iff_not_along]

theorem happened_concat (ok : List ε → σ → ε → Prop) (tr : List ε) (e : ε) :
    Happened step s₀ ok (tr ++ [e]) ↔
      Happened step s₀ ok tr ∨ ok tr (run step s₀ tr) e := by
  rw [happened_iff_not_along, along_concat, not_and_or, not_not, ← happened_iff_not_along]

instance (ok : List ε → σ → ε → Prop) [∀ before s e, Decidable (ok before s e)] (tr : List ε) :
    Decidable (Happened step s₀ ok tr) :=
  decidable_of_iff _ (happened_iff_not_along step s₀ ok tr).symm

/-- Some event of `tr` satisfied `p` at the moment it was consumed, and no later one `q`. -/
def Since (q p : List ε → σ → ε → Prop) (tr : List ε) : Prop :=
  ∃ before e after, tr = before ++ e :: after ∧ p before (run step s₀ before) e ∧
    ∀ between e' rest, after = between ++ e' :: rest →
      ¬ q (before ++ e :: between) (run step s₀ (before ++ e :: between)) e'

@[simp] theorem not_since_nil (q p : List ε → σ → ε → Prop) : ¬ Since step s₀ q p [] := by
  rintro ⟨before, e, after, heq, -⟩
  simp at heq

theorem since_concat (q p : List ε → σ → ε → Prop) (tr : List ε) (e : ε) :
    Since step s₀ q p (tr ++ [e]) ↔
      p tr (run step s₀ tr) e ∨ Since step s₀ q p tr ∧ ¬ q tr (run step s₀ tr) e := by
  constructor
  · rintro ⟨before, e', after, heq, hp, hq⟩
    rcases List.eq_nil_or_concat after with rfl | ⟨after', e'', rfl⟩
    · -- the event in question is the last one
      rcases List.append_inj' heq rfl with ⟨rfl, hlast⟩
      simp only [List.cons.injEq, and_true] at hlast
      exact .inl (hlast ▸ hp)
    · -- it came before, and the last one is among those after it
      rw [List.concat_eq_append, ← List.cons_append, ← List.append_assoc] at heq
      rcases List.append_inj' heq rfl with ⟨rfl, hlast⟩
      simp only [List.cons.injEq, and_true] at hlast
      subst hlast
      refine .inr ⟨⟨before, e', after', rfl, hp, ?_⟩, hq after' e [] (by simp)⟩
      rintro between e'' rest rfl
      exact hq between e'' (rest ++ [e]) (by simp)
  · rintro (hp | ⟨⟨before, e', after, rfl, hp, hq⟩, hnot⟩)
    · exact ⟨tr, e, [], rfl, hp, by simp⟩
    · refine ⟨before, e', after ++ [e], by simp, hp, ?_⟩
      intro between e'' rest heq
      rcases List.eq_nil_or_concat rest with rfl | ⟨rest', last, rfl⟩
      · rcases List.append_inj' heq rfl with ⟨rfl, hlast⟩
        simp only [List.cons.injEq, and_true] at hlast
        exact hlast ▸ hnot
      · rw [List.concat_eq_append, ← List.cons_append, ← List.append_assoc] at heq
        exact hq between e'' rest' (List.append_inj' heq rfl).1

/-! ## Steps that may fail -/

/-- A run of steps that do not fail under an invariant does not fail, and keeps it. -/
theorem exists_foldlM {step : σ → ε → Option σ} (inv : σ → Prop) (ok : ε → Prop)
    (hstep : ∀ s e, inv s → ok e → ∃ s', step s e = some s' ∧ inv s') :
    ∀ (tr : List ε) s, inv s → (∀ e ∈ tr, ok e) → ∃ s', tr.foldlM step s = some s' ∧ inv s' := by
  intro tr
  induction tr with
  | nil => exact fun s hs _ => ⟨s, rfl, hs⟩
  | cons e tr ih =>
    intro s hs hok
    rcases hstep s e hs (hok e (by simp)) with ⟨t, ht, hinv⟩
    rcases ih t hinv fun e' he' => hok e' (by simp [he']) with ⟨s', hs', hinv'⟩
    exact ⟨s', by simp [ht, hs'], hinv'⟩

/-- The same, the invariant seeing the whole history. -/
theorem exists_foldlM_history {step : σ → ε → Option σ} (inv : List ε → σ → Prop) (ok : ε → Prop)
    {s₀ : σ} (hinit : inv [] s₀)
    (hstep : ∀ tr s e, inv tr s → ok e → ∃ s', step s e = some s' ∧ inv (tr ++ [e]) s') :
    ∀ tr : List ε, (∀ e ∈ tr, ok e) → ∃ s, tr.foldlM step s₀ = some s ∧ inv tr s := by
  intro tr
  induction tr using List.reverseRecOn with
  | nil => exact fun _ => ⟨s₀, rfl, hinit⟩
  | append_singleton tr e ih =>
    intro hok
    rcases ih fun e' he' => hok e' (by simp [he']) with ⟨s, hs, hinv⟩
    rcases hstep tr s e hinv (hok e (by simp)) with ⟨s', hs', hinv'⟩
    exact ⟨s', by simp [List.foldlM_append, hs, hs'], hinv'⟩

end Events

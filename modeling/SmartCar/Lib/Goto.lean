import Mathlib.Order.RelClasses
import Mathlib.Tactic.Common

/-!
# Goto programs over a read-only memory

A program with labels and jumps is a function `code : σ → Act`: in each state,
label included, it says what the program does up to the next label. It may read
cells of a memory `mem : P → A`, index its own tables (the index is what
counts), leave marks, and then jump or halt.

* `after n s` is the state after `n` jumps, `Visits s t` says that `t` is reached,
  `Ends s` that the program halts;
* `Halts s u` says that the program halts, in `u`;
* `Act.Sat R T Q` is the weakest precondition of one stretch of code: the cells read
  meet `R`, the indices used meet `T`, and the state jumped to meets `Q`;
  `Act.Post Q F` is the one that also asks `F` of the state halted in;
  `Act.Pair Q F` relates two stretches that do the same;
* `visits_induction` is the invariant rule;
* `Via P s t` says that `t` comes after `s` and that `P` holds of every state between them;
  `Via.invariant` is its rule;
* `Confined R T s` says that a whole run reads and indexes so; `confined_of_sat` and
  `Confined.sat` go from its stretches to the run and back;
* `ends_of_rank` is the termination rule, `exists_via_of_rank` the one for getting to a
  state, `not_ends_of_trap` the rule for the opposite.
-/

/-- What a program does in one state: `read` a memory cell, `touch` an index of a
table, leave a `mark`, `goto` a state or `halt` in one. -/
inductive Act (σ P T M A : Type) where
  | goto (s : σ)
  | halt (s : σ)
  | read (p : P) (k : A → Act σ P T M A)
  | touch (t : T) (k : Act σ P T M A)
  | mark (m : M) (k : Act σ P T M A)

namespace Act

variable {σ P T M A : Type} (mem : P → A)

/-- The state jumped to, if the program does not halt. -/
def next : Act σ P T M A → Option σ
  | goto s => some s
  | halt _ => none
  | read p k => (k (mem p)).next
  | touch _ k => k.next
  | mark _ k => k.next

/-- The state halted in, if the program halts. -/
def final : Act σ P T M A → Option σ
  | goto _ => none
  | halt s => some s
  | read p k => (k (mem p)).final
  | touch _ k => k.final
  | mark _ k => k.final

/-- The memory cells read, in order. -/
def reads : Act σ P T M A → List P
  | goto _ => []
  | halt _ => []
  | read p k => p :: (k (mem p)).reads
  | touch _ k => k.reads
  | mark _ k => k.reads

/-- The table indices used, in order. -/
def touches : Act σ P T M A → List T
  | goto _ => []
  | halt _ => []
  | read p k => (k (mem p)).touches
  | touch t k => t :: k.touches
  | mark _ k => k.touches

/-- The cells read meet `R`, the indices used meet `T`, the state jumped to meets `Q`. -/
def Sat (R : P → Prop) (T' : T → Prop) (Q : σ → Prop) : Act σ P T M A → Prop
  | goto s => Q s
  | halt _ => True
  | read p k => R p ∧ (k (mem p)).Sat R T' Q
  | touch t k => T' t ∧ k.Sat R T' Q
  | mark _ k => k.Sat R T' Q

variable {mem} {R : P → Prop} {U : T → Prop} {Q Q' : σ → Prop}

@[simp] theorem sat_goto (s : σ) : (goto s : Act σ P T M A).Sat mem R U Q ↔ Q s := Iff.rfl

@[simp] theorem sat_halt (s : σ) : (halt s : Act σ P T M A).Sat mem R U Q := trivial

@[simp] theorem sat_read (p : P) (k : A → Act σ P T M A) :
    (read p k).Sat mem R U Q ↔ R p ∧ (k (mem p)).Sat mem R U Q := Iff.rfl

@[simp] theorem sat_touch (t : T) (k : Act σ P T M A) :
    (touch t k).Sat mem R U Q ↔ U t ∧ k.Sat mem R U Q := Iff.rfl

@[simp] theorem sat_mark (m : M) (k : Act σ P T M A) :
    (mark m k).Sat mem R U Q ↔ k.Sat mem R U Q := Iff.rfl

@[simp] theorem sat_ite (c : Prop) [Decidable c] (a b : Act σ P T M A) :
    (if c then a else b).Sat mem R U Q ↔
      (c → a.Sat mem R U Q) ∧ (¬ c → b.Sat mem R U Q) := by
  split <;> simp [*]

/-- The precondition of a weaker goal is weaker. -/
theorem Sat.mono {a : Act σ P T M A} (h : a.Sat mem R U Q) (hQ : ∀ s, Q s → Q' s) :
    a.Sat mem R U Q' := by
  induction a with
  | goto t => exact hQ t h
  | halt t => trivial
  | read p k ih => exact ⟨h.1, ih _ h.2⟩
  | touch t k ih => exact ⟨h.1, ih h.2⟩
  | mark m k ih => exact ih h

/-- The precondition as a property of what the stretch does. -/
theorem sat_iff {a : Act σ P T M A} :
    a.Sat mem R U Q ↔
      (∀ p ∈ a.reads mem, R p) ∧ (∀ t ∈ a.touches mem, U t) ∧ ∀ s, a.next mem = some s → Q s := by
  induction a with
  | goto t => simp [Sat, reads, touches, next]
  | halt t => simp [Sat, reads, touches, next]
  | read p k ih => simp only [Sat, reads, touches, next, List.forall_mem_cons, ih, and_assoc]
  | touch t k ih =>
    simp only [Sat, reads, touches, next, List.forall_mem_cons, ih]
    tauto
  | mark m k ih => exact ih

theorem Sat.next {a : Act σ P T M A} (h : a.Sat mem R U Q) {s : σ}
    (hs : a.next mem = some s) : Q s := (sat_iff.mp h).2.2 s hs

/-- A stretch jumps or halts. -/
theorem next_eq_none_iff (a : Act σ P T M A) :
    a.next mem = none ↔ ∃ u, a.final mem = some u := by
  induction a with
  | goto t => simp [next, final]
  | halt t => simp [next, final]
  | read p k ih => exact ih _
  | touch t k ih => exact ih
  | mark m k ih => exact ih

/-- The state jumped to meets `Q`, the state halted in meets `F`. -/
def Post (mem : P → A) (Q F : σ → Prop) : Act σ P T M A → Prop
  | goto s => Q s
  | halt s => F s
  | read p k => (k (mem p)).Post mem Q F
  | touch _ k => k.Post mem Q F
  | mark _ k => k.Post mem Q F

variable {F F' : σ → Prop}

@[simp] theorem post_goto (s : σ) : (goto s : Act σ P T M A).Post mem Q F ↔ Q s := Iff.rfl

@[simp] theorem post_halt (s : σ) : (halt s : Act σ P T M A).Post mem Q F ↔ F s := Iff.rfl

@[simp] theorem post_read (p : P) (k : A → Act σ P T M A) :
    (read p k).Post mem Q F ↔ (k (mem p)).Post mem Q F := Iff.rfl

@[simp] theorem post_touch (t : T) (k : Act σ P T M A) :
    (touch t k).Post mem Q F ↔ k.Post mem Q F := Iff.rfl

@[simp] theorem post_mark (m : M) (k : Act σ P T M A) :
    (mark m k).Post mem Q F ↔ k.Post mem Q F := Iff.rfl

@[simp] theorem post_ite (c : Prop) [Decidable c] (a b : Act σ P T M A) :
    (if c then a else b).Post mem Q F ↔ (c → a.Post mem Q F) ∧ (¬ c → b.Post mem Q F) := by
  split <;> simp [*]

/-- `Post`, as a property of the state jumped to and of the one halted in. -/
theorem post_iff {a : Act σ P T M A} :
    a.Post mem Q F ↔ (∀ s, a.next mem = some s → Q s) ∧ ∀ s, a.final mem = some s → F s := by
  induction a with
  | goto t => simp [next, final]
  | halt t => simp [next, final]
  | read p k ih => exact ih _
  | touch t k ih => exact ih
  | mark m k ih => exact ih

/-- Two goals at once. -/
theorem Post.and {a : Act σ P T M A} (h : a.Post mem Q F) (h' : a.Post mem Q' F') :
    a.Post mem (fun s => Q s ∧ Q' s) fun s => F s ∧ F' s := by
  rw [post_iff] at h h' ⊢
  exact ⟨fun s hs => ⟨h.1 s hs, h'.1 s hs⟩, fun s hs => ⟨h.2 s hs, h'.2 s hs⟩⟩

/-- A goal, and what holds whether or not the program halts. -/
theorem Post.and_sat {a : Act σ P T M A} (h : a.Post mem Q F) (h' : a.Sat mem R U Q') :
    a.Post mem (fun s => Q s ∧ Q' s) F := by
  rw [post_iff] at h ⊢
  exact ⟨fun s hs => ⟨h.1 s hs, h'.next hs⟩, h.2⟩

theorem Post.mono {a : Act σ P T M A} (h : a.Post mem Q F) (hQ : ∀ s, Q s → Q' s)
    (hF : ∀ s, F s → F' s) : a.Post mem Q' F' := by
  rw [post_iff] at h ⊢
  exact ⟨fun s hs => hQ s (h.1 s hs), fun s hs => hF s (h.2 s hs)⟩

/-- Two stretches do the same: both jump, to states related by `Q`, or both halt, in
states related by `F`. -/
def Pair {τ : Type} (mem : P → A) (Q F : σ → τ → Prop) (a : Act σ P T M A) (b : Act τ P T M A) :
    Prop :=
  Option.Rel Q (a.next mem) (b.next mem) ∧ Option.Rel F (a.final mem) (b.final mem)

section

variable {τ : Type} {Q F : σ → τ → Prop}

@[simp] theorem pair_goto (s : σ) (t : τ) :
    Pair mem Q F (goto s : Act σ P T M A) (goto t : Act τ P T M A) ↔ Q s t := by
  simp [Pair, next, final]

@[simp] theorem pair_halt (s : σ) (t : τ) :
    Pair mem Q F (halt s : Act σ P T M A) (halt t : Act τ P T M A) ↔ F s t := by
  simp [Pair, next, final]

@[simp] theorem pair_read (p p' : P) (k : A → Act σ P T M A) (k' : A → Act τ P T M A) :
    Pair mem Q F (read p k) (read p' k') ↔ Pair mem Q F (k (mem p)) (k' (mem p')) := Iff.rfl

theorem pair_read_left (p : P) (k : A → Act σ P T M A) (b : Act τ P T M A) :
    Pair mem Q F (read p k) b ↔ Pair mem Q F (k (mem p)) b := Iff.rfl

@[simp] theorem pair_touch (t t' : T) (k : Act σ P T M A) (k' : Act τ P T M A) :
    Pair mem Q F (touch t k) (touch t' k') ↔ Pair mem Q F k k' := Iff.rfl

@[simp] theorem pair_mark (m m' : M) (k : Act σ P T M A) (k' : Act τ P T M A) :
    Pair mem Q F (mark m k) (mark m' k') ↔ Pair mem Q F k k' := Iff.rfl

@[simp] theorem pair_ite (c : Prop) (i j : Decidable c) (a b : Act σ P T M A)
    (a' b' : Act τ P T M A) :
    Pair mem Q F (@ite _ c i a b) (@ite _ c j a' b') ↔
      (c → Pair mem Q F a a') ∧ (¬ c → Pair mem Q F b b') := by
  by_cases hc : c <;> simp [hc]

/-- Two stretches that meet stronger relations meet weaker ones. -/
theorem Pair.mono {Q' F' : σ → τ → Prop} {a : Act σ P T M A} {b : Act τ P T M A}
    (h : Pair mem Q F a b) (hQ : ∀ s t, Q s t → Q' s t) (hF : ∀ s t, F s t → F' s t) :
    Pair mem Q' F' a b := by
  have himp : ∀ (R R' : σ → τ → Prop), (∀ s t, R s t → R' s t) →
      ∀ x y, Option.Rel R x y → Option.Rel R' x y := by
    rintro R R' himp _ _ (hR | _)
    · exact .some (himp _ _ hR)
    · exact .none
  exact ⟨himp Q Q' hQ _ _ h.1, himp F F' hF _ _ h.2⟩

/-- Which of the two comes first does not matter. -/
theorem Pair.swap {a : Act σ P T M A} {b : Act τ P T M A} (h : Pair mem Q F a b) :
    Pair mem (flip Q) (flip F) b a := by
  have hflip : ∀ (R : σ → τ → Prop) x y, Option.Rel R x y → Option.Rel (flip R) y x := by
    rintro R _ _ (hR | _)
    · exact .some hR
    · exact .none
  exact ⟨hflip Q _ _ h.1, hflip F _ _ h.2⟩

/-- Where one jumps the other does, -/
theorem Pair.next {a : Act σ P T M A} {b : Act τ P T M A} (h : Pair mem Q F a b) {s : σ}
    (hs : a.next mem = some s) : ∃ t, b.next mem = some t ∧ Q s t := by
  have hrel := h.1
  rw [hs] at hrel
  generalize b.next mem = r at hrel
  cases hrel with
  | some hQ => exact ⟨_, rfl, hQ⟩

/-- and where one halts the other does. -/
theorem Pair.final {a : Act σ P T M A} {b : Act τ P T M A} (h : Pair mem Q F a b) {s : σ}
    (hs : a.final mem = some s) : ∃ t, b.final mem = some t ∧ F s t := by
  have hrel := h.2
  rw [hs] at hrel
  generalize b.final mem = r at hrel
  cases hrel with
  | some hF => exact ⟨_, rfl, hF⟩

/-- Two stretches that jump. -/
theorem Pair.of_next {a : Act σ P T M A} {b : Act τ P T M A} {s : σ} {t : τ}
    (ha : a.next mem = some s) (hb : b.next mem = some t) (h : Q s t) : Pair mem Q F a b := by
  have hnone : ∀ {υ : Type} (c : Act υ P T M A), (c.next mem).isSome → c.final mem = none := by
    intro υ c hc
    by_contra hne
    rw [c.next_eq_none_iff.mpr (Option.ne_none_iff_exists'.mp hne)] at hc
    cases hc
  refine ⟨by rw [ha, hb]; exact .some h, ?_⟩
  rw [hnone a (by simp [ha]), hnone b (by simp [hb])]
  exact .none

/-- Two branches on conditions that agree. -/
theorem Pair.ite {c c' : Prop} [Decidable c] [Decidable c'] {a b : Act σ P T M A}
    {a' b' : Act τ P T M A} (hc : c' ↔ c) (hpos : c → Pair mem Q F a a')
    (hneg : ¬ c → Pair mem Q F b b') :
    Pair mem Q F (if c then a else b) (if c' then a' else b') := by
  by_cases h : c
  · rw [if_pos h, if_pos (hc.mpr h)]
    exact hpos h
  · rw [if_neg h, if_neg (hc.not.mpr h)]
    exact hneg h

end

/-! ## Marks that are written to the memory -/

/-- The same stretch where a mark changes the memory: the program carries its memory
`m` along, and `put` writes a mark. -/
def writing (put : M → (P → A) → P → A) (m : P → A) : Act σ P T M A → Act (σ × (P → A)) P T M A
  | goto s => goto (s, m)
  | halt s => halt (s, m)
  | read p k => (k (m p)).writing put m
  | touch t k => touch t (k.writing put m)
  | mark c k => mark c (k.writing put (put c m))

/-- What is read on the way, with the cells. -/
def seen (put : M → (P → A) → P → A) (m : P → A) : Act σ P T M A → List (P × A)
  | goto _ => []
  | halt _ => []
  | read p k => (p, m p) :: (k (m p)).seen put m
  | touch _ k => k.seen put m
  | mark c k => k.seen put (put c m)

/-- The stretch does not tell apart values related by `E`, and the state jumped to meets `Q`,
whatever is read. -/
def Blind (E : A → A → Prop) (Q : σ → Prop) : Act σ P T M A → Prop
  | goto s => Q s
  | halt _ => True
  | read _ k => (∀ a b, E a b → k a = k b) ∧ ∀ a, (k a).Blind E Q
  | touch _ k => k.Blind E Q
  | mark _ k => k.Blind E Q

section

variable {put : M → (P → A) → P → A} {m : P → A} {E : A → A → Prop}

@[simp] theorem blind_goto (s : σ) : (goto s : Act σ P T M A).Blind E Q ↔ Q s := Iff.rfl

@[simp] theorem blind_halt (s : σ) : (halt s : Act σ P T M A).Blind E Q := trivial

@[simp] theorem blind_touch (t : T) (k : Act σ P T M A) :
    (touch t k).Blind E Q ↔ k.Blind E Q := Iff.rfl

@[simp] theorem blind_mark (c : M) (k : Act σ P T M A) :
    (mark c k).Blind E Q ↔ k.Blind E Q := Iff.rfl

@[simp] theorem blind_ite (c : Prop) [Decidable c] (a b : Act σ P T M A) :
    (if c then a else b).Blind E Q ↔ (c → a.Blind E Q) ∧ (¬ c → b.Blind E Q) := by
  split <;> simp [*]

theorem writing_ite (c : Prop) [Decidable c] (a b : Act σ P T M A) :
    (if c then a else b).writing put m = if c then a.writing put m else b.writing put m := by
  split <;> rfl

/-- A stretch that reads nothing. -/
theorem blind_of_sat {a : Act σ P T M A} (h : a.Sat mem (fun _ => False) U Q) : a.Blind E Q := by
  induction a with
  | goto s => exact h
  | halt s => trivial
  | read p k _ => exact h.1.elim
  | touch t k ih => exact ih h.2
  | mark c k ih => exact ih h

/-- A stretch does the same over a memory that it does not tell apart from its own. -/
theorem Blind.pair {a : Act σ P T M A} (h : a.Blind E Q)
    (hseen : ∀ c ∈ a.seen put m, E c.2 (mem c.1)) :
    Pair mem (fun s t => t.1 = s ∧ Q s) (fun s t => t.1 = s) a (a.writing put m) := by
  induction a generalizing m with
  | goto s => exact (pair_goto _ _).mpr ⟨rfl, h⟩
  | halt s => exact (pair_halt _ _).mpr rfl
  | read p k ih =>
    rw [seen, List.forall_mem_cons] at hseen
    have hk : k (m p) = k (mem p) := h.1 _ _ hseen.1
    have hpair := ih (m p) (h.2 _) hseen.2
    rwa [writing, hk] at *
  | touch t k ih => exact ih h hseen
  | mark c k ih => exact ih h hseen

end

end Act

namespace Goto

variable {σ P T M A : Type} (code : σ → Act σ P T M A) (mem : P → A)

/-- The state after `n` jumps, if the program has not halted before. -/
def after : ℕ → σ → Option σ
  | 0, s => some s
  | n + 1, s =>
    match (code s).next mem with
    | none => none
    | some s' => after n s'

/-- The program reaches `t` from `s`. -/
def Visits (s t : σ) : Prop := ∃ n, after code mem n s = some t

/-- The program halts. -/
def Ends (s : σ) : Prop := ∃ t, Visits code mem s t ∧ (code t).next mem = none

/-- The program halts in `u`. -/
def Halts (s u : σ) : Prop := ∃ t, Visits code mem s t ∧ (code t).final mem = some u

/-- All along the run the cells read meet `R`, and the indices used meet `U`. -/
def Confined (R : P → Prop) (U : T → Prop) (s : σ) : Prop :=
  ∀ t, Visits code mem s t →
    (∀ p ∈ (code t).reads mem, R p) ∧ ∀ u ∈ (code t).touches mem, U u

/-- A visit that is found by running the program. -/
theorem exists_visits (s : σ) (n : ℕ) (p : σ → Bool) (h : (after code mem n s).any p = true) :
    ∃ t, Visits code mem s t ∧ p t = true := by
  rcases (Option.any_eq_true _ _).mp h with ⟨t, ht, hp⟩
  exact ⟨t, ⟨n, ht⟩, hp⟩

/-- The program halts after fewer than `n` jumps, and `p` holds of every state visited. -/
def checkRun (p : σ → Bool) : ℕ → σ → Bool
  | 0, _ => false
  | n + 1, s =>
    p s && match (code s).next mem with
      | none => true
      | some s' => checkRun p n s'

/-- `q` holds after `n + 1` jumps, and `p` of the states between. -/
def checkVia (p q : σ → Bool) : ℕ → σ → Bool
  | 0, s => ((code s).next mem).any q
  | n + 1, s => ((code s).next mem).any fun t => p t && checkVia p q n t

variable {code mem}

/-- One jump more, at the end. -/
theorem after_succ {n : ℕ} {s t u : σ} (h : after code mem n s = some t)
    (hu : (code t).next mem = some u) : after code mem (n + 1) s = some u := by
  induction n generalizing s with
  | zero =>
    obtain rfl : s = t := by simpa [after] using h
    simp [after, hu]
  | succ n ih =>
    rw [after] at h ⊢
    cases hn : (code s).next mem with
    | none => simp [hn] at h
    | some s' =>
      simp only [hn] at h ⊢
      exact ih h

/-- First some jumps, then others. -/
theorem after_add (m n : ℕ) (s : σ) :
    after code mem (m + n) s = (after code mem m s).bind (after code mem n) := by
  induction m generalizing s with
  | zero => simp [after]
  | succ m ih =>
    rw [show m + 1 + n = (m + n) + 1 by omega, after, after]
    cases (code s).next mem with
    | none => rfl
    | some s' => exact ih s'

/-- A run that gets so far has got less far. -/
theorem after_isSome {m n : ℕ} {s : σ} (hle : m ≤ n) (h : (after code mem n s).isSome) :
    (after code mem m s).isSome := by
  obtain ⟨k, rfl⟩ : ∃ k, n = m + k := ⟨n - m, by omega⟩
  rw [after_add] at h
  cases hm : after code mem m s with
  | none => simp [hm] at h
  | some t => rfl

/-- After the end there is no further jump. -/
theorem after_end {m n : ℕ} {s t : σ} (h : after code mem m s = some t)
    (hend : (code t).next mem = none) (hlt : m < n) : after code mem n s = none := by
  obtain ⟨k, rfl⟩ : ∃ k, n = m + (k + 1) := ⟨n - m - 1, by omega⟩
  rw [after_add, h]
  simp [after, hend]

theorem Visits.refl (s : σ) : Visits code mem s s := ⟨0, rfl⟩

theorem Visits.step {s t u : σ} (h : Visits code mem s t) (hu : (code t).next mem = some u) :
    Visits code mem s u := by
  rcases h with ⟨n, hn⟩
  exact ⟨n + 1, after_succ hn hu⟩

theorem Visits.head {s t u : σ} (ht : (code s).next mem = some t) (h : Visits code mem t u) :
    Visits code mem s u := by
  rcases h with ⟨n, hn⟩
  exact ⟨n + 1, by simpa [after, ht] using hn⟩

/-- A state that is visited is the first one, or visited from the second. -/
theorem Visits.cases_head {s t : σ} (h : Visits code mem s t) :
    t = s ∨ ∃ s', (code s).next mem = some s' ∧ Visits code mem s' t := by
  rcases h with ⟨n, hn⟩
  cases n with
  | zero => exact .inl (by simpa [after] using hn.symm)
  | succ n =>
    rw [after] at hn
    cases hnext : (code s).next mem with
    | none => simp [hnext] at hn
    | some s' =>
      simp only [hnext] at hn
      exact .inr ⟨s', rfl, n, hn⟩

theorem Ends.head {s t : σ} (ht : (code s).next mem = some t) (h : Ends code mem t) :
    Ends code mem s := by
  rcases h with ⟨u, hu, hnone⟩
  exact ⟨u, hu.head ht, hnone⟩

/-! ## Invariants -/

/-- Invariant induction over the states visited; the step may use that its start is
visited. -/
theorem visits_induction {s₀ : σ} (inv : σ → Prop) (hinit : inv s₀)
    (hstep : ∀ s s', Visits code mem s₀ s → inv s → (code s).next mem = some s' → inv s') :
    ∀ t, Visits code mem s₀ t → inv t := by
  rintro t ⟨n, hn⟩
  -- on the number of jumps, for every state from which `s₀` has led here
  suffices hmain : ∀ n s, Visits code mem s₀ s → inv s → after code mem n s = some t → inv t from
    hmain n s₀ (Visits.refl s₀) hinit hn
  intro n
  induction n with
  | zero =>
    intro s _ hs h
    obtain rfl : s = t := by simpa [after] using h
    exact hs
  | succ n ih =>
    intro s hv hs h
    rw [after] at h
    cases hnext : (code s).next mem with
    | none => simp [hnext] at h
    | some s' =>
      simp only [hnext] at h
      exact ih s' (hv.step hnext) (hstep s s' hv hs hnext) h

/-- An invariant that each stretch of code keeps, and from which it halts with `F` only. -/
theorem Halts.of_post {s₀ u : σ} (h : Halts code mem s₀ u) (inv F : σ → Prop) (hinit : inv s₀)
    (hstep : ∀ s, Visits code mem s₀ s → inv s → (code s).Post mem inv F) : F u := by
  rcases h with ⟨t, ht, hu⟩
  have hinv : inv t := visits_induction inv hinit
    (fun s s' hs hi hnext => (Act.post_iff.mp (hstep s hs hi)).1 s' hnext) t ht
  exact (Act.post_iff.mp (hstep t ht hinv)).2 u hu

section

variable {τ : Type} {code' : τ → Act τ P T M A}

/-- Two runs whose stretches do the same: where the first gets to, so does the second. -/
theorem Visits.pair {s₀ s : σ} {t₀ : τ} (h : Visits code mem s₀ s) (Q : σ → τ → Prop)
    {F : σ → τ → Prop} (hinit : Q s₀ t₀)
    (hstep : ∀ s t, Visits code mem s₀ s → Visits code' mem t₀ t → Q s t →
      (code s).Pair mem Q F (code' t)) :
    ∃ t, Visits code' mem t₀ t ∧ Q s t := by
  refine visits_induction (fun s => ∃ t, Visits code' mem t₀ t ∧ Q s t)
    ⟨t₀, Visits.refl t₀, hinit⟩ ?_ s h
  rintro s s' hs ⟨t, ht, hQ⟩ hnext
  rcases (hstep s t hs ht hQ).next hnext with ⟨t', hnext', hQ'⟩
  exact ⟨t', ht.step hnext', hQ'⟩

/-- Where the first halts, so does the second. -/
theorem Halts.pair {s₀ u : σ} {t₀ : τ} (h : Halts code mem s₀ u) (Q F : σ → τ → Prop)
    (hinit : Q s₀ t₀)
    (hstep : ∀ s t, Visits code mem s₀ s → Visits code' mem t₀ t → Q s t →
      (code s).Pair mem Q F (code' t)) :
    ∃ v, Halts code' mem t₀ v ∧ F u v := by
  rcases h with ⟨s, hs, hu⟩
  rcases hs.pair Q hinit hstep with ⟨t, ht, hQ⟩
  rcases (hstep s t hs ht hQ).final hu with ⟨v, hv, hF⟩
  exact ⟨v, ⟨t, ht, hv⟩, hF⟩

end

theorem Visits.trans {s t u : σ} (h : Visits code mem s t) (h' : Visits code mem t u) :
    Visits code mem s u := by
  rcases h with ⟨m, hm⟩
  rcases h' with ⟨n, hn⟩
  exact ⟨m + n, by rw [after_add, hm]; exact hn⟩

/-- What is visited before the end is visited on the way to it. -/
theorem Halts.of_visits {s t u : σ} (h : Halts code mem s u) (ht : Visits code mem s t) :
    Halts code mem t u := by
  rcases h with ⟨e, ⟨n, hn⟩, hu⟩
  rcases ht with ⟨m, hm⟩
  have hend := ((code e).next_eq_none_iff).mpr ⟨u, hu⟩
  have hle : m ≤ n := by
    by_contra hlt
    rw [after_end hn hend (by omega)] at hm
    cases hm
  obtain ⟨k, rfl⟩ : ∃ k, n = m + k := ⟨n - m, by omega⟩
  rw [after_add, hm] at hn
  exact ⟨e, ⟨k, hn⟩, hu⟩

/-- A program halts in one state only. -/
theorem Halts.unique {s u v : σ} (h : Halts code mem s u) (h' : Halts code mem s v) : u = v := by
  rcases h with ⟨e, he, hu⟩
  rcases h'.of_visits he with ⟨f, ⟨n, hn⟩, hv⟩
  have hend := ((code e).next_eq_none_iff).mpr ⟨u, hu⟩
  cases n with
  | zero =>
    obtain rfl : e = f := by simpa [after] using hn
    exact Option.some.inj (hu.symm.trans hv)
  | succ n => simp [after, hend] at hn

/-- A program ends if it halts in some state. -/
theorem ends_iff_halts {s : σ} : Ends code mem s ↔ ∃ u, Halts code mem s u := by
  constructor
  · rintro ⟨t, ht, hnone⟩
    rcases ((code t).next_eq_none_iff).mp hnone with ⟨u, hu⟩
    exact ⟨u, t, ht, hu⟩
  · rintro ⟨u, t, ht, hu⟩
    exact ⟨t, ht, ((code t).next_eq_none_iff).mpr ⟨u, hu⟩⟩

/-- What a run of bounded length has been checked for holds of every state. -/
theorem visits_of_checkRun {p : σ → Bool} {n : ℕ} {s : σ} (h : checkRun code mem p n s = true) :
    ∀ t, Visits code mem s t → p t = true := by
  rintro t ⟨k, hk⟩
  induction n generalizing s k with
  | zero => simp [checkRun] at h
  | succ n ih =>
    simp only [checkRun, Bool.and_eq_true] at h
    cases k with
    | zero =>
      obtain rfl : s = t := by simpa [after] using hk
      exact h.1
    | succ k =>
      cases hnext : (code s).next mem with
      | none => simp [after, hnext] at hk
      | some s' =>
        simp only [after, hnext] at hk h
        exact ih h.2 k hk

/-! ## What happens between two states -/

variable (code mem) in
/-- `t` comes after `s`, and `P` holds of every state between them. -/
inductive Via (P : σ → Prop) (s : σ) : σ → Prop
  | next {t : σ} (h : (code s).next mem = some t) : Via P s t
  | step {t u : σ} (h : Via P s t) (ht : P t) (hu : (code t).next mem = some u) : Via P s u

variable {B : σ → Prop}

theorem Via.visits {s t : σ} (h : Via code mem B s t) : Visits code mem s t := by
  induction h with
  | next h => exact (Visits.refl s).step h
  | step _ _ hu ih => exact ih.step hu

/-- What holds after the first jump and is kept by every state between holds at the end. -/
theorem Via.invariant {s t : σ} (h : Via code mem B s t) (inv : σ → Prop)
    (hinit : ∀ u, (code s).next mem = some u → inv u)
    (hstep : ∀ u v, Visits code mem s u → B u → inv u → (code u).next mem = some v → inv v) :
    inv t := by
  induction h with
  | next h => exact hinit _ h
  | step h ht hu ih => exact hstep _ _ h.visits ht ih hu

theorem Via.mono {B' : σ → Prop} {s t : σ} (h : Via code mem B s t) (hB : ∀ u, B u → B' u) :
    Via code mem B' s t := by
  induction h with
  | next h => exact .next h
  | step _ ht hu ih => exact .step ih (hB _ ht) hu

theorem Via.head {s t u : σ} (hs : (code s).next mem = some t) (ht : B t)
    (h : Via code mem B t u) : Via code mem B s u := by
  induction h with
  | next h => exact .step (.next hs) ht h
  | step _ hu hv ih => exact .step ih hu hv

/-- A state found by running the program, with a check of the states between. -/
theorem exists_via {p q : σ → Bool} {n : ℕ} {s : σ} (h : checkVia code mem p q n s = true) :
    ∃ t, Via code mem (fun u => p u = true) s t ∧ q t = true := by
  induction n generalizing s with
  | zero =>
    obtain ⟨t, ht, hq⟩ := (Option.any_eq_true _ _).mp h
    exact ⟨t, .next ht, hq⟩
  | succ n ih =>
    obtain ⟨t, ht, hpq⟩ := (Option.any_eq_true _ _).mp h
    obtain ⟨hp, hrest⟩ := (Bool.and_eq_true _ _).mp hpq
    obtain ⟨u, hu, hq⟩ := ih hrest
    exact ⟨u, hu.head ht hp, hq⟩

/-- Of the states where `Q` holds, if there are any before `t`, one is the last. -/
theorem Visits.last {s t : σ} (h : Visits code mem s t) (Q : σ → Prop) (hne : t ≠ s) :
    Via code mem (fun u => ¬ Q u) s t ∨
      ∃ b, Visits code mem s b ∧ Q b ∧ Via code mem (fun u => ¬ Q u) b t := by
  suffices hmain : t = s ∨ Via code mem (fun u => ¬ Q u) s t ∨
      ∃ b, Visits code mem s b ∧ Q b ∧ Via code mem (fun u => ¬ Q u) b t from
    hmain.resolve_left hne
  refine visits_induction (fun t => t = s ∨ Via code mem (fun u => ¬ Q u) s t ∨
    ∃ b, Visits code mem s b ∧ Q b ∧ Via code mem (fun u => ¬ Q u) b t) (.inl rfl) ?_ t h
  intro u v hu ih hnext
  by_cases hQ : Q u
  · exact .inr (.inr ⟨u, hu, hQ, .next hnext⟩)
  · rcases ih with rfl | hvia | ⟨b, hb, hQb, hvia⟩
    · exact .inr (.inl (.next hnext))
    · exact .inr (.inl (.step hvia hQ hnext))
    · exact .inr (.inr ⟨b, hb, hQb, .step hvia hQ hnext⟩)

/-! ## Confinement -/

variable {R : P → Prop} {U : T → Prop}

/-- A run is confined if each of its stretches is. -/
theorem confined_of_sat {Q : σ → Prop} {s₀ : σ} (hinit : Q s₀)
    (hstep : ∀ s, Visits code mem s₀ s → Q s → (code s).Sat mem R U Q) :
    Confined code mem R U s₀ := by
  intro t ht
  have hQ : Q t :=
    visits_induction Q hinit (fun s s' hs hQ hnext => (hstep s hs hQ).next hnext) t ht
  rcases Act.sat_iff.mp (hstep t ht hQ) with ⟨hreads, htouches, -⟩
  exact ⟨hreads, htouches⟩

/-- A confined run is confined from its next state on. -/
theorem Confined.sat {s : σ} (h : Confined code mem R U s) :
    (code s).Sat mem R U (Confined code mem R U) :=
  Act.sat_iff.mpr ⟨(h s (Visits.refl s)).1, (h s (Visits.refl s)).2,
    fun _ hnext t ht => h t (ht.head hnext)⟩

/-! ## Termination -/

/-- A program ends if a rank falls at every jump it makes. -/
theorem ends_of_rank {α : Type} [Preorder α] [WellFoundedLT α] (rank : σ → α) {s₀ : σ}
    (hfall : ∀ s s', Visits code mem s₀ s → (code s).next mem = some s' → rank s' < rank s) :
    Ends code mem s₀ := by
  suffices hmain : ∀ s, Visits code mem s₀ s → Ends code mem s from hmain s₀ (Visits.refl s₀)
  intro s
  induction s using (InvImage.wf rank wellFounded_lt).induction with
  | _ s ih =>
    intro hv
    cases hnext : (code s).next mem with
    | none => exact ⟨s, Visits.refl s, hnext⟩
    | some s' => exact (ih s' (hfall s s' hv hnext) (hv.step hnext)).head hnext

variable (code mem) in
/-- A goal is reached if a rank falls at every jump that is made before it. -/
theorem exists_via_of_rank (inv goal : σ → Prop) (rank : σ → ℕ)
    (hstep : ∀ s, inv s → ¬ goal s →
      ∃ t, (code s).next mem = some t ∧ inv t ∧ rank t < rank s)
    {s : σ} (hs : inv s) (hgoal : ¬ goal s) :
    ∃ t, Via code mem (fun u => ¬ goal u) s t ∧ inv t ∧ goal t := by
  induction hn : rank s using Nat.strongRecOn generalizing s with
  | _ n ih =>
    obtain ⟨t, ht, hinv, hlt⟩ := hstep s hs hgoal
    by_cases hg : goal t
    · exact ⟨t, .next ht, hinv, hg⟩
    · obtain ⟨u, hu, hlast⟩ := ih (rank t) (hn ▸ hlt) hinv hg rfl
      exact ⟨u, hu.head ht hg, hlast⟩

theorem Ends.tail {s t : σ} (ht : (code s).next mem = some t) (h : Ends code mem s) :
    Ends code mem t := by
  rcases h with ⟨u, ⟨n, hn⟩, hnone⟩
  cases n with
  | zero =>
    obtain rfl : s = u := by simpa [after] using hn
    rw [ht] at hnone
    cases hnone
  | succ n =>
    simp only [after, ht] at hn
    exact ⟨u, ⟨n, hn⟩, hnone⟩

/-- A program does not end if it gets into a set of states that it cannot leave. -/
theorem not_ends_of_trap (trap : σ → Prop)
    (hstay : ∀ s, trap s → ∃ s', (code s).next mem = some s' ∧ trap s')
    {s₀ s : σ} (hs : Visits code mem s₀ s) (htrap : trap s) : ¬ Ends code mem s₀ := by
  intro hends
  -- the program would also end from inside the trap
  have hinside : Ends code mem s :=
    visits_induction (Ends code mem) hends (fun _ _ _ h hnext => h.tail hnext) s hs
  rcases hinside with ⟨t, ht, hnone⟩
  obtain ⟨t', hnext, -⟩ := hstay t <| visits_induction trap htrap
    (fun u u' _ hu hnext => by
      rcases hstay u hu with ⟨v, hv, htv⟩
      rw [hv] at hnext
      cases hnext
      exact htv) t ht
  rw [hnext] at hnone
  cases hnone

end Goto

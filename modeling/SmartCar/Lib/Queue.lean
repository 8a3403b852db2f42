import Mathlib.Tactic.Common

/-!
# Bounded queues

A first-in first-out queue with room for `cap` elements. The bound is a field,
so a queue that holds more cannot be built; an element pushed into a full queue
is dropped.
-/

/-- A queue of at most `cap` elements, the oldest first. -/
structure Queue (α : Type*) (cap : ℕ) where
  items : List α
  le_cap : items.length ≤ cap

namespace Queue

variable {α : Type*} {cap : ℕ}

/-- The queue with nothing in it. -/
def empty : Queue α cap := ⟨[], Nat.zero_le _⟩

/-- How many elements the queue holds. -/
def used (q : Queue α cap) : ℕ := q.items.length

theorem length_concat_le {q : Queue α cap} (h : q.items.length < cap) (a : α) :
    (q.items ++ [a]).length ≤ cap := by
  rw [List.length_append, List.length_singleton]
  exact h

/-- Append `a`, unless the queue is full. -/
def push (q : Queue α cap) (a : α) : Queue α cap :=
  if h : q.items.length < cap then ⟨q.items ++ [a], length_concat_le h a⟩ else q

/-- The `n` oldest elements, or all of them if there are fewer. -/
def front (q : Queue α cap) (n : ℕ) : List α := q.items.take n

/-- Release the `n` oldest elements. -/
def drop (q : Queue α cap) (n : ℕ) : Queue α cap :=
  ⟨q.items.drop n, by have := q.le_cap; simp; omega⟩

@[simp] theorem items_empty : (empty : Queue α cap).items = [] := rfl

theorem items_push_of_lt {q : Queue α cap} (h : q.used < cap) (a : α) :
    (q.push a).items = q.items ++ [a] := by
  have h' : q.items.length < cap := h
  simp [push, h']

theorem push_of_full {q : Queue α cap} (h : ¬ q.used < cap) (a : α) : q.push a = q := by
  have h' : ¬ q.items.length < cap := h
  simp [push, h']

theorem used_push (q : Queue α cap) (a : α) : (q.push a).used = min cap (q.used + 1) := by
  by_cases h : q.used < cap
  · have hlen : (q.push a).used = q.used + 1 := by simp [used, items_push_of_lt h]
    omega
  · -- a full queue stays as it is
    have hcap : q.used ≤ cap := q.le_cap
    rw [push_of_full h]
    omega

/-- Pushing a list: what does not fit is dropped. -/
theorem used_foldl_push (q : Queue α cap) (as : List α) :
    (as.foldl push q).used = min cap (q.used + as.length) := by
  induction as generalizing q with
  | nil =>
    have hcap : q.used ≤ cap := q.le_cap
    simp [hcap]
  | cons a as ih =>
    rw [List.foldl_cons, ih, used_push, List.length_cons]
    omega

/-- Pushing a list: the first elements are stored, as far as there is room. -/
theorem items_foldl_push_take (q : Queue α cap) (as : List α) :
    (as.foldl push q).items = q.items ++ as.take (cap - q.used) := by
  induction as generalizing q with
  | nil => simp
  | cons a as ih =>
    rw [List.foldl_cons, ih]
    by_cases hroom : q.used < cap
    · have hused : cap - q.used = cap - (q.push a).used + 1 := by
        rw [used_push]
        omega
      rw [items_push_of_lt hroom, hused, List.take_succ_cons, List.append_assoc]
      rfl
    · have hzero : cap - q.used = 0 := by omega
      rw [push_of_full hroom, hzero, List.take_zero, List.take_zero]

/-- Pushing a list that fits: nothing is dropped. -/
theorem items_foldl_push {q : Queue α cap} {as : List α} (h : q.used + as.length ≤ cap) :
    (as.foldl push q).items = q.items ++ as := by
  rw [items_foldl_push_take, List.take_of_length_le (by omega)]

@[simp] theorem items_drop (q : Queue α cap) (n : ℕ) : (q.drop n).items = q.items.drop n := rfl

theorem used_drop (q : Queue α cap) (n : ℕ) : (q.drop n).used = q.used - n := by
  simp [used]

@[simp] theorem used_empty : (empty : Queue α cap).used = 0 := rfl

@[simp] theorem front_used (q : Queue α cap) : q.front q.used = q.items := by
  simp [front, used]

@[simp] theorem drop_used (q : Queue α cap) : q.drop q.used = empty := by
  simp [drop, used, empty]

end Queue

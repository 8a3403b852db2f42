import Mathlib.Data.List.Induction
import Mathlib.Tactic.Common

/-!
# Delimited frames in a stream

A stream over `α` carries frames between a `head` and a `tail` delimiter.
`openFrame` is what a receiver that loses nothing would hold: the elements since
the most recent head, provided no tail has come since. `openFrame_eq_some` reads
it back as a statement about the stream.
-/

namespace Framing

variable {α : Type*} [DecidableEq α] (head tail : α)

/-- One element of the stream: a head opens a fresh frame, a tail closes the
frame, anything else extends the frame that is open. -/
def feed (frame : Option (List α)) (b : α) : Option (List α) :=
  if b = head then some []
  else if b = tail then none
  else frame.map (· ++ [b])

/-- The frame that is open at the end of the stream, if one is. -/
def openFrame (bs : List α) : Option (List α) := bs.foldl (feed head tail) none

@[simp] theorem openFrame_nil : openFrame head tail ([] : List α) = none := rfl

@[simp] theorem openFrame_concat (bs : List α) (b : α) :
    openFrame head tail (bs ++ [b]) = feed head tail (openFrame head tail bs) b := by
  simp [openFrame]

@[simp] theorem feed_head (frame : Option (List α)) : feed head tail frame head = some [] := by
  simp [feed]

theorem feed_tail (hne : head ≠ tail) (frame : Option (List α)) :
    feed head tail frame tail = none := by
  simp [feed, hne.symm]

theorem feed_plain {b : α} (hh : b ≠ head) (ht : b ≠ tail) (frame : Option (List α)) :
    feed head tail frame b = frame.map (· ++ [b]) := by
  simp [feed, hh, ht]

/-- What is open after one more element: a fresh frame, or the one that was open
and that element. -/
theorem openFrame_concat_eq_some (hne : head ≠ tail) {bs q : List α} {b : α}
    (h : openFrame head tail (bs ++ [b]) = some q) :
    b = head ∧ q = [] ∨
      b ≠ head ∧ b ≠ tail ∧ ∃ p, openFrame head tail bs = some p ∧ q = p ++ [b] := by
  rw [openFrame_concat] at h
  by_cases hh : b = head
  · subst hh
    rw [feed_head, Option.some.injEq] at h
    exact .inl ⟨rfl, h.symm⟩
  · have ht : b ≠ tail := by
      rintro rfl
      simp [feed_tail head b hne] at h
    rw [feed_plain head tail hh ht, Option.map_eq_some_iff] at h
    rcases h with ⟨p, hp, rfl⟩
    exact .inr ⟨hh, ht, p, hp, rfl⟩

/-- A frame `p` is open iff the stream ends in a head followed by `p`, and `p`
holds no delimiter. -/
theorem openFrame_eq_some {bs p : List α} :
    openFrame head tail bs = some p ↔
      ∃ before, bs = before ++ head :: p ∧ head ∉ p ∧ tail ∉ p := by
  induction bs using List.reverseRecOn generalizing p with
  | nil => simp
  | append_singleton bs b ih =>
    rw [openFrame_concat]
    constructor
    · intro h
      by_cases hh : b = head
      · -- the head has just come: the frame is empty
        subst hh
        simp only [feed_head, Option.some.injEq] at h
        exact ⟨bs, by simp [← h], by simp [← h], by simp [← h]⟩
      · by_cases ht : b = tail
        · -- after a tail no frame is open
          subst ht
          simp [feed_tail head b (Ne.symm hh)] at h
        · -- anything else has been added to a frame that was open
          rw [feed_plain head tail hh ht, Option.map_eq_some_iff] at h
          rcases h with ⟨q, hq, rfl⟩
          rcases ih.mp hq with ⟨before, rfl, hhead, htail⟩
          exact ⟨before, by simp, by simp [hhead, Ne.symm hh], by simp [htail, Ne.symm ht]⟩
    · rintro ⟨before, heq, hhead, htail⟩
      rcases List.eq_nil_or_concat p with rfl | ⟨q, c, rfl⟩
      · -- an empty frame: the stream ends in its head
        rcases List.append_inj' heq rfl with ⟨-, hb⟩
        simp only [List.cons.injEq, and_true] at hb
        simp [hb]
      · -- the stream ends in the last element of the frame
        rw [List.concat_eq_append] at heq hhead htail ⊢
        rw [← List.cons_append, ← List.append_assoc] at heq
        rcases List.append_inj' heq rfl with ⟨hbs, hb⟩
        simp only [List.cons.injEq, and_true] at hb
        subst hb
        simp only [List.mem_append, List.mem_singleton, not_or] at hhead htail
        rw [feed_plain head tail (Ne.symm hhead.2) (Ne.symm htail.2),
          ih.mpr ⟨before, hbs, hhead.1, htail.1⟩]
        rfl

end Framing

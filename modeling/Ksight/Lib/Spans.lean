/-
  Ksight.Lib.Spans — spans of time and their sum, in readings of a 64-bit clock.

  A program that stores the reading at the start of a span and adds the difference at its
  end keeps the sum of the spans, if it is their own starts that it finds again
  (`add_length_eq_iff`). Where there are several sums, a step that adds to one of them concerns
  no other (`totals_update_iff`).
-/

import Mathlib.Data.UInt
import Mathlib.Logic.Function.Basic

namespace Ksight.Lib

structure Span where
  start : UInt64
  stop : UInt64
  deriving DecidableEq

def Span.length (s : Span) : UInt64 := s.stop - s.start

def totalLength (spans : List Span) : UInt64 := (spans.map Span.length).sum

@[simp] theorem totalLength_nil : totalLength [] = 0 := rfl

@[simp] theorem totalLength_cons (s : Span) (spans : List Span) :
    totalLength (s :: spans) = s.length + totalLength spans := List.sum_cons

theorem totalLength_append (spans spans' : List Span) :
    totalLength (spans ++ spans') = totalLength spans + totalLength spans' := by
  simp [totalLength]

/-- To add the time since `v` is to add the span, if and only if the span starts at `v`. -/
theorem add_length_eq_iff {t v : UInt64} {s : Span} : t + (s.stop - v) = s.length + t ↔ v = s.start := by
  rw [UInt64.add_comm, Span.length, UInt64.add_left_inj, UInt64.sub_right_inj]

section
variable {κ : Type*} [DecidableEq κ] {total total' : κ → UInt64} {done : κ → List Span}

/-- After an addition to one total all are still right if and only if what was added is the
    length of the spans that have ended. -/
theorem totals_update_iff (h : ∀ j, total j = totalLength (done j)) {k : κ} {delta : UInt64} (spans : List Span)
    (htotal : ∀ j, total' j = if j = k then total j + delta else total j) :
    (∀ j, total' j = totalLength (Function.update done k (spans ++ done k) j)) ↔
      total k + delta = totalLength spans + total k := by
  have hdone : totalLength (spans ++ done k) = totalLength spans + total k := by
    rw [totalLength_append, h k]
  constructor
  · intro hright
    have hk := hright k
    rwa [htotal, if_pos rfl, Function.update_self, hdone] at hk
  · intro hsum j
    rw [htotal]
    by_cases hj : j = k
    · subst j
      rw [if_pos rfl, Function.update_self, hdone, hsum]
    · rw [if_neg hj, Function.update_of_ne hj]
      exact h j

end

end Ksight.Lib

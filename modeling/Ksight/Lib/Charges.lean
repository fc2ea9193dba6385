/-
  Ksight.Lib.Charges — amounts that are charged to keys, and books that keep the sums.

  A charge names a key and an amount other than 0, or nothing. A program that keeps a book
  adds to the entry of one key at a time. What it should have added is a list of charges, and
  its book is right if each entry is the sum of the charges to its key (`totalOf`). A step
  keeps a right book right if and only if what it adds is what is due (`right_cons_iff`): to
  add the amount to another key, or another amount, or nothing, shows in one of the entries.
-/

import Mathlib.Algebra.BigOperators.Group.List.Basic

namespace Ksight.Lib

variable {κ M : Type*} [DecidableEq κ]

section
variable [AddCommGroup M]

/-- What a charge adds to the entry of `j`. -/
def share : Option (κ × M) → κ → M
  | none, _ => 0
  | some (k, a), j => if j = k then a else 0

def totalOf (charges : List (Option (κ × M))) (j : κ) : M := (charges.map (share · j)).sum

@[simp] theorem share_none (j : κ) : share (none : Option (κ × M)) j = 0 := rfl

@[simp] theorem share_self (k : κ) (a : M) : share (some (k, a)) k = a := if_pos rfl

theorem share_ne {j k : κ} (h : j ≠ k) (a : M) : share (some (k, a)) j = 0 := if_neg h

@[simp] theorem totalOf_nil (j : κ) : totalOf ([] : List (Option (κ × M))) j = 0 := rfl

@[simp] theorem totalOf_cons (c : Option (κ × M)) (cs : List (Option (κ × M))) (j : κ) :
    totalOf (c :: cs) j = share c j + totalOf cs j := List.sum_cons

/-- Charges that are not 0 are told apart by what they add. -/
theorem share_injective {c c' : Option (κ × M)} (hc : ∀ x ∈ c, x.2 ≠ 0) (hc' : ∀ x ∈ c', x.2 ≠ 0)
    (h : ∀ j, share c j = share c' j) : c = c' := by
  rcases c with _ | ⟨k, a⟩ <;> rcases c' with _ | ⟨k', a'⟩
  · rfl
  · have := h k'
    rw [share_none, share_self] at this
    exact absurd this.symm (hc' _ rfl)
  · have := h k
    rw [share_none, share_self] at this
    exact absurd this (hc _ rfl)
  · have hk : k = k' := by
      by_contra hne
      have := h k
      rw [share_self, share_ne hne] at this
      exact hc _ rfl this
    subst k'
    have := h k
    rw [share_self, share_self] at this
    rw [this]

/-- The book after one more step: right if and only if the step has added what was due. -/
theorem right_cons_iff {book book' : κ → M} {charges : List (Option (κ × M))} {added due : Option (κ × M)}
    (h : ∀ j, book j = totalOf charges j) (hadd : ∀ j, book' j = book j + share added j)
    (hadded : ∀ x ∈ added, x.2 ≠ 0) (hdue : ∀ x ∈ due, x.2 ≠ 0) :
    (∀ j, book' j = totalOf (due :: charges) j) ↔ added = due := by
  have hiff : ∀ j, book' j = totalOf (due :: charges) j ↔ share added j = share due j := fun j => by
    rw [hadd, totalOf_cons, h, add_comm, add_left_inj]
  constructor
  · intro hright
    exact share_injective hadded hdue fun j => (hiff j).mp (hright j)
  · rintro rfl j
    exact (hiff j).mpr rfl

end

end Ksight.Lib

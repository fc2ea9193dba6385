/-
  Ksight.Lib.Boundary — the two binary searches for where a test that holds of a first part of
  the positions below `n` stops holding.

  `partitionPoint` keeps a start and a length and finds the first position of which the test
  does not hold (as `std::upper_bound` does); `lastHolding` keeps two ends, rounds the middle
  up, and finds the last position of which it does, if there is one.

  `IsBoundary p n b` says that the test holds of the positions below `b` and of no other below
  `n`.

  - `partitionPoint_eq`, `lastHolding_eq`: both find the boundary, the second one as the position
    before it.
-/

import Mathlib.Order.Basic

namespace Ksight.Lib

/-- The first of the `len` positions from `first` on of which `p` does not hold. -/
def partitionPoint (p : Nat → Bool) (first len : Nat) : Nat :=
  if len = 0 then first
  else
    let half := len / 2
    if p (first + half) then partitionPoint p (first + half + 1) (len - half - 1)
    else partitionPoint p first half
termination_by len
decreasing_by all_goals omega

/-- `start` and `stop` close in on the last position of which `p` holds. -/
def narrow (p : Nat → Bool) (start stop : Nat) : Nat :=
  if start < stop then
    let mid := start + (stop - start + 1) / 2
    if p mid then narrow p mid stop else narrow p start (mid - 1)
  else start
termination_by stop - start
decreasing_by all_goals omega

/-- The search among `n` positions; the last of them is -1 if there is none. -/
def lastHolding (p : Nat → Bool) (n : Nat) : Option Nat :=
  if n = 0 then none
  else if p (narrow p 0 (n - 1)) then some (narrow p 0 (n - 1)) else none

structure IsBoundary (p : Nat → Bool) (n b : Nat) : Prop where
  le : b ≤ n
  below : ∀ i < b, p i = true
  above : ∀ i, b ≤ i → i < n → p i = false

variable {p : Nat → Bool} {n b : Nat}

theorem IsBoundary.holds_iff (h : IsBoundary p n b) {i : Nat} (hi : i < n) : p i = true ↔ i < b := by
  refine ⟨fun hp => ?_, h.below i⟩
  by_contra hle
  rw [h.above i (Nat.not_lt.mp hle) hi] at hp
  cases hp

/-- The boundary stays among the positions that are left. -/
theorem partitionPoint_of_between (h : IsBoundary p n b) {first len : Nat} (hf : first ≤ b) (hb : b ≤ first + len)
    (hn : first + len ≤ n) : partitionPoint p first len = b := by
  fun_induction partitionPoint p first len with
  | case1 first => omega
  | case2 first len hlen half hp ih =>
    have hmid : first + half < b := (h.holds_iff (by omega)).mp hp
    exact ih (by omega) (by omega) (by omega)
  | case3 first len hlen half hp ih =>
    have hmid : ¬ first + half < b := fun hlt => hp (h.below _ hlt)
    exact ih (by omega) (by omega) (by omega)

theorem partitionPoint_eq (h : IsBoundary p n b) : partitionPoint p 0 n = b :=
  partitionPoint_of_between h (Nat.zero_le b) (by have := h.le; omega) (by omega)

theorem narrow_of_between (h : IsBoundary p n b) {start stop : Nat} (hs : start < b) (hb : b ≤ stop + 1)
    (hn : stop < n) : narrow p start stop = b - 1 := by
  fun_induction narrow p start stop with
  | case1 start stop hlt mid hp ih =>
    have hmid : mid < b := (h.holds_iff (by omega)).mp hp
    exact ih hmid hb hn
  | case2 start stop hlt mid hp ih =>
    have hmid : ¬ mid < b := fun hlt => hp (h.below _ hlt)
    exact ih hs (by omega) (by omega)
  | case3 start stop hge => omega

/-- Where the test holds of no position the search ends at the first one. -/
theorem narrow_of_none (h : IsBoundary p n 0) {start stop : Nat} (hs : start ≤ stop) (hn : stop < n) :
    narrow p start stop < n := by
  fun_induction narrow p start stop with
  | case1 start stop hlt mid hp ih =>
    exact absurd ((h.holds_iff (by omega)).mp hp) (Nat.not_lt_zero _)
  | case2 start stop hlt mid hp ih => exact ih (by omega) (by omega)
  | case3 start stop hge => omega

theorem lastHolding_eq (h : IsBoundary p n b) : lastHolding p n = if b = 0 then none else some (b - 1) := by
  have hle := h.le
  unfold lastHolding
  by_cases hn : n = 0
  · rw [if_pos hn, if_pos (by omega)]
  · rw [if_neg hn]
    by_cases hb : b = 0
    · subst hb
      have hlt := narrow_of_none h (Nat.zero_le (n - 1)) (by omega)
      rw [if_neg (by rw [h.above _ (Nat.zero_le _) hlt]; exact Bool.false_ne_true), if_pos rfl]
    · rw [narrow_of_between h (Nat.pos_of_ne_zero hb) (by omega) (by omega), if_pos (h.below _ (by omega)),
        if_neg hb]

end Ksight.Lib

/-
  Ksight.Lib.Ring — a ring buffer of `n` cells with a head and a tail index, one cell
  kept free, as a bounded first-in first-out queue.

  `contents` is the queue the cells stand for, oldest first. On indices below `n`
  (`WF`) a push that finds room appends to it and a push on `n - 1` elements is
  refused, a pop takes its head and a pop is refused exactly when it is empty; neither
  leaves `WF`.
-/

import Mathlib.Data.List.Basic

namespace Ksight.Lib

structure Ring (α : Type*) where
  cell : Nat → α
  head : Nat
  tail : Nat

namespace Ring

variable {α : Type*} (n : Nat)

def isEmpty (r : Ring α) : Bool := r.head == r.tail

def isFull (r : Ring α) : Bool := (r.tail + 1) % n == r.head

def push (r : Ring α) (x : α) : Option (Ring α) :=
  if r.isFull n || decide (n ≤ r.tail) then none
  else some { r with cell := Function.update r.cell r.tail x, tail := (r.tail + 1) % n }

def pop (r : Ring α) : Option (α × Ring α) :=
  if r.isEmpty || decide (n ≤ r.head) then none
  else some (r.cell r.head, { r with head := (r.head + 1) % n })

def WF (r : Ring α) : Prop := r.head < n ∧ r.tail < n

def size (r : Ring α) : Nat := (r.tail + n - r.head) % n

/-- The queued elements, oldest first. -/
def contents (r : Ring α) : List α := (List.range (r.size n)).map fun i => r.cell ((r.head + i) % n)

variable {n}

@[simp] theorem length_contents (r : Ring α) : (r.contents n).length = r.size n := by simp [contents]

theorem size_cases {r : Ring α} (h : r.WF n) :
    (r.head ≤ r.tail ∧ r.size n = r.tail - r.head) ∨ (r.tail < r.head ∧ r.size n = r.tail + n - r.head) := by
  obtain ⟨h1, h2⟩ := h
  unfold size
  rcases Nat.lt_or_ge r.tail r.head with h | h
  · exact .inr ⟨h, Nat.mod_eq_of_lt (by omega)⟩
  · refine .inl ⟨h, ?_⟩
    rw [show r.tail + n - r.head = r.tail - r.head + n by omega, Nat.add_mod_right]
    exact Nat.mod_eq_of_lt (by omega)

theorem succ_mod_cases {i : Nat} (h : i < n) :
    (i + 1 < n ∧ (i + 1) % n = i + 1) ∨ (i + 1 = n ∧ (i + 1) % n = 0) := by
  rcases Nat.lt_or_ge (i + 1) n with h' | h'
  · exact .inl ⟨h', Nat.mod_eq_of_lt h'⟩
  · have : i + 1 = n := by omega
    exact .inr ⟨this, by rw [this, Nat.mod_self]⟩

theorem isFull_iff {r : Ring α} (h : r.WF n) : r.isFull n = true ↔ r.size n = n - 1 := by
  have hs := size_cases h
  have ht := succ_mod_cases h.2
  have := h.1
  simp only [isFull, beq_iff_eq]
  omega

theorem isEmpty_iff {r : Ring α} (h : r.WF n) : r.isEmpty = true ↔ r.contents n = [] := by
  have hs := size_cases h
  have := h.1
  rw [← List.length_eq_zero_iff, length_contents]
  simp only [isEmpty, beq_iff_eq]
  omega

/-! ## Push -/

theorem push_eq_none {r : Ring α} (h : r.WF n) (x : α) :
    r.push n x = none ↔ (r.contents n).length = n - 1 := by
  have := h.2
  simp [push, isFull_iff h, show ¬ n ≤ r.tail by omega]

theorem push_wf {r r' : Ring α} {x : α} (h : r.WF n) (hp : r.push n x = some r') : r'.WF n := by
  unfold push at hp
  split at hp
  · cases hp
  · cases hp; exact ⟨h.1, Nat.mod_lt _ (by have := h.1; omega)⟩

theorem contents_push {r r' : Ring α} {x : α} (h : r.WF n) (hp : r.push n x = some r') :
    r'.contents n = r.contents n ++ [x] := by
  have hne : ¬ r.size n = n - 1 := fun e => by
    rw [(push_eq_none h x).mpr (by simpa using e)] at hp; cases hp
  have hs := size_cases h
  have hw := push_wf h hp
  obtain ⟨h1, h2⟩ := h
  unfold push at hp
  split at hp
  · cases hp
  cases hp
  have hsz : Ring.size n { r with cell := Function.update r.cell r.tail x, tail := (r.tail + 1) % n } =
      r.size n + 1 := by
    have hs' := size_cases hw
    simp only at hs'
    rcases succ_mod_cases h2 with ⟨_, e⟩ | ⟨_, e⟩ <;> rw [e] at hs' ⊢ <;> omega
  have hlast : (r.head + r.size n) % n = r.tail := by
    rcases hs with ⟨_, e⟩ | ⟨_, e⟩
    · rw [e, show r.head + (r.tail - r.head) = r.tail by omega]; exact Nat.mod_eq_of_lt h2
    · rw [e, show r.head + (r.tail + n - r.head) = r.tail + n by omega, Nat.add_mod_right]
      exact Nat.mod_eq_of_lt h2
  unfold contents
  rw [hsz, List.range_succ, List.map_append, List.map_singleton]
  simp only [hlast, Function.update_self]
  congr 1
  refine List.map_congr_left fun i hi => Function.update_of_ne ?_ _ _
  -- a queued cell is not the free one at the tail
  have hi := List.mem_range.mp hi
  rcases Nat.lt_or_ge (r.head + i) n with hlt | hge
  · rw [Nat.mod_eq_of_lt hlt]; omega
  · rw [Nat.mod_eq_sub_mod hge, Nat.mod_eq_of_lt (by omega)]; omega

/-! ## Pop -/

theorem pop_eq_none {r : Ring α} (h : r.WF n) : r.pop n = none ↔ r.contents n = [] := by
  have := h.1
  simp [pop, isEmpty_iff h, show ¬ n ≤ r.head by omega]

theorem pop_wf {r r' : Ring α} {x : α} (h : r.WF n) (hp : r.pop n = some (x, r')) : r'.WF n := by
  unfold pop at hp
  split at hp
  · cases hp
  · cases hp; exact ⟨Nat.mod_lt _ (by have := h.1; omega), h.2⟩

theorem contents_pop {r r' : Ring α} {x : α} (h : r.WF n) (hp : r.pop n = some (x, r')) :
    r.contents n = x :: r'.contents n := by
  have hne : r.size n ≠ 0 := fun e => by
    rw [(pop_eq_none h).mpr (List.length_eq_zero_iff.mp (by simpa using e))] at hp; cases hp
  have hs := size_cases h
  have hw := pop_wf h hp
  obtain ⟨h1, h2⟩ := h
  unfold pop at hp
  split at hp
  · cases hp
  cases hp
  have hsz : r.size n = Ring.size n { r with head := (r.head + 1) % n } + 1 := by
    have hs' := size_cases hw
    simp only at hs'
    rcases succ_mod_cases h1 with ⟨_, e⟩ | ⟨_, e⟩ <;> rw [e] at hs' ⊢ <;> omega
  unfold contents
  rw [hsz, List.range_succ_eq_map, List.map_cons, List.map_map]
  congr 1
  · rw [Nat.add_zero, Nat.mod_eq_of_lt h1]
  · apply List.map_congr_left
    intro i _
    simp only [Function.comp_apply, Nat.succ_eq_add_one]
    rw [Nat.mod_add_mod, Nat.add_assoc, Nat.add_comm 1 i]

/-- Popping until the ring is empty takes fewer than `n` pops. -/
theorem length_contents_lt {r : Ring α} (h : r.WF n) : (r.contents n).length < n := by
  have hs := size_cases h
  obtain ⟨h1, h2⟩ := h
  rw [length_contents]
  omega

end Ring

end Ksight.Lib

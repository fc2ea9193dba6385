/-
  Ksight.Lib.Increments — counters that several agents increment without a lock, each of
  them in four accesses: it reads the cell, writes what it has read plus one, and then copies the
  cell onto itself, which is a read and a write again.

  The accesses of different agents come in any order. `landed` is how many increments of a cell
  have been written. A value may be written after others have changed the cell since it was read;
  so an increment may be undone, or come back with a copy that was made before.

  - `le_landed`: in every run a cell has increased by at most the increments that have landed,
    since no agent ever holds a greater value.
  - `eq_landed`: it has increased by exactly as many in every run in which no agent writes a
    cell that another one has read and not written yet (`Alone`).
-/

import Mathlib.Data.Fintype.Basic
import Mathlib.Logic.Function.Basic
import Ksight.Lib.Run

namespace Ksight.Lib.Increments

/-- The next access of an agent inside an increment, with what it has read. -/
inductive Phase where
  | read
  | write (v : Int64)
  | copy
  | store (v : Int64)
  deriving DecidableEq

namespace Phase

/-- The cell after the access, and the access that follows. -/
def next : Phase → Int64 → Int64 × Option Phase
  | read, x => (x, some (write x))
  | write v, _ => (v + 1, some copy)
  | copy, x => (x, some (store x))
  | store v, _ => (v, none)

/-- The value that the agent has read and is about to write from. -/
def pending : Phase → Option Int64
  | write v => some v
  | store v => some v
  | _ => none

/-- The increment lands with this access. -/
def lands : Phase → Nat
  | write _ => 1
  | _ => 0

end Phase

theorem toInt_add_one_le (v : Int64) : (v + 1).toInt ≤ v.toInt + 1 := by
  rw [Int64.toInt_add]
  have h : (1 : Int64).toInt = 1 := by decide
  have hlt := Int64.toInt_lt v
  have hle := Int64.le_toInt v
  rw [h]
  have hs : Int64.size = 18446744073709551616 := rfl
  simp only [Int.bmod]
  omega

theorem next_le {p : Phase} {x : Int64} {n : Int} (hx : x.toInt ≤ n) (hp : ∀ v ∈ p.pending, v.toInt ≤ n) :
    (p.next x).1.toInt ≤ n + p.lands ∧ ∀ q ∈ (p.next x).2, ∀ v ∈ q.pending, v.toInt ≤ n + p.lands := by
  cases p with
  | read =>
    refine ⟨by simpa [Phase.next, Phase.lands] using hx, ?_⟩
    rintro q ⟨⟩ v ⟨⟩
    simpa [Phase.lands] using hx
  | write v =>
    have hv := hp v rfl
    have hone := toInt_add_one_le v
    refine ⟨by simp only [Phase.next, Phase.lands]; omega, ?_⟩
    rintro q ⟨⟩ w ⟨⟩
  | copy =>
    refine ⟨by simpa [Phase.next, Phase.lands] using hx, ?_⟩
    rintro q ⟨⟩ v ⟨⟩
    simpa [Phase.lands] using hx
  | store v =>
    have hv := hp v rfl
    refine ⟨by simpa [Phase.next, Phase.lands] using hv, ?_⟩
    rintro q ⟨⟩

/-- What an agent alone makes of a cell. -/
theorem next_eq {p : Phase} {x : Int64} (hp : ∀ v ∈ p.pending, v = x) :
    (p.next x).1 = x + Int64.ofNat p.lands ∧ ∀ q ∈ (p.next x).2, ∀ v ∈ q.pending, v = (p.next x).1 := by
  cases p with
  | read =>
    refine ⟨(Int64.add_zero x).symm, ?_⟩
    rintro q ⟨⟩ v ⟨⟩
    rfl
  | write v =>
    have hv : v = x := hp v rfl
    subst hv
    refine ⟨rfl, ?_⟩
    rintro q ⟨⟩ w ⟨⟩
  | copy =>
    refine ⟨(Int64.add_zero x).symm, ?_⟩
    rintro q ⟨⟩ v ⟨⟩
    rfl
  | store v =>
    have hv : v = x := hp v rfl
    subst hv
    refine ⟨(Int64.add_zero v).symm, ?_⟩
    rintro q ⟨⟩

/-- A phase that writes from nothing it has read leaves the cell as it is. -/
theorem next_of_not_pending {p : Phase} (h : p.pending = none) (x : Int64) : (p.next x).1 = x ∧ p.lands = 0 := by
  cases p with
  | read => exact ⟨rfl, rfl⟩
  | copy => exact ⟨rfl, rfl⟩
  | write v => cases h
  | store v => cases h

/-! ## The agents -/

variable {κ ι : Type} [DecidableEq κ] [DecidableEq ι]

structure St (κ ι : Type) where
  cells : κ → Int64
  inside : ι → Option (κ × Phase)
  landed : κ → Nat

inductive Ev (κ ι : Type) where
  | begin (i : ι) (k : κ)
  | next (i : ι)

def init (cells : κ → Int64) : St κ ι := ⟨cells, fun _ => none, fun _ => 0⟩

/-- The access of an agent that is at a phase of an increment. -/
def St.access (s : St κ ι) (i : ι) (k : κ) (p : Phase) : St κ ι where
  cells := Function.update s.cells k (p.next (s.cells k)).1
  inside := Function.update s.inside i ((p.next (s.cells k)).2.map (k, ·))
  landed := Function.update s.landed k (s.landed k + p.lands)

def step : Ev κ ι → St κ ι → Option (St κ ι)
  | .begin i k, s =>
    match s.inside i with
    | some _ => none
    | none => some { s with inside := Function.update s.inside i (some (k, .read)) }
  | .next i, s =>
    match s.inside i with
    | none => none
    | some (k, p) => some (s.access i k p)

/-- The condition. -/
def Alone (e : Ev κ ι) (s : St κ ι) : Prop :=
  ∀ i k p, e = .next i → s.inside i = some (k, p) → p.pending ≠ none →
    ∀ j q, j ≠ i → s.inside j = some (k, q) → q.pending = none

omit [DecidableEq κ] [DecidableEq ι] in
theorem alone_next_iff {i : ι} {s : St κ ι} :
    Alone (.next i) s ↔ ∀ x ∈ s.inside i, x.2.pending ≠ none →
      ∀ j, j ≠ i → ∀ y ∈ s.inside j, y.1 = x.1 → y.2.pending = none := by
  constructor
  · rintro h ⟨k, p⟩ hp hpend j hj ⟨_, q⟩ hq rfl
    exact h i _ p rfl hp hpend j q hj hq
  · rintro h _ k p ⟨⟩ hp hpend j q hj hq
    exact h (k, p) hp hpend j hj (k, q) hq rfl

instance [Fintype ι] (s : St κ ι) : ∀ e, Decidable (Alone e s)
  | .begin .. => .isTrue fun _ _ _ he => nomatch he
  | .next _ => decidable_of_iff _ alone_next_iff.symm

/-- No cell, and nothing an agent has read of it, exceeds what has landed. -/
structure Below (cells : κ → Int64) (s : St κ ι) : Prop where
  cell : ∀ k, (s.cells k).toInt ≤ (cells k).toInt + s.landed k
  held : ∀ i k p, s.inside i = some (k, p) → ∀ v ∈ p.pending, v.toInt ≤ (cells k).toInt + s.landed k

/-- Each cell is what has landed, and what an agent has read is still there. -/
structure Exact (cells : κ → Int64) (s : St κ ι) : Prop where
  cell : ∀ k, s.cells k = cells k + Int64.ofNat (s.landed k)
  fresh : ∀ i k p, s.inside i = some (k, p) → ∀ v ∈ p.pending, v = s.cells k

theorem inside_access {s : St κ ι} {i j : ι} {k k' : κ} {p q : Phase}
    (h : (s.access i k p).inside j = some (k', q)) :
    j = i ∧ k' = k ∧ q ∈ (p.next (s.cells k)).2 ∨ j ≠ i ∧ s.inside j = some (k', q) := by
  by_cases hj : j = i
  · subst j
    simp only [St.access, Function.update_self, Option.map_eq_some_iff, Prod.mk.injEq] at h
    obtain ⟨q', hq, rfl, rfl⟩ := h
    exact .inl ⟨rfl, rfl, hq⟩
  · simp only [St.access, Function.update_of_ne hj] at h
    exact .inr ⟨hj, h⟩

omit [DecidableEq κ] in
theorem inside_begin {s : St κ ι} {i j : ι} {k k' : κ} {q : Phase}
    (h : Function.update s.inside i (some (k, .read)) j = some (k', q)) :
    q = .read ∨ s.inside j = some (k', q) := by
  by_cases hj : j = i
  · subst j
    rw [Function.update_self] at h
    cases h
    exact .inl rfl
  · rw [Function.update_of_ne hj] at h
    exact .inr h

theorem Below.step {cells : κ → Int64} {e : Ev κ ι} {s t : St κ ι} (h : Below cells s)
    (hs : Increments.step e s = some t) : Below cells t := by
  cases e with
  | begin i k =>
    simp only [Increments.step] at hs
    split at hs
    · cases hs
    · cases hs
      refine ⟨h.cell, fun j k' q hq v hv => ?_⟩
      rcases inside_begin hq with rfl | hq
      · cases hv
      · exact h.held j k' q hq v hv
  | next i =>
    simp only [Increments.step] at hs
    split at hs
    · cases hs
    · rename_i k p hp
      cases hs
      have hnext := next_le (h.cell k) (h.held i k p hp)
      have hcast : ((s.landed k + p.lands : Nat) : Int) = s.landed k + p.lands := Int.natCast_add _ _
      have hmono : ∀ k', (s.landed k' : Int) ≤ Function.update s.landed k (s.landed k + p.lands) k' := fun k' => by
        by_cases hk : k' = k
        · subst hk
          rw [Function.update_self]
          omega
        · exact Int.le_of_eq (by rw [Function.update_of_ne hk])
      constructor
      · intro k'
        by_cases hk : k' = k
        · subst hk
          simp only [St.access, Function.update_self, hcast]
          omega
        · simp only [St.access, Function.update_of_ne hk]
          exact h.cell k'
      · intro j k' q hq v hv
        rcases inside_access hq with ⟨rfl, rfl, hmem⟩ | ⟨-, hq⟩
        · have := hnext.2 q hmem v hv
          simp only [St.access, Function.update_self, hcast]
          omega
        · have := h.held j k' q hq v hv
          have := hmono k'
          simp only [St.access]
          omega

theorem Exact.step {cells : κ → Int64} {e : Ev κ ι} {s t : St κ ι} (h : Exact cells s) (he : Alone e s)
    (hs : Increments.step e s = some t) : Exact cells t := by
  cases e with
  | begin i k =>
    simp only [Increments.step] at hs
    split at hs
    · cases hs
    · cases hs
      refine ⟨h.cell, fun j k' q hq v hv => ?_⟩
      rcases inside_begin hq with rfl | hq
      · cases hv
      · exact h.fresh j k' q hq v hv
  | next i =>
    simp only [Increments.step] at hs
    split at hs
    · cases hs
    · rename_i k p hp
      cases hs
      have hnext := next_eq (h.fresh i k p hp)
      constructor
      · intro k'
        by_cases hk : k' = k
        · subst hk
          simp only [St.access, Function.update_self]
          rw [hnext.1, h.cell k', Int64.ofNat_add, Int64.add_assoc]
        · simp only [St.access, Function.update_of_ne hk]
          exact h.cell k'
      · intro j k' q hq v hv
        rcases inside_access hq with ⟨rfl, rfl, hmem⟩ | ⟨hj, hother⟩
        · simp only [St.access, Function.update_self]
          exact hnext.2 q hmem v hv
        · by_cases hk : k' = k
          · subst hk
            -- another agent that is about to write from this cell: the mover has not changed it
            have hpend : p.pending = none := by
              by_contra hne
              rw [he i k' p rfl hp hne j q hj hother] at hv
              cases hv
            simp only [St.access, Function.update_self]
            rw [(next_of_not_pending hpend _).1]
            exact h.fresh j k' q hother v hv
          · simp only [St.access, Function.update_of_ne hk]
            exact h.fresh j k' q hother v hv

/-- In every run a cell has increased by at most what has landed. -/
theorem le_landed {cells : κ → Int64} {s : St κ ι} (h : Run step anyEvent (init cells) s) (k : κ) :
    (s.cells k).toInt ≤ (cells k).toInt + s.landed k :=
  (h.inv (P := Below cells) ⟨fun _ => by simp [init], fun _ _ _ hi => nomatch hi⟩ fun _ _ _ hi _ hs =>
    hi.step hs).cell k

/-- In every run without overlapping writes it has increased by what has landed. -/
theorem eq_landed {cells : κ → Int64} {s : St κ ι} (h : Run step Alone (init cells) s) (k : κ) :
    s.cells k = cells k + Int64.ofNat (s.landed k) :=
  (h.inv (P := Exact cells) ⟨fun _ => (Int64.add_zero _).symm, fun _ _ _ hi => nomatch hi⟩ fun _ _ _ hi he hs =>
    hi.step he hs).cell k

end Ksight.Lib.Increments

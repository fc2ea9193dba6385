/-
  Ksight.Uringtrace.Counts — what the counters of `globals` say
  (src/net/uringtrace/bpf/uringtrace.bpf.c: `__incr`, `__filter_event`, `__init_event` and the
  handlers).

  `counted` is the number of handlers that have counted themselves in a counter: those that
  are through, by their outcomes, and those on their way that have written their increment.

  - `never_overcounts`: in every run, however the accesses of the handlers fall, no counter is
    above that number. An increment that is written from an old value is lost.
  - `counts_exact`: in every run in which no handler writes a counter that another one has
    read and not written yet (`Alone`) each counter is that number; and when no handler is on
    its way the counters balance (`Balanced`): `total` is `skipped` and `user` together, and
    `user` is `lost` and what was submitted.
  - Two handlers that read `total` at the same time count one event (`two_at_once`).
-/

import Mathlib.Algebra.BigOperators.Group.Finset.Basic
import Mathlib.Algebra.Order.BigOperators.Group.Finset
import Mathlib.Algebra.Ring.Nat
import Mathlib.Data.Fintype.Basic
import Ksight.Uringtrace.Handlers

namespace Ksight.Uringtrace

open Ksight.Lib

/-- The counter that a handler is incrementing. -/
def Pc.counter : Pc → Option Global
  | .total => some .total
  | .skipped => some .skipped
  | .user => some .user
  | .lost => some .lost
  | _ => none

/-- The increments that a handler has behind it. -/
def Pc.behind : Pc → Global → Nat
  | .total, _ => 0
  | .filter _, .total | .skipped, .total | .init, .total | .user, .total => 1
  | .reserve, .total | .reserve, .user | .lost, .total | .lost, .user => 1
  | _, _ => 0

def Outcome.counts : Outcome → Global → Nat
  | _, .total => 1
  | .skipped, .skipped => 1
  | .lost, .user | .submitted, .user => 1
  | .lost, .lost => 1
  | _, _ => 0

/-- Inside an increment: whether it has landed. -/
def landedIn : Option (Global × Increments.Phase) → Global → Nat
  | some (k, .copy), j | some (k, .store _), j => if j = k then 1 else 0
  | _, _ => 0

variable {ι : Type} [DecidableEq ι]

/-- What a context has contributed to a counter with the handler it is in. -/
def St.underway (s : St ι) (k : Global) (i : ι) : Nat :=
  ((s.pc i).elim 0 fun x => x.2.behind k) + landedIn (s.inc.inside i) k

def St.through (s : St ι) (k : Global) : Nat := (s.done.map fun x => x.2.counts k).sum

def counted [Fintype ι] (s : St ι) (k : Global) : Nat := s.through k + ∑ i, s.underway k i

/-- The condition. -/
def Alone (e : Ev ι) (s : St ι) : Prop := ∀ i reserved, e = .next i reserved → Increments.Alone (.next i) s.inc

instance [Fintype ι] (s : St ι) : ∀ e, Decidable (Alone e s)
  | .enter .. => .isTrue fun _ _ he => nomatch he
  | .next i reserved => decidable_of_iff (Increments.Alone (.next i) s.inc)
    ⟨fun h _ _ he => by cases he; exact h, fun h => h i reserved rfl⟩

def Quiet (s : St ι) : Prop := ∀ i, s.pc i = none

instance [Fintype ι] (s : St ι) : Decidable (Quiet s) := inferInstanceAs (Decidable (∀ _, _ = none))

/-- The numbers of handlers, `submitted` that of the events submitted. -/
def Balanced (s : St ι) : Prop :=
  s.inc.cells .total = s.inc.cells .skipped + s.inc.cells .user ∧
    s.inc.cells .user = s.inc.cells .lost + Int64.ofNat (s.done.countP fun x => x.2 = .submitted)

/-! ## One step -/

theorem begin_eq {s t : St ι} {i : ι} {h : Handler} {k : Global} {pc : Pc} (hs : s.begin i h k pc = some t) :
    s.inc.inside i = none ∧ t = { s with
      inc := { s.inc with inside := Function.update s.inc.inside i (some (k, .read)) }
      pc := Function.update s.pc i (some (h, pc)) } := by
  obtain ⟨inc, hinc, rfl⟩ := Option.map_eq_some_iff.mp hs
  simp only [Increments.step] at hinc
  split at hinc
  · cases hinc
  · cases hinc
    exact ⟨‹_›, rfl⟩

/-- An access goes on inside the increment, or ends it, with the handler in front of its next
    step or through. -/
theorem access_cases {s t : St ι} {i : ι} {h : Handler} {pc : Pc} (hs : s.access i h pc = some t) :
    ∃ k p, s.inc.inside i = some (k, p) ∧
      ((∃ q, (p.next (s.inc.cells k)).2 = some q ∧ t = { s with inc := s.inc.access i k p }) ∨
        (∃ pc', (p.next (s.inc.cells k)).2 = none ∧ afterIncrement h pc = some pc' ∧
          t = { s with inc := s.inc.access i k p, pc := Function.update s.pc i (some (h, pc')) }) ∨
        (p.next (s.inc.cells k)).2 = none ∧ afterIncrement h pc = none ∧
          t = ⟨s.inc.access i k p, Function.update s.pc i none, s.done ++ [(h, outcomeAt pc)]⟩) := by
  obtain ⟨inc, hinc, ht⟩ := Option.map_eq_some_iff.mp hs
  simp only [Increments.step] at hinc
  split at hinc
  · cases hinc
  rename_i k p hin
  cases hinc
  refine ⟨k, p, hin, ?_⟩
  have hinside : (s.inc.access i k p).inside i = (p.next (s.inc.cells k)).2.map (k, ·) := by
    simp only [Increments.St.access, Function.update_self]
  rw [hinside] at ht
  rcases hq : (p.next (s.inc.cells k)).2 with _ | q
  · rw [hq] at ht
    rcases hafter : afterIncrement h pc with _ | pc'
    · rw [hafter] at ht
      exact .inr (.inr ⟨rfl, rfl, ht.symm⟩)
    · rw [hafter] at ht
      exact .inr (.inl ⟨pc', rfl, rfl, ht.symm⟩)
  · rw [hq] at ht
    exact .inl ⟨q, rfl, ht.symm⟩

/-- A context is inside the increment that its handler is at. -/
def Consistent (s : St ι) : Prop := ∀ i, (s.inc.inside i).map Prod.fst = (s.pc i).bind fun x => x.2.counter

/-- What a step can do: begin an increment from one of four places, make an access, or go on
    without the counters. -/
theorem step_cases {e : Ev ι} {s t : St ι} (hs : step e s = some t) :
    (∃ i h, s.pc i = none ∧ s.begin i h .total .total = some t) ∨
    (∃ i h req, s.pc i = some (h, .filter req) ∧ filterEvent (s.inc.cells .sampling) req = true ∧
      s.begin i h .skipped .skipped = some t) ∨
    (∃ i h req, s.pc i = some (h, .filter req) ∧ filterEvent (s.inc.cells .sampling) req = false ∧
      t = { s with pc := Function.update s.pc i (some (h, .init)) }) ∨
    (∃ i h, s.pc i = some (h, .init) ∧ s.begin i h .user .user = some t) ∨
    (∃ i h, s.pc i = some (h, .reserve) ∧
      t = { s with pc := Function.update s.pc i none, done := s.done ++ [(h, .submitted)] }) ∨
    (∃ i h, s.pc i = some (h, .reserve) ∧ s.begin i h .lost .lost = some t) ∨
    (∃ i reserved h pc, e = .next i reserved ∧ s.pc i = some (h, pc) ∧ s.access i h pc = some t) := by
  cases e with
  | enter i h =>
    simp only [step] at hs
    split at hs
    · cases hs
    · exact .inl ⟨i, h, ‹_›, hs⟩
  | next i reserved =>
    rw [step] at hs
    rcases hpc : s.pc i with _ | ⟨h, pc⟩ <;> rw [hpc] at hs
    · cases hs
    · cases pc with
      | filter req =>
        by_cases hskip : filterEvent (s.inc.cells .sampling) req = true
        · exact .inr (.inl ⟨i, h, req, hpc, hskip, (if_pos hskip).symm.trans hs⟩)
        · exact .inr (.inr (.inl ⟨i, h, req, hpc, Bool.eq_false_iff.mpr hskip,
            (Option.some.inj ((if_neg hskip).symm.trans hs)).symm⟩))
      | init => exact .inr (.inr (.inr (.inl ⟨i, h, hpc, hs⟩)))
      | reserve =>
        by_cases hres : reserved = true
        · exact .inr (.inr (.inr (.inr (.inl ⟨i, h, hpc, (Option.some.inj ((if_pos hres).symm.trans hs)).symm⟩))))
        · exact .inr (.inr (.inr (.inr (.inr (.inl ⟨i, h, hpc, (if_neg hres).symm.trans hs⟩)))))
      | total => exact .inr (.inr (.inr (.inr (.inr (.inr ⟨i, reserved, h, _, rfl, hpc, hs⟩)))))
      | skipped => exact .inr (.inr (.inr (.inr (.inr (.inr ⟨i, reserved, h, _, rfl, hpc, hs⟩)))))
      | user => exact .inr (.inr (.inr (.inr (.inr (.inr ⟨i, reserved, h, _, rfl, hpc, hs⟩)))))
      | lost => exact .inr (.inr (.inr (.inr (.inr (.inr ⟨i, reserved, h, _, rfl, hpc, hs⟩)))))

/-- A step moves one context, and what it has counted goes with what has landed. -/
structure Moved (s t : St ι) (i : ι) : Prop where
  others : ∀ j, j ≠ i → t.pc j = s.pc j ∧ t.inc.inside j = s.inc.inside j
  counts : ∀ k, t.through k + t.underway k i + s.inc.landed k = s.through k + s.underway k i + t.inc.landed k
  consistent : (t.inc.inside i).map Prod.fst = (t.pc i).bind fun x => x.2.counter

theorem moved_of_begin {s t : St ι} {i : ι} {h : Handler} {k : Global} {pc : Pc}
    (hs : s.begin i h k pc = some t) (hk : pc.counter = some k)
    (hb : ∀ j, ((s.pc i).elim 0 fun x => x.2.behind j) = pc.behind j) : Moved s t i := by
  obtain ⟨hin, rfl⟩ := begin_eq hs
  refine ⟨fun j hj => ⟨Function.update_of_ne hj _ _, Function.update_of_ne hj _ _⟩, fun j => ?_, ?_⟩
  · simp only [St.underway, St.through, Function.update_self, hin, hb, Option.elim_some, landedIn]
  · simp only [Function.update_self, Option.map_some, Option.bind_some, hk]

/-- A handler that goes on without an increment. -/
theorem moved_of_pc {s : St ι} {i : ι} {h : Handler} {old new : Pc} (hold : s.pc i = some (h, old))
    (hin : s.inc.inside i = none) (hb : ∀ j, old.behind j = new.behind j) (hc : new.counter = none) :
    Moved s { s with pc := Function.update s.pc i (some (h, new)) } i := by
  refine ⟨fun j hj => ⟨Function.update_of_ne hj _ _, rfl⟩, fun j => ?_, ?_⟩
  · simp only [St.underway, St.through, Function.update_self, hold, Option.elim_some, hb]
  · simp only [Function.update_self, hin, Option.map_none, Option.bind_some, hc]

omit [DecidableEq ι] in
theorem through_append (s : St ι) (inc : Increments.St Global ι) (pc : ι → Option (Handler × Pc))
    (x : Handler × Outcome) (k : Global) :
    St.through ⟨inc, pc, s.done ++ [x]⟩ k = s.through k + x.2.counts k := by
  simp [St.through]

/-- The increment that an access is in, at the counter of the handler's place. -/
theorem moved_of_access {s t : St ι} (hc : Consistent s) {i : ι} {h : Handler} {pc : Pc}
    (hpc : s.pc i = some (h, pc)) (hs : s.access i h pc = some t) : Moved s t i := by
  obtain ⟨k, p, hin, hcases⟩ := access_cases hs
  have hk : pc.counter = some k := by
    have := hc i
    rw [hin, hpc] at this
    exact this.symm
  have hothers : ∀ j, j ≠ i → (s.inc.access i k p).inside j = s.inc.inside j := fun j hj =>
    Function.update_of_ne hj _ _
  have hself : (s.inc.access i k p).inside i = (p.next (s.inc.cells k)).2.map (k, ·) := Function.update_self ..
  have hlanded : ∀ j, (s.inc.access i k p).landed j = s.inc.landed j + if j = k then p.lands else 0 := by
    intro j
    by_cases hj : j = k
    · subst hj
      simp [Increments.St.access]
    · simp [Increments.St.access, hj]
  rcases hcases with ⟨q, hq, rfl⟩ | ⟨pc', hq, hafter, rfl⟩ | ⟨hq, hafter, rfl⟩
  · refine ⟨fun j hj => ⟨rfl, hothers j hj⟩, fun j => ?_, ?_⟩
    · simp only [St.underway, St.through, hself, hq, hlanded, hin, hpc, Option.map_some, Option.elim_some]
      have hstep : landedIn (some (k, q)) j = landedIn (some (k, p)) j + if j = k then p.lands else 0 := by
        cases p <;> cases hq <;> simp [landedIn, Increments.Phase.lands]
      omega
    · rw [hself, hq, hpc]
      exact hk.symm
  · have hp : ∃ v, p = .store v := by
      cases p <;> first | exact ⟨_, rfl⟩ | cases hq
    obtain ⟨v, rfl⟩ := hp
    refine ⟨fun j hj => ⟨Function.update_of_ne hj _ _, hothers j hj⟩, fun j => ?_, ?_⟩
    · simp only [St.underway, St.through, hself, hq, hlanded, hin, hpc, Option.map_none, Option.elim_some,
        Function.update_self, landedIn, Increments.Phase.lands, ite_self]
      have hbehind : pc'.behind j = pc.behind j + if j = k then 1 else 0 := by
        unfold afterIncrement at hafter
        split at hafter
        · cases hk
          split at hafter
          · cases hafter
            cases j <;> rfl
          · cases hafter
            cases j <;> rfl
        · cases hk
          cases hafter
          cases j <;> rfl
        · cases hafter
      omega
    · simp only [hself, hq, Option.map_none, Function.update_self, Option.bind_some]
      unfold afterIncrement at hafter
      split at hafter
      · split at hafter
        · cases hafter; rfl
        · cases hafter; rfl
      · cases hafter; rfl
      · cases hafter
  · have hp : ∃ v, p = .store v := by
      cases p <;> first | exact ⟨_, rfl⟩ | cases hq
    obtain ⟨v, rfl⟩ := hp
    refine ⟨fun j hj => ⟨Function.update_of_ne hj _ _, hothers j hj⟩, fun j => ?_, ?_⟩
    · have hthrough := through_append s (s.inc.access i k (.store v)) (Function.update s.pc i none) (h, outcomeAt pc) j
      rw [hthrough]
      simp only [St.underway, hself, hq, hlanded, hin, hpc, Option.map_none, Option.elim_some, Option.elim_none,
        Function.update_self, landedIn, Increments.Phase.lands, ite_self]
      have hout : (outcomeAt pc).counts j = pc.behind j + if j = k then 1 else 0 := by
        cases pc with
        | total =>
          simp only [afterIncrement] at hafter
          split at hafter <;> cases hafter
        | user => cases hafter
        | skipped => cases hk; cases j <;> rfl
        | lost => cases hk; cases j <;> rfl
        | filter req => cases hk
        | init => cases hk
        | reserve => cases hk
      omega
    · simp only [hself, hq, Option.map_none, Function.update_self, Option.bind_none]

theorem step_moved {e : Ev ι} {s t : St ι} (hc : Consistent s) (hs : step e s = some t) : ∃ i, Moved s t i := by
  have hinside : ∀ {i h pc}, s.pc i = some (h, pc) → pc.counter = none → s.inc.inside i = none := by
    intro i h pc hpc hcounter
    have := hc i
    rw [hpc, Option.bind_some, hcounter] at this
    exact Option.map_eq_none_iff.mp this
  rcases step_cases hs with ⟨i, h, hpc, hs⟩ | ⟨i, h, req, hpc, -, hs⟩ | ⟨i, h, req, hpc, -, rfl⟩ | ⟨i, h, hpc, hs⟩ |
    ⟨i, h, hpc, rfl⟩ | ⟨i, h, hpc, hs⟩ | ⟨i, reserved, h, pc, -, hpc, hs⟩
  · exact ⟨i, moved_of_begin hs rfl fun j => by rw [hpc]; cases j <;> rfl⟩
  · exact ⟨i, moved_of_begin hs rfl fun j => by rw [hpc]; cases j <;> rfl⟩
  · exact ⟨i, moved_of_pc hpc (hinside hpc rfl) (fun j => by cases j <;> rfl) rfl⟩
  · exact ⟨i, moved_of_begin hs rfl fun j => by rw [hpc]; cases j <;> rfl⟩
  · refine ⟨i, fun j hj => ⟨Function.update_of_ne hj _ _, rfl⟩, fun j => ?_, ?_⟩
    · rw [through_append]
      simp only [St.underway, Function.update_self, hpc, Option.elim_none, Option.elim_some]
      have hout : Outcome.submitted.counts j = Pc.reserve.behind j := by cases j <;> rfl
      omega
    · simp only [Function.update_self, hinside hpc rfl, Option.map_none, Option.bind_none]
  · exact ⟨i, moved_of_begin hs rfl fun j => by rw [hpc]; cases j <;> rfl⟩
  · exact ⟨i, moved_of_access hc hpc hs⟩

/-! ## A run -/

theorem Consistent.step {e : Ev ι} {s t : St ι} (hc : Consistent s) (hs : Uringtrace.step e s = some t) :
    Consistent t := by
  obtain ⟨i, hm⟩ := step_moved hc hs
  intro j
  by_cases hj : j = i
  · subst hj
    exact hm.consistent
  · obtain ⟨hpc, hin⟩ := hm.others j hj
    rw [hpc, hin]
    exact hc j

theorem counted_step [Fintype ι] {e : Ev ι} {s t : St ι} (hc : Consistent s) (hs : step e s = some t) (k : Global) :
    counted t k + s.inc.landed k = counted s k + t.inc.landed k := by
  obtain ⟨i, hm⟩ := step_moved hc hs
  have hrest : ∑ j ∈ Finset.univ.erase i, t.underway k j = ∑ j ∈ Finset.univ.erase i, s.underway k j := by
    refine Finset.sum_congr rfl fun j hj => ?_
    obtain ⟨hpc, hin⟩ := hm.others j (Finset.ne_of_mem_erase hj)
    simp only [St.underway, hpc, hin]
  have ht := Finset.add_sum_erase Finset.univ (t.underway k) (Finset.mem_univ i)
  have hs := Finset.add_sum_erase Finset.univ (s.underway k) (Finset.mem_univ i)
  have hi := hm.counts k
  simp only [counted]
  omega

theorem counted_eq_landed [Fintype ι] {ok : Ev ι → St ι → Prop} {sampling : Int64} {s : St ι}
    (h : Run step ok (init sampling) s) : Consistent s ∧ ∀ k, counted s k = s.inc.landed k := by
  refine Run.inv (P := fun s : St ι => Consistent s ∧ ∀ k, counted s k = s.inc.landed k) h
    ⟨fun i => rfl, fun k => ?_⟩ fun e t u ⟨hc, hk⟩ _ hs => ⟨hc.step hs, fun k => ?_⟩
  · simp [counted, St.through, St.underway, landedIn, init, Increments.init]
  · have := counted_step hc hs k
    have := hk k
    omega

/-- A step leaves the counters alone, or is a step of an increment. -/
theorem inc_step {e : Ev ι} {s t : St ι} (hs : step e s = some t) :
    t.inc = s.inc ∨ ∃ e', (Alone e s → Increments.Alone e' s.inc) ∧ Increments.step e' s.inc = some t.inc := by
  have hbegin : ∀ {i h k pc}, s.begin i h k pc = some t →
      ∃ e', (Alone e s → Increments.Alone e' s.inc) ∧ Increments.step e' s.inc = some t.inc := by
    intro i h k pc hs
    obtain ⟨inc, hinc, rfl⟩ := Option.map_eq_some_iff.mp hs
    exact ⟨.begin i k, fun _ _ _ _ he => (nomatch he), hinc⟩
  rcases step_cases hs with ⟨i, h, -, hs⟩ | ⟨i, h, req, -, -, hs⟩ | ⟨i, h, req, -, -, rfl⟩ | ⟨i, h, -, hs⟩ |
    ⟨i, h, -, rfl⟩ | ⟨i, h, -, hs⟩ | ⟨i, reserved, h, pc, he, -, hs⟩
  · exact .inr (hbegin hs)
  · exact .inr (hbegin hs)
  · exact .inl rfl
  · exact .inr (hbegin hs)
  · exact .inl rfl
  · exact .inr (hbegin hs)
  · obtain ⟨inc, hinc, rfl⟩ := Option.map_eq_some_iff.mp hs
    refine .inr ⟨.next i, fun ha => ha i reserved he, ?_⟩
    rw [hinc]
    congr 1
    split <;> rfl

/-- What a run does to the counters is a run of increments. -/
theorem inc_run {sampling : Int64} {s : St ι} {ok : Ev ι → St ι → Prop}
    {ok' : Increments.Ev Global ι → Increments.St Global ι → Prop} (hok : ∀ e s, ok e s → ∀ e', (Alone e s →
      Increments.Alone e' s.inc) → ok' e' s.inc) (h : Run step ok (init sampling) s) :
    Run Increments.step ok' (init sampling : St ι).inc s.inc := by
  induction h with
  | refl => exact .refl
  | snoc e _ he hs ih =>
    rcases inc_step hs with heq | ⟨e', halone, hs'⟩
    · rw [heq]
      exact ih
    · exact .snoc e' ih (hok _ _ he e' halone) hs'

/-- In every run no counter is above the number of the handlers that have counted themselves in it. -/
theorem never_overcounts [Fintype ι] {sampling : Int64} {s : St ι} (h : Run step anyEvent (init sampling) s)
    {k : Global} (hk : k ≠ .sampling) : (s.inc.cells k).toInt ≤ counted s k := by
  have hrun : Run Increments.step anyEvent _ s.inc := inc_run (fun _ _ _ _ _ => trivial) h
  have hle := Increments.le_landed hrun k
  rw [(counted_eq_landed h).2 k]
  simpa [init, Increments.init, hk] using hle

/-- Two contexts that read `total` at the same time, and both write it. -/
def bothEnter (h : Handler) : List (Ev Bool) :=
  [.enter false h, .enter true h, .next false true, .next true true, .next false true, .next true true]

/-- They count one event. -/
theorem two_at_once : ∃ s : St Bool, Run step anyEvent (init 0) s ∧ (s.inc.cells .total).toInt ≤ counted s .total ∧
    s.inc.cells .total = 1 ∧ counted s .total = 2 := by
  obtain ⟨s, h, hp⟩ := run_of_exec_any step (init 0) (bothEnter handleCreate)
    (fun s => s.inc.cells .total = 1 && counted s .total = 2) (by decide)
  rw [Bool.and_eq_true, decide_eq_true_iff, decide_eq_true_iff] at hp
  exact ⟨s, h, never_overcounts h (by decide), hp⟩

theorem cells_eq_counted [Fintype ι] {sampling : Int64} {s : St ι} (h : Run step Alone (init sampling) s)
    {k : Global} (hk : k ≠ .sampling) : s.inc.cells k = Int64.ofNat (counted s k) := by
  have hrun : Run Increments.step Increments.Alone _ s.inc := inc_run (fun _ _ he _ halone => halone he) h
  have heq := Increments.eq_landed hrun k
  rw [(counted_eq_landed h).2 k, heq, if_neg hk, Int64.zero_add]

/-! ## Between handlers -/

omit [DecidableEq ι] in
theorem counted_of_quiet [Fintype ι] {s : St ι} (hc : Consistent s) (hq : Quiet s) (k : Global) :
    counted s k = s.through k := by
  have hzero : ∀ i, s.underway k i = 0 := by
    intro i
    have hin := hc i
    rw [hq i, Option.bind_none] at hin
    rw [St.underway, hq i, Option.map_eq_none_iff.mp hin]
    rfl
  simp [counted, hzero]

/-- Every event is skipped or goes to the user side. -/
theorem through_total (done : List (Handler × Outcome)) :
    (done.map fun x => x.2.counts .total).sum =
      (done.map fun x => x.2.counts .skipped).sum + (done.map fun x => x.2.counts .user).sum := by
  induction done with
  | nil => rfl
  | cons x done ih =>
    simp only [List.map_cons, List.sum_cons, ih]
    cases x.2 <;> simp only [Outcome.counts] <;> omega

/-- One that goes there is lost or submitted. -/
theorem through_user (done : List (Handler × Outcome)) :
    (done.map fun x => x.2.counts .user).sum =
      (done.map fun x => x.2.counts .lost).sum + done.countP fun x => x.2 = .submitted := by
  induction done with
  | nil => rfl
  | cons x done ih =>
    simp only [List.map_cons, List.sum_cons, ih, List.countP_cons]
    cases x.2 <;> simp [Outcome.counts] <;> omega

/-- In a run without overlapping writes each counter is that number, and the counters balance
    whenever no handler is on its way. -/
theorem counts_exact [Fintype ι] {sampling : Int64} {s : St ι} (h : Run step Alone (init sampling) s) :
    (∀ k, k ≠ .sampling → s.inc.cells k = Int64.ofNat (counted s k)) ∧ (Quiet s → Balanced s) := by
  have hcells : ∀ k, k ≠ .sampling → s.inc.cells k = Int64.ofNat (counted s k) := fun k hk => cells_eq_counted h hk
  refine ⟨hcells, fun hq => ?_⟩
  have hthrough : ∀ k, k ≠ .sampling → s.inc.cells k = Int64.ofNat (s.through k) := fun k hk => by
    rw [hcells k hk, counted_of_quiet (counted_eq_landed h).1 hq]
  refine ⟨?_, ?_⟩
  · rw [hthrough .total (by decide), hthrough .skipped (by decide), hthrough .user (by decide), ← Int64.ofNat_add]
    exact congrArg Int64.ofNat (through_total s.done)
  · rw [hthrough .user (by decide), hthrough .lost (by decide), ← Int64.ofNat_add]
    exact congrArg Int64.ofNat (through_user s.done)

/-- The events of two contexts that are in their handlers at once: one is skipped, one lost and one
    submitted. -/
def skippedAndLost : List (Ev Bool) := List.flatten [
  [.enter false (handleDefer 8), .enter true handleCreate],
  .replicate 4 (.next false true),
  (List.replicate 5 [.next true true, .next false true]).flatten,
  [.enter false (handleDefer 64)],
  .replicate 5 (.next true false),
  (List.replicate 4 [.next true true, .next false true]).flatten,
  .replicate 7 (.next false true)]

theorem two_contexts_balance : ∃ s : St Bool, Run step Alone (init 1) s ∧
    ((∀ k, k ≠ .sampling → s.inc.cells k = Int64.ofNat (counted s k)) ∧ (Quiet s → Balanced s)) ∧
    Quiet s ∧ s.done = [(handleDefer 8, .skipped), (handleCreate, .lost), (handleDefer 64, .submitted)] ∧
    s.inc.cells .total = 3 ∧ s.inc.cells .user = 2 := by
  obtain ⟨s, halone, hp⟩ := run_of_execIf_any step Alone (init 1) skippedAndLost
    (fun s => decide (Quiet s ∧
      s.done = [(handleDefer 8, .skipped), (handleCreate, .lost), (handleDefer 64, .submitted)] ∧
      s.inc.cells .total = 3 ∧ s.inc.cells .user = 2)) (by decide +kernel)
  exact ⟨s, halone, counts_exact halone, of_decide_eq_true hp⟩

end Ksight.Uringtrace

/-
  Ksight.CpuWatcher.CsDelay — the durations of `schedule()`
  (src/process/cpu_watcher/bpf/cs_delay.bpf.c: `schedule`, `schedule_exit`).

  The entry probe writes the time into the one entry of an array map, and the return probe
  reads it there. The map is the same for all CPUs, so where a task enters or returns does
  not matter. A task may be inside a call when tracing starts; of the calls it makes from
  then on the entries are observed. An event's clock reading is the probe's, whose order
  among the probes is that of their accesses to the map.

  The law (`Durations`): what a return submits has the entry and the return time of its
  call, and is submitted only if the entry was observed. `durations_iff`: the law holds at
  the end of a run if and only if each return finds the time of its own entry, that of the
  latest one (`Latest`). The array entry is there before any call has been seen, and cannot
  be deleted: a return without its entry is reported (`unobserved_entry_is_reported`). Any
  task that enters before the return takes the entry's place (`another_task_enters`).
-/

import Mathlib.Data.UInt
import Ksight.Lib.ArrayMap
import Ksight.Lib.Run

namespace Ksight.CpuWatcher.CsDelay

open Ksight.Lib

structure Event where
  t1 : UInt64
  t2 : UInt64
  delay : UInt64
  deriving DecidableEq

/-- `start`. -/
abbrev Start := ArrayMap UInt64 1

def schedule (ktime : UInt64) (start : Start) : Start :=
  let t1 := ktime / 1000
  (start.update 0 t1).getD start

def scheduleExit (ktime : UInt64) (reserved : Bool) (start : Start) : Option Event × Start :=
  let t2 := ktime / 1000
  match start.lookup 0 with
  | none => (none, start)
  | some t1 =>
    let delay := t2 - t1
    let start := (start.delete 0).getD start
    if reserved then (some ⟨t1, t2, delay⟩, start) else (none, start)

/-- The time that is in the map. -/
def current (start : Start) : UInt64 := start.values 0

theorem current_schedule (ktime : UInt64) (start : Start) : current (schedule ktime start) = ktime / 1000 := by
  simp [schedule, current, start.update_of_lt Nat.one_pos]

/-- The lookup never fails, and the entry stays. -/
theorem scheduleExit_eq (ktime : UInt64) (start : Start) :
    scheduleExit ktime true start =
      (some ⟨current start, ktime / 1000, ktime / 1000 - current start⟩, start) := by
  simp [scheduleExit, current, start.lookup_of_lt Nat.one_pos]

/-! ## Tasks -/

abbrev Task := Nat

/-- A call in progress: when it was entered, and whether the probe saw it. -/
structure Call where
  entered : UInt64
  observed : Bool
  deriving DecidableEq

structure Return where
  call : Call
  returned : UInt64
  emitted : Option Event
  deriving DecidableEq

structure St where
  start : Start
  calls : Task → Option Call
  /-- Ghost: the time of the latest entry that was observed. -/
  latest : Option UInt64
  returns : List Return

/-- Tracing starts with the tasks `inside` their calls. -/
def init (inside : Task → Option UInt64) : St where
  start := .replicate 0
  calls i := (inside i).map fun t => ⟨t, false⟩
  latest := none
  returns := []

/-- The clock reads nanoseconds, times are in microseconds. -/
inductive Ev where
  | enter (i : Task) (ktime : UInt64)
  | ret (i : Task) (ktime : UInt64)

/-- The ring buffer is never full. -/
def step : Ev → St → Option St
  | .enter i ktime, st =>
    match st.calls i with
    | some _ => none
    | none =>
      some { st with
        start := schedule ktime st.start
        calls := Function.update st.calls i (some ⟨ktime / 1000, true⟩)
        latest := some (ktime / 1000) }
  | .ret i ktime, st =>
    match st.calls i with
    | none => none
    | some c =>
      let r := scheduleExit ktime true st.start
      some { st with
        start := r.2
        calls := Function.update st.calls i none
        returns := st.returns ++ [⟨c, ktime / 1000, r.1⟩] }

/-! ## The law -/

/-- What was submitted is the call's own duration. -/
def Return.Own (r : Return) : Prop :=
  ∀ e ∈ r.emitted, r.call.observed = true ∧ e.t1 = r.call.entered ∧ e.t2 = r.returned ∧ e.delay = e.t2 - e.t1

def Durations (st : St) : Prop := ∀ r ∈ st.returns, r.Own

/-- The condition: a call that returns was observed, and no later entry has another time. -/
def Latest : Ev → St → Prop
  | .ret i _, st => ∀ c ∈ st.calls i, c.observed = true ∧ st.latest = some c.entered
  | .enter .., _ => True

instance : ∀ (e : Ev) (st : St), Decidable (Latest e st)
  | .enter .., _ => inferInstanceAs (Decidable True)
  | .ret i _, st => inferInstanceAs (Decidable (∀ _ ∈ st.calls i, _))

structure Inv (st : St) : Prop where
  current : current st.start = st.latest.getD 0
  /-- A call that was observed is no later than the latest entry. -/
  seen : ∀ i, ∀ c ∈ st.calls i, c.observed = true → st.latest ≠ none

theorem init_inv (inside : Task → Option UInt64) : Inv (init inside) where
  current := rfl
  seen i c hc ho := by
    obtain ⟨t, -, rfl⟩ := Option.map_eq_some_iff.mp hc
    cases ho

theorem step_inv {e : Ev} {st st' : St} (hi : Inv st) (h : step e st = some st') : Inv st' := by
  cases e with
  | enter i ktime =>
    rcases hc : st.calls i with _ | c <;> simp only [step, hc, reduceCtorEq, Option.some.injEq] at h
    subst h
    exact ⟨current_schedule .., fun _ _ _ _ => nofun⟩
  | ret i ktime =>
    rcases hc : st.calls i with _ | c <;> simp only [step, hc, reduceCtorEq, Option.some.injEq] at h
    subst h
    rw [scheduleExit_eq]
    refine ⟨hi.current, fun j c' hc' ho => ?_⟩
    by_cases e : j = i
    · subst e
      simp at hc'
    · exact hi.seen j c' (by simpa [e] using hc') ho

/-- What a return submits is its call's if and only if the step meets the condition. -/
theorem ret_own_iff {st : St} (hi : Inv st) {i : Task} {c : Call} (hc : st.calls i = some c) (ktime : UInt64) :
    Return.Own ⟨c, ktime / 1000, (scheduleExit ktime true st.start).1⟩ ↔ Latest (.ret i ktime) st := by
  rw [scheduleExit_eq]
  simp only [Return.Own, Latest, hc, Option.mem_def, Option.some.injEq, forall_eq', and_self, and_true,
    hi.current]
  refine and_congr_right fun ho => ?_
  rcases hl : st.latest with _ | t
  · exact absurd hl (hi.seen i c hc ho)
  · simp

theorem step_durations {e : Ev} {st st' : St} (hi : Inv st) (h : step e st = some st') :
    Durations st' ↔ Durations st ∧ Latest e st := by
  cases e with
  | enter i ktime =>
    rcases hc : st.calls i with _ | c <;> simp only [step, hc, reduceCtorEq, Option.some.injEq] at h
    subst h
    simp [Durations, Latest]
  | ret i ktime =>
    rcases hc : st.calls i with _ | c <;> simp only [step, hc, reduceCtorEq, Option.some.injEq] at h
    subst h
    rw [← ret_own_iff hi hc ktime]
    simp [Durations, or_imp, forall_and]

/-- The events of a run are of the calls they are submitted for, if and only if each step
    met the condition. -/
theorem durations_iff {inside : Task → Option UInt64} {es : List Ev} {st : St}
    (h : exec step es (init inside) = some st) :
    Durations st ↔ execIf step Latest es (init inside) = some st :=
  holds_iff_of_step (fun _ _ _ => step_inv) (fun _ _ _ => step_durations) (init_inv inside)
    (by simp [Durations, init]) h

/-! ## A few tasks -/

/-- No task is inside a call. -/
def outside (_ : Task) : Option UInt64 := none

/-- Task 1 stays inside its call while task 2 makes one and tasks 2 and 3 enter in one
    microsecond. -/
def overlapping : List Ev :=
  [.enter 1 1000, .enter 2 5000, .ret 2 9000, .enter 3 10000, .enter 2 10900, .ret 2 12000, .ret 3 13000]

theorem overlapping_calls :
    ∃ st, exec step overlapping (init outside) = some st ∧
      st.returns.filterMap Return.emitted = [⟨5, 9, 4⟩, ⟨10, 12, 2⟩, ⟨10, 13, 3⟩] ∧ Durations st := by
  obtain ⟨st, hexec, hif, hs⟩ := execIf_any step Latest (init outside) overlapping
    (fun st => decide (st.returns.filterMap Return.emitted = [⟨5, 9, 4⟩, ⟨10, 12, 2⟩, ⟨10, 13, 3⟩]))
    (by decide +kernel)
  exact ⟨st, hexec, of_decide_eq_true hs, (durations_iff hexec).mpr hif⟩

/-- Task 2 enters while task 1 is switched out, and has not returned when task 1 does: the
    event has task 2's entry and task 1's return. -/
theorem another_task_enters : ∃ st, Run step anyEvent (init outside) st ∧ ¬ Durations st := by
  obtain ⟨st, hr, hs⟩ := run_of_exec_any step (init outside)
    [.enter 1 1000, .enter 2 2000, .ret 1 5000]
    (fun st => decide (st.returns = [⟨⟨1, true⟩, 5, some ⟨2, 5, 3⟩⟩])) (by decide +kernel)
  refine ⟨st, hr, fun hd => ?_⟩
  have := (hd _ (of_decide_eq_true hs ▸ List.mem_singleton_self _) _ rfl).2.1
  exact absurd this (by decide)

/-- Task 1 is inside a call when tracing starts; its return is reported with the time 0. -/
theorem unobserved_entry_is_reported :
    ∃ st, Run step anyEvent (init fun i => if i = 1 then some 3 else none) st ∧ ¬ Durations st := by
  obtain ⟨st, hr, hs⟩ := run_of_exec_any step (init fun i => if i = 1 then some 3 else none) [.ret 1 5000]
    (fun st => decide (st.returns = [⟨⟨3, false⟩, 5, some ⟨0, 5, 5⟩⟩])) (by decide +kernel)
  refine ⟨st, hr, fun hd => ?_⟩
  have := (hd _ (of_decide_eq_true hs ▸ List.mem_singleton_self _) _ rfl).1
  exact absurd this (by decide)

end Ksight.CpuWatcher.CsDelay

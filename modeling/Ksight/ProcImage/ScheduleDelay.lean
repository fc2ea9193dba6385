/-
  Ksight.ProcImage.ScheduleDelay — the delays of sched_switch against the scheduler
  (src/process/proc_image/bpf/schedule_image.bpf.c).

  Tasks wait, run on a CPU or are off the run queues; the CPUs switch between them, wake
  them up and see them exit, in any order, from any state of the scheduler in which the
  probes are attached. A task that is switched out stays runnable if the switch is a
  preemption or its `__state` is TASK_RUNNING.

  The law (`Measured`): each delay added for a task other than idle is the time of the
  switch minus that of the last wakeup of the task or the last switch that left it
  runnable. The handler takes the `__state` alone for the second and does not read
  `preempt`, so it overlooks a task that is preempted on its way to sleep.
  `delays_measured`: the law holds in every run in which no overlooked task with an entry
  is switched in before it is woken up (`NoneOverlooked`); `preempted_on_the_way_to_sleep`:
  it fails where one is.
-/

import Mathlib.Logic.Function.Basic
import Ksight.Lib.Run
import Ksight.ProcImage.ScheduleImage

namespace Ksight.ProcImage.ScheduleImage

open Ksight.Lib

/-- Where a task is: sleeping, dead or not there yet, waiting for a CPU, or on one. -/
inductive Place where
  | off
  | waiting
  | running
  deriving DecidableEq

/-- A delay that the handler added. -/
structure Delay where
  pid : Int32
  thisDelay : UInt64
  /-- The time of the switch, and of the event that made the task runnable. -/
  currentTime : UInt64
  since : UInt64
  deriving DecidableEq

structure St where
  maps : Maps
  place : Int32 → Place
  /-- The task on each CPU, 0 for the idle one. -/
  curr : Int32 → Int32
  clock : UInt64
  /-- The last event that made each task runnable: its time, and whether it was a
      preemption in another state than TASK_RUNNING. -/
  since : Int32 → UInt64
  overlooked : Int32 → Bool
  delays : List Delay

def init (place : Int32 → Place) (curr : Int32 → Int32) : St :=
  ⟨.empty, place, curr, 0, fun _ => 0, fun _ => false, []⟩

inductive Ev where
  | wakeup (pid cpu : Int32) (now : UInt64)
  | wakeupNew (pid cpu : Int32) (now : UInt64)
  | switch (s : Switch)
  | exit (cpu tgid : Int32) (now : UInt64)

/-- The task that goes stays runnable. -/
def Switch.stays (s : Switch) : Bool := s.preempt || s.prevState = taskRunning

variable (c : Config)

/-- A task that is runnable from `now` on. -/
def St.runnable (st : St) (pid : Int32) (now : UInt64) (overlooked : Bool) : St :=
  { st with since := Function.update st.since pid now, overlooked := Function.update st.overlooked pid overlooked }

def St.measure (st : St) (s : Switch) : List Delay :=
  st.delays ++ ((delayOf s (notePrev s st.maps)).map fun d =>
    ⟨s.nextPid, d, s.currentTime, st.since s.nextPid⟩).toList

def wake (note : Maps → Maps) (pid : Int32) (now : UInt64) (st : St) : St :=
  { st.runnable pid now false with
    maps := note st.maps
    clock := now
    place := if st.place pid = .off then Function.update st.place pid .waiting else st.place }

def step : Ev → St → Option St
  | .wakeup pid cpu now, st =>
    if pid ≠ 0 ∧ st.clock ≤ now ∧ st.maps.procSchedule.HasRoom (procId pid cpu) then
      some (wake (schedWakeup pid cpu now) pid now st)
    else none
  | .wakeupNew pid cpu now, st =>
    if pid ≠ 0 ∧ st.place pid = .off ∧ st.clock ≤ now ∧ st.maps.procSchedule.HasRoom (procId pid cpu) then
      some (wake (schedWakeupNew pid cpu now) pid now st)
    else none
  | .switch s, st =>
    if s.prevPid = st.curr s.cpu ∧ (s.nextPid = 0 ∨ st.place s.nextPid = .waiting) ∧ s.prevPid ≠ s.nextPid ∧
        st.clock ≤ s.currentTime ∧ st.maps.procSchedule.HasRoom s.prev then
      let st' := if s.stays then st.runnable s.prevPid s.currentTime (s.prevState ≠ taskRunning) else st
      some { st' with
        maps := schedSwitch c s st.maps
        clock := s.currentTime
        curr := Function.update st.curr s.cpu s.nextPid
        place := Function.update (Function.update st.place s.prevPid (if s.stays then .waiting else .off))
          s.nextPid .running
        delays := st.measure s }
    else none
  | .exit cpu tgid now, st =>
    if st.curr cpu ≠ 0 ∧ st.clock ≤ now then
      some { st with maps := schedProcessExit c (st.curr cpu) tgid cpu st.maps, clock := now }
    else none

/-! ## The law -/

def Measured (st : St) : Prop :=
  ∀ d ∈ st.delays, d.pid ≠ 0 → d.thisDelay.toNat + d.since.toNat = d.currentTime.toNat

instance (st : St) : Decidable (Measured st) := inferInstanceAs (Decidable (∀ _ ∈ _, _))

/-- The condition: a task that the handler overlooked when it last became runnable is not
    switched in while it has an entry. -/
def NoneOverlooked : Ev → St → Prop
  | .switch s, st => s.nextPid ≠ 0 → st.overlooked s.nextPid = true → st.maps.procSchedule.lookup s.next = none
  | _, _ => True

instance : ∀ (e : Ev) (st : St), Decidable (NoneOverlooked e st)
  | .switch _, _ => inferInstanceAs (Decidable (_ → _))
  | .wakeup .., _ | .wakeupNew .., _ | .exit .., _ => inferInstanceAs (Decidable True)

structure Inv (st : St) : Prop where
  entry : ∀ p t, p ≠ 0 → st.overlooked p = false → st.maps.enterTime (procId p 0) = some t → t = st.since p
  past : ∀ p, st.since p ≤ st.clock
  measured : Measured st

theorem init_inv (place : Int32 → Place) (curr : Int32 → Int32) : Inv (init place curr) where
  entry p t _ _ h := by cases h
  past p := UInt64.le_refl 0
  measured d hd := by cases hd

/-! ## One step -/

variable {c}

theorem procId_cpu {p : Int32} (h : p ≠ 0) (cpu : Int32) : procId p cpu = procId p 0 := by
  simp [procId, h]

theorem procId_inj {p q : Int32} (h : p ≠ q) (cpu cpu' : Int32) : procId p cpu ≠ procId q cpu' :=
  fun e => h (congrArg ProcId.pid e)

theorem wake_inv {st : St} {pid now : _} (hi : Inv st) (hpid : pid ≠ 0) (hclock : st.clock ≤ now) (cpu : Int32)
    (hroom : st.maps.procSchedule.HasRoom (procId pid cpu)) :
    Inv (wake (noteRunnable (procId pid cpu) now) pid now st) where
  entry p t hp ho ht := by
    simp only [wake, St.runnable] at ho ht ⊢
    rw [noteRunnable_enterTime hroom] at ht
    by_cases e : p = pid
    · subst e
      rw [if_pos (procId_cpu hpid cpu).symm] at ht
      cases ht
      simp
    · rw [if_neg (procId_inj e 0 cpu)] at ht
      rw [Function.update_of_ne e] at ho ⊢
      exact hi.entry p t hp ho ht
  past p := by
    simp only [wake, St.runnable]
    by_cases e : p = pid
    · subst e
      simp
    · rw [Function.update_of_ne e]
      exact UInt64.le_trans (hi.past p) hclock
  measured := hi.measured

/-- The delay a switch adds is the time since the task became runnable. -/
theorem measure_measured {st : St} {s : Switch} (hi : Inv st) (hn : NoneOverlooked (.switch s) st)
    (hne : s.prevPid ≠ s.nextPid) (hclock : st.clock ≤ s.currentTime)
    (hroom : st.maps.procSchedule.HasRoom s.prev) :
    ∀ d ∈ st.measure s, d.pid ≠ 0 → d.thisDelay.toNat + d.since.toNat = d.currentTime.toNat := by
  intro d hd hpid
  rcases List.mem_append.mp hd with hd | hd
  · exact hi.measured d hd hpid
  · obtain ⟨delay, hdelay, rfl⟩ := Option.map_eq_some_iff.mp (Option.mem_toList.mp hd)
    obtain ⟨t, ht, rfl⟩ := delayOf_enterTime hdelay
    rw [notePrev_enterTime hroom, if_neg fun h => procId_inj hne.symm _ _ h.2] at ht
    have hseen : st.overlooked s.nextPid = false := by
      rw [Bool.eq_false_iff]
      intro ho
      rw [Maps.enterTime, hn hpid ho] at ht
      cases ht
    have hsince := hi.entry s.nextPid t hpid hseen (by rw [← procId_cpu hpid s.cpu]; exact ht)
    have hle : t ≤ s.currentTime := hsince ▸ UInt64.le_trans (hi.past _) hclock
    show (s.currentTime - t).toNat + (st.since s.nextPid).toNat = s.currentTime.toNat
    rw [← hsince, UInt64.toNat_sub_of_le _ _ hle]
    exact Nat.sub_add_cancel hle

/-- A switch leaves every entry that is not overlooked with the time its task became
    runnable. -/
theorem switch_entry {st : St} {s : Switch} (hi : Inv st) (hroom : st.maps.procSchedule.HasRoom s.prev) :
    let st' := if s.stays then st.runnable s.prevPid s.currentTime (s.prevState ≠ taskRunning) else st
    ∀ p t, p ≠ 0 → st'.overlooked p = false → (schedSwitch c s st.maps).enterTime (procId p 0) = some t →
      t = st'.since p := by
  intro st' p t hp ho ht
  rw [schedSwitch_enterTime, notePrev_enterTime hroom] at ht
  by_cases e : p = s.prevPid
  · subst e
    have hkey : procId s.prevPid 0 = s.prev := (procId_cpu hp s.cpu).symm
    by_cases hr : s.prevState = taskRunning
    · have hstays : s.stays = true := by simp [Switch.stays, hr]
      rw [if_pos ⟨hr, hkey⟩] at ht
      cases ht
      simp [st', hstays, St.runnable]
    · rw [if_neg fun h => hr h.1] at ht
      by_cases hstays : s.stays = true
      · simp [st', hstays, St.runnable, hr] at ho
      · simp only [st', hstays] at ho ⊢
        exact hi.entry _ t hp ho ht
  · rw [if_neg fun h => procId_inj e 0 s.cpu h.2] at ht
    by_cases hstays : s.stays = true
    · simp only [st', hstays, if_true, St.runnable] at ho ⊢
      rw [Function.update_of_ne e] at ho ⊢
      exact hi.entry p t hp ho ht
    · simp only [st', hstays] at ho ⊢
      exact hi.entry p t hp ho ht

theorem step_inv {e : Ev} {st st' : St} (hi : Inv st) (hn : NoneOverlooked e st) (h : step c e st = some st') :
    Inv st' := by
  cases e with
  | wakeup pid cpu now =>
    simp only [step, Option.ite_none_right_eq_some, Option.some.injEq] at h
    obtain ⟨⟨hpid, hclock, hroom⟩, rfl⟩ := h
    exact wake_inv hi hpid hclock cpu hroom
  | wakeupNew pid cpu now =>
    simp only [step, Option.ite_none_right_eq_some, Option.some.injEq] at h
    obtain ⟨⟨hpid, -, hclock, hroom⟩, rfl⟩ := h
    exact wake_inv hi hpid hclock cpu hroom
  | switch s =>
    simp only [step, Option.ite_none_right_eq_some, Option.some.injEq] at h
    obtain ⟨⟨-, -, hne, hclock, hroom⟩, rfl⟩ := h
    refine ⟨switch_entry hi hroom, fun p => ?_, measure_measured hi hn hne hclock hroom⟩
    by_cases hstays : s.stays = true
    · simp only [hstays, if_true, St.runnable]
      by_cases e : p = s.prevPid
      · subst e
        simp
      · rw [Function.update_of_ne e]
        exact UInt64.le_trans (hi.past p) hclock
    · simp only [hstays]
      exact UInt64.le_trans (hi.past p) hclock
  | exit cpu tgid now =>
    simp only [step, Option.ite_none_right_eq_some, Option.some.injEq] at h
    obtain ⟨⟨-, hclock⟩, rfl⟩ := h
    refine ⟨fun p t hp ho ht => ?_, fun p => UInt64.le_trans (hi.past p) hclock, hi.measured⟩
    rw [schedProcessExit_enterTime] at ht
    split at ht
    · cases ht
    · exact hi.entry p t hp ho ht

variable (c)

/-- In a run in which no overlooked task is switched in, each delay added is the time
    since the task became runnable. -/
theorem delays_measured {place : Int32 → Place} {curr : Int32 → Int32} {st : St}
    (h : Run (step c) NoneOverlooked (init place curr) st) : Measured st :=
  (h.inv (init_inv place curr) fun _ _ _ hi hn hs => step_inv hi hn hs).measured

/-! ## Tasks 7 and 8 on CPU 0 -/

def idle : St := init (fun _ => .off) fun _ => 0

def switchTo (prev : Int32) (preempt : Bool) (prevState : UInt32) (next : Int32) (now : UInt64) : Ev :=
  .switch ⟨preempt, prev, prevState, next, next, 120, 0, now⟩

/-- Task 7 runs from 20 on, is preempted at 30 for task 8 and back at 45, when 8 sleeps. -/
theorem preempted_while_running :
    ∃ st, Run (step .default) NoneOverlooked idle st ∧ st.delays.map Delay.thisDelay = [10, 15, 15] ∧
      Measured st := by
  obtain ⟨st, hr, hs⟩ := run_of_execIf_any (step .default) NoneOverlooked idle
    [.wakeup 7 0 10, .wakeupNew 8 0 15, switchTo 0 false 0 7 20, switchTo 7 true 0 8 30, switchTo 8 false 1 7 45]
    (fun st => decide (st.delays.map Delay.thisDelay = [10, 15, 15])) (by decide +kernel)
  exact ⟨st, hr, of_decide_eq_true hs, delays_measured .default hr⟩

/-- The same with task 7 preempted after it set its state to 1, to sleep: it waits 15, and
    the delay added is 35, from its wakeup on. -/
theorem preempted_on_the_way_to_sleep :
    ∃ st, Run (step .default) anyEvent idle st ∧ st.delays.map Delay.thisDelay = [10, 15, 35] ∧
      ¬ Measured st := by
  obtain ⟨st, hr, hs⟩ := run_of_exec_any (step .default) idle
    [.wakeup 7 0 10, .wakeupNew 8 0 15, switchTo 0 false 0 7 20, switchTo 7 true 1 8 30, switchTo 8 false 1 7 45]
    (fun st => decide (st.delays.map Delay.thisDelay = [10, 15, 35] ∧ ¬ Measured st)) (by decide +kernel)
  obtain ⟨hd, hm⟩ := of_decide_eq_true hs
  exact ⟨st, hr, hd, hm⟩

end Ksight.ProcImage.ScheduleImage

/-
  Ksight.CpuWatcher.ThreadTimes — the time that user and kernel threads run
  (src/process/cpu_watcher/bpf/sar.bpf.c: `trace_sched_switch2`, `finish_task_switch`).

  At a switch the tracepoint stores the time under the pid of the task that comes in, and
  `finish_task_switch` adds the time since its own start to the total of the kind of the task
  that went out. The start times are an array of 4096 elements, which are there from the
  beginning. A task is on one CPU at a time, until its switch-out has finished; pid 0 is that
  of the idle tasks of all CPUs. No addition is lost.

  The law (`Right`): the totals are the sums of the spans, from switch-in to the end of the
  switch-out, of the threads that were switched in after tracing began.

  - `thread_totals_right_iff`: the law holds all along a trace if and only if each thread that
    goes out (`Measured`) was switched in after tracing began and has a pid below 4096, or
    neither.
  - A thread with a pid from 4096 on is not measured (`large_pid_is_not_measured`), and one
    that was running when tracing began is given the time since the clock's zero
    (`running_thread_is_given_the_uptime`).
-/

import Ksight.Lib.ArrayMap
import Ksight.Lib.Run
import Ksight.Lib.Spans

namespace Ksight.CpuWatcher.ThreadTimes

open Ksight.Lib

/-- `kthread` and `idle` are the flags `PF_KTHREAD` and `PF_IDLE`. Among the tasks that are not
    kernel threads only the idle ones have pid 0. -/
structure Task where
  pid : UInt32
  kthread : Bool
  idle : Bool
  idle_iff : kthread = false → (idle = true ↔ pid = 0)
  deriving DecidableEq

structure Maps where
  countMap : ArrayMap UInt64 3
  procStartTime : ArrayMap UInt64 4096
  ktLastTime : ArrayMap UInt64 1
  utLastTime : ArrayMap UInt64 1

def created : Maps := ⟨.replicate 0, .replicate 0, .replicate 0, .replicate 0⟩

/-- `val = lookup; if (val) *val += delta; else update` -/
def addTo {cap : Nat} (m : ArrayMap UInt64 cap) (delta : UInt64) : ArrayMap UInt64 cap :=
  match m.lookup 0 with
  | none => (m.update 0 delta).getD m
  | some val => (m.update 0 (val + delta)).getD m

def traceSchedSwitch2 (prev next : UInt32) (time : UInt64) (m : Maps) : Maps :=
  if prev ≠ next then
    { m with
      procStartTime := (m.procStartTime.update next.toNat time).getD m.procStartTime
      countMap := addTo m.countMap 1 }
  else m

def finishTaskSwitch (prev : Task) (time : UInt64) (m : Maps) : Maps :=
  if prev.kthread ∧ prev.pid ≠ 0 then
    match m.procStartTime.lookup prev.pid.toNat with
    | none => m
    | some val => { m with ktLastTime := addTo m.ktLastTime (time - val) }
  else if ¬ prev.kthread ∧ ¬ prev.idle then
    match m.procStartTime.lookup prev.pid.toNat with
    | none => m
    | some val => { m with utLastTime := addTo m.utLastTime (time - val) }
  else m

/-! ## The CPUs -/

/-- A task on a CPU, and when it was switched in, if that was seen. -/
structure Running where
  task : Task
  since : Option UInt64
  deriving DecidableEq

inductive Kind where
  | kernel
  | user
  deriving DecidableEq

/-- The idle tasks have no kind. -/
def Task.kind (t : Task) : Option Kind :=
  if t.pid = 0 then none else if t.kthread then some .kernel else some .user

structure St (n : Nat) where
  maps : Maps
  current : Fin n → Running
  /-- The task that goes out, while the switch has not finished. -/
  prev : Fin n → Option Running
  /-- Ghost: the spans of the threads that went out. -/
  done : Kind → List Span

/-- The tasks on a CPU. -/
def St.on {n : Nat} (s : St n) (cpu : Fin n) : List Running := s.current cpu :: (s.prev cpu).toList

/-- Tracing starts with the tasks `tasks` on the CPUs. -/
def init {n : Nat} (tasks : Fin n → Task) : St n :=
  ⟨created, fun cpu => ⟨tasks cpu, none⟩, fun _ => none, fun _ => []⟩

inductive Ev (n : Nat) where
  | switch (cpu : Fin n) (next : Task) (time : UInt64)
  | finish (cpu : Fin n) (time : UInt64)

/-- A thread that comes in is on no CPU. -/
def CanEnter {n : Nat} (next : Task) (s : St n) : Prop :=
  next.pid ≠ 0 → ∀ cpu, ∀ r ∈ s.on cpu, r.task.pid ≠ next.pid

instance {n : Nat} (next : Task) (s : St n) : Decidable (CanEnter next s) := inferInstanceAs (Decidable (_ → _))

/-- The span of a thread whose switch-in was seen. -/
def Running.span (r : Running) (time : UInt64) : Option Span := r.since.map (⟨·, time⟩)

def step {n : Nat} : Ev n → St n → Option (St n)
  | .switch cpu next time, s =>
    if s.prev cpu = none ∧ CanEnter next s then
      some { s with
        maps := traceSchedSwitch2 (s.current cpu).task.pid next.pid time s.maps
        current := Function.update s.current cpu ⟨next, some time⟩
        prev := Function.update s.prev cpu (some (s.current cpu)) }
    else none
  | .finish cpu time, s =>
    match s.prev cpu with
    | none => none
    | some r =>
      some { s with
        maps := finishTaskSwitch r.task time s.maps
        prev := Function.update s.prev cpu none
        done := match r.task.kind with
          | none => s.done
          | some k => Function.update s.done k ((r.span time).toList ++ s.done k) }

/-! ## The law -/

def Maps.total (m : Maps) : Kind → UInt64
  | .kernel => m.ktLastTime.values ⟨0, Nat.one_pos⟩
  | .user => m.utLastTime.values ⟨0, Nat.one_pos⟩

def Right {n : Nat} (s : St n) : Prop := ∀ k, s.maps.total k = totalLength (s.done k)

/-- The condition: a thread that goes out was seen to come in and has an element of the array,
    or neither. (Where the clock reads the same there is nothing to add.) -/
def Measured {n : Nat} : Ev n → St n → Prop
  | .switch .., _ => True
  | .finish cpu time, s => ∀ r ∈ s.prev cpu, r.task.pid ≠ 0 →
      (r.since.isSome ↔ r.task.pid.toNat < 4096) ∨ time = r.since.getD 0

instance {n : Nat} (e : Ev n) (s : St n) : Decidable (Measured e s) :=
  match e with
  | .switch .. => .isTrue trivial
  | .finish .. => Option.decidableForallMem _

/-! ## The maps -/

/-- An array has its element from the start. -/
theorem addTo_values (m : ArrayMap UInt64 1) (delta : UInt64) : (addTo m delta).values 0 = m.values 0 + delta := by
  simp [addTo, m.lookup_of_lt Nat.one_pos, m.update_of_lt Nat.one_pos]

/-- What a thread that goes out adds to its total. -/
def Maps.charge (m : Maps) (t : Task) (time : UInt64) : UInt64 :=
  match m.procStartTime.lookup t.pid.toNat with
  | none => 0
  | some val => time - val

theorem total_finish (t : Task) (time : UInt64) (m : Maps) (k : Kind) : (finishTaskSwitch t time m).total k =
    if t.kind = some k then m.total k + m.charge t time else m.total k := by
  have hidle : t.kthread = false → (t.idle = true ↔ t.pid = 0) := t.idle_iff
  rcases hl : m.procStartTime.lookup t.pid.toNat with _ | val
  · cases k <;> simp [finishTaskSwitch, Maps.charge, hl]
  · by_cases hp : t.pid = 0
    · cases ht : t.kthread <;> cases k <;> simp_all [finishTaskSwitch, Task.kind, Maps.total]
    · cases ht : t.kthread <;> cases k <;> simp_all [finishTaskSwitch, Task.kind, Maps.total, Maps.charge, addTo_values]

theorem procStartTime_finish (t : Task) (time : UInt64) (m : Maps) :
    (finishTaskSwitch t time m).procStartTime = m.procStartTime := by
  unfold finishTaskSwitch
  split
  · split <;> rfl
  · split
    · split <;> rfl
    · rfl

theorem total_switch (prev next : UInt32) (time : UInt64) (m : Maps) (k : Kind) :
    (traceSchedSwitch2 prev next time m).total k = m.total k := by
  unfold traceSchedSwitch2
  split <;> cases k <;> rfl

theorem lookup_switch {prev next : UInt32} (hne : prev ≠ next) (time : UInt64) (m : Maps) (pid : UInt32)
    (hpid : pid.toNat < 4096) : (traceSchedSwitch2 prev next time m).procStartTime.lookup pid.toNat =
      if pid = next then some time else m.procStartTime.lookup pid.toNat := by
  rw [traceSchedSwitch2, if_pos hne, m.procStartTime.lookup_getD_update _ _ hpid]
  simp only [UInt32.toNat_inj]

/-! ## The steps -/

variable {n : Nat}

/-- The element of a thread on a CPU has the time it was seen to come in, and 0 if it was not. -/
def Inv (s : St n) : Prop :=
  ∀ cpu, ∀ r ∈ s.on cpu, r.task.pid ≠ 0 → r.task.pid.toNat < 4096 →
    s.maps.procStartTime.lookup r.task.pid.toNat = some (r.since.getD 0)

theorem inv_init (tasks : Fin n → Task) : Inv (init tasks) := by
  intro cpu r hr _ hpid
  cases List.mem_singleton.mp hr
  exact ArrayMap.lookup_of_lt _ hpid

/-- A switch brings in one task and takes none away. -/
theorem mem_on_of_switch {s t : St n} {cpu c : Fin n} {next : Task} {time : UInt64} {r : Running}
    (hs : step (.switch cpu next time) s = some t) (hr : r ∈ t.on c) : r = ⟨next, some time⟩ ∨ r ∈ s.on c := by
  simp only [step, Option.ite_none_right_eq_some, Option.some.injEq] at hs
  obtain ⟨-, rfl⟩ := hs
  by_cases hc : c = cpu
  · subst c
    simp only [St.on, Function.update_self, Option.toList_some, List.mem_cons, List.not_mem_nil, or_false] at hr
    rcases hr with rfl | rfl
    · exact .inl rfl
    · exact .inr List.mem_cons_self
  · simp only [St.on, Function.update_of_ne hc] at hr
    exact .inr hr

theorem Inv.switch {s t : St n} {cpu : Fin n} {next : Task} {time : UInt64} (h : Inv s)
    (hs : step (.switch cpu next time) s = some t) : Inv t := by
  intro c r hr hp hpid
  have hmem := mem_on_of_switch hs hr
  simp only [step, Option.ite_none_right_eq_some, Option.some.injEq] at hs
  obtain ⟨⟨-, henter⟩, rfl⟩ := hs
  have hout : ∀ d, ∀ q ∈ s.on d, next.pid ≠ 0 → q.task.pid ≠ next.pid := fun d q hq hn => henter hn d q hq
  rcases hmem with rfl | hmem
  · rw [lookup_switch (hout cpu _ List.mem_cons_self hp) _ _ _ hpid, if_pos rfl]
    rfl
  · by_cases hne : (s.current cpu).task.pid = next.pid
    · rw [traceSchedSwitch2, if_neg (not_not.mpr hne)]
      exact h c r hmem hp hpid
    · have hr : r.task.pid ≠ next.pid := fun heq => hout c r hmem (heq ▸ hp) heq
      rw [lookup_switch hne _ _ _ hpid, if_neg hr]
      exact h c r hmem hp hpid

theorem Inv.finish {s t : St n} {cpu : Fin n} {time : UInt64} (h : Inv s)
    (hs : step (.finish cpu time) s = some t) : Inv t := by
  rcases hprev : s.prev cpu with _ | q <;> simp only [step, hprev, reduceCtorEq, Option.some.injEq] at hs
  subst hs
  intro c r hr hp hpid
  rw [procStartTime_finish]
  refine h c r ?_ hp hpid
  by_cases hc : c = cpu
  · subst c
    simp only [St.on, Function.update_self, Option.toList_none, List.mem_singleton] at hr
    exact hr ▸ List.mem_cons_self
  · simpa only [St.on, Function.update_of_ne hc] using hr

theorem Inv.step {s t : St n} (e : Ev n) (h : Inv s) (hs : step e s = some t) : Inv t := by
  cases e with
  | switch cpu next time => exact h.switch hs
  | finish cpu time => exact h.finish hs

/-- What a thread adds is its span, if and only if the condition is met. -/
theorem charge_eq_iff {s : St n} {cpu : Fin n} {r : Running} (h : Inv s) (hr : s.prev cpu = some r)
    (hp : r.task.pid ≠ 0) (time sum : UInt64) :
    sum + s.maps.charge r.task time = totalLength (r.span time).toList + sum ↔
      (r.since.isSome ↔ r.task.pid.toNat < 4096) ∨ time = r.since.getD 0 := by
  have hon : r ∈ s.on cpu := by simp [St.on, hr]
  by_cases hpid : r.task.pid.toNat < 4096
  · have hcharge : s.maps.charge r.task time = time - r.since.getD 0 := by
      rw [Maps.charge, h cpu r hon hp hpid]
    rw [hcharge]
    rcases hs : r.since with _ | t
    · simp [Running.span, hs, hpid]
    · simp [Running.span, hs, hpid, Span.length, UInt64.add_comm]
  · have hcharge : s.maps.charge r.task time = 0 := by
      rw [Maps.charge, ArrayMap.lookup, dif_neg hpid]
    rw [hcharge]
    rcases hs : r.since with _ | t
    · simp [Running.span, hs, hpid]
    · simp [Running.span, hs, hpid, Span.length, UInt64.sub_eq_iff_eq_add]

theorem right_step {s t : St n} (e : Ev n) (h : Inv s) (hright : Right s) (hs : ThreadTimes.step e s = some t) :
    Right t ↔ Measured e s := by
  cases e with
  | switch cpu next time =>
    simp only [ThreadTimes.step, Option.ite_none_right_eq_some, Option.some.injEq] at hs
    obtain ⟨-, rfl⟩ := hs
    refine iff_of_true (fun k => ?_) trivial
    rw [total_switch]
    exact hright k
  | finish cpu time =>
    rcases hprev : s.prev cpu with _ | r <;>
      simp only [ThreadTimes.step, hprev, reduceCtorEq, Option.some.injEq] at hs
    subst hs
    have hmeasured : Measured (.finish cpu time) s ↔
        (r.task.pid ≠ 0 → (r.since.isSome ↔ r.task.pid.toNat < 4096) ∨ time = r.since.getD 0) := by
      simp [Measured, hprev]
    rw [hmeasured]
    rcases hk : r.task.kind with _ | k
    · have hp : r.task.pid = 0 := by
        by_contra hne
        cases hkt : r.task.kthread <;> simp [Task.kind, hne, hkt] at hk
      refine iff_of_true (fun j => ?_) fun hne => absurd hp hne
      rw [total_finish, hk, if_neg nofun]
      exact hright j
    · have hp : r.task.pid ≠ 0 := fun hp => by simp [Task.kind, hp] at hk
      have hcharge := charge_eq_iff h hprev hp time (s.maps.total k)
      have htotal : ∀ j, (finishTaskSwitch r.task time s.maps).total j =
          if j = k then s.maps.total j + s.maps.charge r.task time else s.maps.total j := by
        intro j
        simp only [total_finish, hk, Option.some.injEq, eq_comm]
      rw [forall_prop_of_true hp, ← hcharge]
      exact totals_update_iff hright _ htotal

/-- The totals are right all along if and only if each thread that goes out is measured. -/
theorem thread_totals_right_iff {tasks : Fin n → Task} {s : St n} {es : List (Ev n)}
    (h : exec step es (init tasks) = some s) :
    Along step Right es (init tasks) ↔ execIf step Measured es (init tasks) = some s :=
  along_iff_of_step (I := Inv) (P := Right) (fun e _ _ hi hs => hi.step e hs)
    (fun e _ _ hi hr hs => right_step e hi hr hs) (inv_init tasks) (fun k => by cases k <;> rfl) h

/-! ## One CPU -/

def idleTask : Task := ⟨0, true, true, nofun⟩

def userThread (pid : UInt32) (h : pid ≠ 0) : Task := ⟨pid, false, false, fun _ => by simp [h]⟩

/-- From idle to a thread and back. -/
def oneRun (cpu : Fin n) (thread : Task) : List (Ev n) :=
  [.switch cpu thread 100, .finish cpu 105, .switch cpu idleTask 300, .finish cpu 310]

theorem small_pid_is_measured : ∃ s,
    exec step (oneRun (0 : Fin 1) (userThread 7 (by decide))) (init fun _ => idleTask) = some s ∧
    Along step Right (oneRun (0 : Fin 1) (userThread 7 (by decide))) (init fun _ => idleTask) := by
  obtain ⟨s, hs, hok, -⟩ := execIf_any step Measured (init fun _ : Fin 1 => idleTask)
    (oneRun 0 (userThread 7 (by decide))) (fun _ => true) (by decide)
  exact ⟨s, hs, (thread_totals_right_iff hs).mpr hok⟩

theorem large_pid_is_not_measured : ∃ s, Run step anyEvent (init fun _ : Fin 1 => idleTask) s ∧
    s.maps.total .user = 0 ∧ s.done .user = [⟨100, 310⟩] ∧ ¬ Right s := by
  obtain ⟨s, hr, hs⟩ := run_of_exec_any step (init fun _ : Fin 1 => idleTask) (oneRun 0 (userThread 4096 (by decide)))
    (fun s => s.maps.total .user == 0 && s.done .user == [⟨100, 310⟩]) (by decide)
  simp only [Bool.and_eq_true, beq_iff_eq] at hs
  refine ⟨s, hr, hs.1, hs.2, fun h => absurd (h .user) ?_⟩
  rw [hs.1, hs.2]
  decide

/-- The thread runs when tracing begins, and goes out at 310. -/
theorem running_thread_is_given_the_uptime : ∃ s,
    Run step anyEvent (init fun _ : Fin 1 => userThread 7 (by decide)) s ∧
      s.maps.total .user = 310 ∧ s.done .user = [] ∧ ¬ Right s := by
  obtain ⟨s, hr, hs⟩ := run_of_exec_any step (init fun _ : Fin 1 => userThread 7 (by decide))
    [.switch 0 idleTask 300, .finish 0 310]
    (fun s => s.maps.total .user == 310 && s.done .user == []) (by decide)
  simp only [Bool.and_eq_true, beq_iff_eq] at hs
  refine ⟨s, hr, hs.1, hs.2, fun h => absurd (h .user) ?_⟩
  rw [hs.1, hs.2]
  decide

end Ksight.CpuWatcher.ThreadTimes

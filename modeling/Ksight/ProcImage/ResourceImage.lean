/-
  Ksight.ProcImage.ResourceImage — the CPU time of the tasks
  (src/process/proc_image/bpf/resource_image.bpf.c: `kprobe__finish_task_switch`).

  At each switch the handler adds what the task that goes out has used since its `start`
  entry to its `total` entry, and then makes the `start` entry of the task that comes in. It
  reads the memory of the task that goes out through its `mm`. That is an array of counters,
  which are copied: a task without `mm` has them all 0, and the test of the pointer to the copy
  never ends the handler, nor do the tests of a second lookup. The maps are never full.

  The law (`Right`): the time of a traced task's `total` entry is the sum of its spans between a
  switch-in and a switch-out, from its first switch-in. (A task that has no entry has been
  charged nothing.)

  - `task_times_right`: the law holds in every state of every run, whatever tasks go out in
    between, on any CPUs. A task's `start` entry is that of its latest switch-in (`Inv`), since
    each switch ends with the entry of the task that comes in, and that task is on no other CPU.
-/

import Ksight.Lib.Run
import Ksight.Lib.Spans
import Ksight.ProcImage.ScheduleImage

namespace Ksight.ProcImage.ResourceImage

open Ksight.Lib
open Ksight.ProcImage.ScheduleImage (ProcId procId maxEntries)

structure StartRsc where
  time : UInt64
  readchar : UInt64
  writechar : UInt64
  deriving DecidableEq

structure TotalRsc where
  pid : Int32
  cpuId : Int32
  time : UInt64
  memused : UInt64
  readchar : UInt64
  writechar : UInt64
  deriving DecidableEq

structure Maps where
  start : BoundedMap ProcId StartRsc maxEntries
  total : BoundedMap ProcId TotalRsc maxEntries

def Maps.empty : Maps := ⟨.empty, .empty⟩

/-- The constants that select the tasks. -/
structure Options where
  targetPid : Int32
  targetCpuId : Int32
  ignoreTgid : Int32

def Options.traces (o : Options) (pid tgid cpu : Int32) : Bool :=
  tgid ≠ o.ignoreTgid && (o.targetPid = -1 || (o.targetPid ≠ 0 && pid = o.targetPid) ||
    (o.targetPid = 0 && pid = o.targetPid && cpu = o.targetCpuId))

/-- A user task, or a kernel thread; the idle tasks are kernel threads of pid 0. -/
structure Task where
  pid : Int32
  tgid : Int32
  user : Bool
  pid_ne : user = true → pid ≠ 0
  deriving DecidableEq

/-- The `rchar` and `wchar` of a task. -/
structure Io where
  rchar : UInt64
  wchar : UInt64

/-- `rss[0].count`, `rss[1].count` and `rss[3].count`. -/
structure Rss where
  file : UInt64
  anon : UInt64
  shmem : UInt64
  deriving DecidableEq

/-- What the handler reads, besides the two tasks: the clock once for each of them. -/
structure Readings where
  closed : UInt64
  opened : UInt64
  rss : Rss
  prevIo : Io
  nextIo : Io

variable (o : Options)

def closePrev (prev : Task) (cpu : Int32) (rd : Readings) (m : Maps) : Maps :=
  if o.traces prev.pid prev.tgid cpu then
    let pd := procId prev.pid cpu
    match m.start.lookup pd with
    | none => m
    | some start =>
      let memused := rd.rss.file + rd.rss.anon + rd.rss.shmem
      match m.total.lookup pd with
      | none =>
        let total := ⟨pd.pid, cpu, rd.closed - start.time, memused,
          rd.prevIo.rchar - start.readchar, rd.prevIo.wchar - start.writechar⟩
        { m with total := (m.total.update pd total).getD m.total }
      | some total =>
        let total := { total with
          cpuId := cpu
          time := total.time + (rd.closed - start.time)
          memused := memused
          readchar := total.readchar + (rd.prevIo.rchar - start.readchar)
          writechar := total.writechar + (rd.prevIo.wchar - start.writechar) }
        { m with total := (m.total.update pd total).getD m.total }
  else m

def openNext (next : Task) (cpu : Int32) (rd : Readings) (m : Maps) : Maps :=
  if o.traces next.pid next.tgid cpu then
    let start : StartRsc := ⟨rd.opened, rd.nextIo.rchar, rd.nextIo.wchar⟩
    { m with start := (m.start.update (procId next.pid cpu) start).getD m.start }
  else m

def finishTaskSwitch (prev next : Task) (cpu : Int32) (rd : Readings) (m : Maps) : Maps :=
  openNext o next cpu rd (closePrev o prev cpu rd m)

/-! ## The CPUs -/

/-- A task on a CPU, and the time of its switch-in, if that was seen. -/
structure Running where
  task : Task
  since : Option UInt64
  deriving DecidableEq

structure St (n : Nat) where
  maps : Maps
  current : Fin n → Running
  /-- Ghost: the spans of the tasks that are traced, by pid. -/
  done : Int32 → List Span

variable {n : Nat}

def init (tasks : Fin n → Task) : St n := ⟨.empty, fun cpu => ⟨tasks cpu, none⟩, fun _ => []⟩

structure Switch (n : Nat) where
  cpu : Fin n
  next : Task
  rd : Readings

def Switch.cpuId (e : Switch n) : Int32 := Int32.ofNat e.cpu

def Switch.prev (e : Switch n) (s : St n) : Running := s.current e.cpu

/-- A task that comes in is on no CPU, a kernel thread has no `mm`, and the maps have room. -/
structure Possible (e : Switch n) (s : St n) : Prop where
  enters : e.next.pid ≠ 0 → ∀ cpu, (s.current cpu).task.pid ≠ e.next.pid
  mm : (e.prev s).task.user = false → e.rd.rss = ⟨0, 0, 0⟩
  start : s.maps.start.HasRoom (procId e.next.pid e.cpuId)
  total : s.maps.total.HasRoom (procId (e.prev s).task.pid e.cpuId)

instance (e : Switch n) (s : St n) : Decidable (Possible e s) :=
  decidable_of_iff ((e.next.pid ≠ 0 → ∀ cpu, (s.current cpu).task.pid ≠ e.next.pid) ∧
    ((e.prev s).task.user = false → e.rd.rss = ⟨0, 0, 0⟩) ∧ s.maps.start.HasRoom (procId e.next.pid e.cpuId) ∧
      s.maps.total.HasRoom (procId (e.prev s).task.pid e.cpuId))
    ⟨fun ⟨he, hm, hs, ht⟩ => ⟨he, hm, hs, ht⟩, fun h => ⟨h.enters, h.mm, h.start, h.total⟩⟩

/-- The span that ends, of a task that is traced and was seen to come in. -/
def Switch.spans (e : Switch n) (s : St n) : List Span :=
  if o.traces (e.prev s).task.pid (e.prev s).task.tgid e.cpuId then
    ((e.prev s).since.map (⟨·, e.rd.closed⟩)).toList
  else []

def step (e : Switch n) (s : St n) : Option (St n) :=
  if Possible e s then
    some
      { maps := finishTaskSwitch o (e.prev s).task e.next e.cpuId e.rd s.maps
        current := Function.update s.current e.cpu ⟨e.next, some e.rd.opened⟩
        done := Function.update s.done (e.prev s).task.pid (e.spans o s ++ s.done (e.prev s).task.pid) }
  else none

/-! ## The law -/

def Maps.timeOf (m : Maps) (pid : Int32) : UInt64 := ((m.total.lookup ⟨pid, 0⟩).map (·.time)).getD 0

/-- Of the user tasks and the kernel threads but the idle ones, which all have the pid 0. -/
def Right (s : St n) : Prop := ∀ pid, pid ≠ 0 → s.maps.timeOf pid = totalLength (s.done pid)

/-! ## The handler -/

variable {o : Options} {prev next : Task} {cpu : Int32} {rd : Readings} {m : Maps}

theorem procId_of_ne {pid : Int32} (h : pid ≠ 0) (cpu : Int32) : procId pid cpu = ⟨pid, 0⟩ := by
  rw [procId, if_neg h]

/-- Another CPU's idle task has another entry. -/
theorem ne_procId {pid pid' : Int32} (h : pid ≠ pid') (cpu : Int32) : (⟨pid, 0⟩ : ProcId) ≠ procId pid' cpu :=
  fun heq => h (congrArg ProcId.pid heq)

theorem start_closePrev : (closePrev o prev cpu rd m).start = m.start := by
  unfold closePrev
  split
  · dsimp only
    split
    · rfl
    · split <;> rfl
  · rfl

/-- What the task that goes out adds to its time is the time since its `start` entry. -/
theorem timeOf_closePrev (hroom : m.total.HasRoom (procId prev.pid cpu)) (pid : Int32) (hpid : pid ≠ 0) :
    (closePrev o prev cpu rd m).timeOf pid =
      if pid = prev.pid ∧ o.traces prev.pid prev.tgid cpu then
        m.timeOf pid + ((m.start.lookup ⟨pid, 0⟩).map (rd.closed - ·.time)).getD 0
      else m.timeOf pid := by
  by_cases ht : o.traces prev.pid prev.tgid cpu
  · by_cases hp : pid = prev.pid
    · subst hp
      rw [procId_of_ne hpid] at hroom
      rcases hs : m.start.lookup ⟨prev.pid, 0⟩ with _ | start
      · simp [closePrev, ht, procId_of_ne hpid, hs]
      · rcases hl : m.total.lookup ⟨prev.pid, 0⟩ with _ | total <;>
          simp [closePrev, ht, procId_of_ne hpid, hs, hl, Maps.timeOf, BoundedMap.lookup_getD_update_room hroom]
    · have hne := ne_procId hp cpu
      rcases hs : m.start.lookup (procId prev.pid cpu) with _ | start
      · simp [closePrev, ht, hs, hp]
      · rcases hl : m.total.lookup (procId prev.pid cpu) with _ | total <;>
          simp [closePrev, ht, hs, hl, hp, hne, Maps.timeOf, BoundedMap.lookup_getD_update_room hroom]
  · simp [closePrev, ht]

theorem timeOf_openNext (pid : Int32) : (openNext o next cpu rd m).timeOf pid = m.timeOf pid := by
  unfold openNext
  split <;> rfl

theorem lookup_openNext (hroom : m.start.HasRoom (procId next.pid cpu)) (pd : ProcId) :
    ((openNext o next cpu rd m).start.lookup pd).map (·.time) =
      if pd = procId next.pid cpu ∧ o.traces next.pid next.tgid cpu then some rd.opened
      else (m.start.lookup pd).map (·.time) := by
  by_cases ht : o.traces next.pid next.tgid cpu
  · simp only [openNext, ht, if_true, BoundedMap.lookup_getD_update_room hroom, and_true]
    split <;> rfl
  · simp [openNext, ht]

/-! ## The steps -/

/-- The `start` entry of a task that runs and is traced is that of its switch-in, if it was seen. -/
def Inv (o : Options) (s : St n) : Prop :=
  ∀ cpu, (s.current cpu).task.pid ≠ 0 →
    o.traces (s.current cpu).task.pid (s.current cpu).task.tgid (Int32.ofNat cpu) →
      (s.maps.start.lookup ⟨(s.current cpu).task.pid, 0⟩).map (·.time) = (s.current cpu).since

theorem inv_init (tasks : Fin n → Task) : Inv o (init tasks) := fun _ _ _ => by simp [init, Maps.empty]

theorem Inv.step {s t : St n} (e : Switch n) (h : Inv o s) (hs : step o e s = some t) : Inv o t := by
  simp only [ResourceImage.step, Option.ite_none_right_eq_some, Option.some.injEq] at hs
  obtain ⟨hp, rfl⟩ := hs
  intro cpu hpid ht
  have hroom : (closePrev o (e.prev s).task e.cpuId e.rd s.maps).start.HasRoom (procId e.next.pid e.cpuId) := by
    rw [start_closePrev]
    exact hp.start
  simp only [finishTaskSwitch, lookup_openNext hroom, start_closePrev]
  dsimp only at hpid ht
  by_cases hc : cpu = e.cpu
  · subst hc
    rw [Function.update_self] at hpid ht ⊢
    rw [if_pos ⟨(procId_of_ne hpid _).symm, ht⟩]
  · rw [Function.update_of_ne hc] at hpid ht ⊢
    have hne : (⟨(s.current cpu).task.pid, 0⟩ : ProcId) ≠ procId e.next.pid e.cpuId := by
      by_cases hnext : e.next.pid = 0
      · exact ne_procId (hnext ▸ hpid) _
      · exact ne_procId (hp.enters hnext cpu) _
    rw [if_neg fun hkey => hne hkey.1]
    exact h cpu hpid ht

theorem Inv.right {s t : St n} (e : Switch n) (h : Inv o s) (hright : Right s)
    (hs : ResourceImage.step o e s = some t) : Right t := by
  simp only [ResourceImage.step, Option.ite_none_right_eq_some, Option.some.injEq] at hs
  obtain ⟨hp, rfl⟩ := hs
  intro pid hpid
  simp only [finishTaskSwitch, timeOf_openNext, timeOf_closePrev hp.total pid hpid]
  by_cases hprev : pid = (e.prev s).task.pid
  · subst hprev
    rw [Function.update_self, totalLength_append, ← hright _ hpid, Switch.spans]
    by_cases ht : o.traces (e.prev s).task.pid (e.prev s).task.tgid e.cpuId
    · have hstart : (s.maps.start.lookup ⟨(e.prev s).task.pid, 0⟩).map (·.time) = (e.prev s).since :=
        h e.cpu hpid ht
      rw [if_pos ⟨rfl, ht⟩, if_pos ht]
      rcases hl : s.maps.start.lookup ⟨(e.prev s).task.pid, 0⟩ with _ | start
      · rw [← hstart, hl]
        simp
      · rw [← hstart, hl]
        simp [Span.length, UInt64.add_comm]
    · simp [ht]
  · rw [if_neg fun hc => hprev hc.1, Function.update_of_ne hprev]
    exact hright pid hpid

/-- The time of each task is that of its spans, in every run. -/
theorem task_times_right {tasks : Fin n → Task} {s : St n} (h : Run (step o) anyEvent (init tasks) s) : Right s :=
  (h.inv (P := fun s => Inv o s ∧ Right s) ⟨inv_init tasks, fun _ _ => rfl⟩
    fun e _ _ hi _ hs => ⟨hi.1.step e hs, hi.1.right e hi.2 hs⟩).2

/-! ## Two CPUs, and all tasks -/

def allTasks : Options := ⟨-1, -1, -1⟩

def idleTask : Task := ⟨0, 0, false, nofun⟩

def kernelThread (pid : Int32) : Task := ⟨pid, pid, false, nofun⟩

def userTask (pid : Int32) (h : pid ≠ 0) : Task := ⟨pid, pid, true, fun _ => h⟩

def cpu0 : Fin 2 := ⟨0, Nat.zero_lt_two⟩

def cpu1 : Fin 2 := ⟨1, Nat.one_lt_two⟩

/-- A switch to `next` at two readings of the clock. -/
def switchTo (cpu : Fin 2) (next : Task) (rss : Rss) (closed opened : UInt64) : Switch 2 :=
  ⟨cpu, next, ⟨closed, opened, rss, ⟨0, 0⟩, ⟨0, 0⟩⟩⟩

def a : Task := userTask 7 (by decide)

def b : Task := userTask 8 (by decide)

/-- Task 7 runs on one CPU, which is idle in between, and then on the other, where a kernel thread
    has run. -/
def movingTask : List (Switch 2) :=
  [switchTo cpu0 a ⟨1, 2, 3⟩ 0 1, switchTo cpu1 (kernelThread 9) ⟨0, 0, 0⟩ 2 3,
    switchTo cpu0 idleTask ⟨1, 2, 3⟩ 5 6, switchTo cpu0 a ⟨0, 0, 0⟩ 20 21, switchTo cpu0 b ⟨1, 2, 3⟩ 30 31,
    switchTo cpu1 a ⟨0, 0, 0⟩ 40 41, switchTo cpu1 idleTask ⟨1, 2, 3⟩ 50 51]

theorem a_moving_task_is_right : ∃ s : St 2,
    Run (step allTasks) anyEvent (init fun cpu => if cpu = cpu0 then b else idleTask) s ∧
      s.maps.timeOf 7 = 22 ∧ s.done 7 = [⟨41, 50⟩, ⟨21, 30⟩, ⟨1, 5⟩] ∧ Right s := by
  obtain ⟨s, hr, hs⟩ := run_of_exec_any (step allTasks)
    (init fun cpu : Fin 2 => if cpu = cpu0 then b else idleTask) movingTask
    (fun s => s.maps.timeOf 7 == 22 && s.done 7 == [⟨41, 50⟩, ⟨21, 30⟩, ⟨1, 5⟩]) (by decide +kernel)
  simp only [Bool.and_eq_true, beq_iff_eq] at hs
  exact ⟨s, hr, hs.1, hs.2, task_times_right hr⟩

end Ksight.ProcImage.ResourceImage

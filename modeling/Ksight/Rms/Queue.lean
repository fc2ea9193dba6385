/-
  Ksight.Rms.Queue — the ready queues of the CPUs
  (src/process/sched_ext_rms/bpf/scx_rms.bpf.c: `struct task_queue`, `cpu_queue_push`,
  `cpu_queue_pop`).

  `cpu_queues` is an array of MAX_CPU_NR queues: the lookup of any other index fails, and
  so do push and pop. A push or a pop holds the queue's spin lock throughout, so each is
  one step here. `queued` is the list of pids in a CPU's queue, oldest first.
-/

import Ksight.Lib.Ring
import Ksight.Rms.Maps

namespace Ksight.Rms

open Ksight.Lib

abbrev TaskQueue := Lib.Ring Pid

abbrev CpuQueues := Cpu → TaskQueue

def zeroQueue : TaskQueue := ⟨fun _ => 0, 0, 0⟩

def hasQueue (cpu : Cpu) : Bool := decide (0 ≤ cpu) && decide (cpu < maxCpuNr)

def cpuQueuePush (queues : CpuQueues) (cpu : Cpu) (pid : Pid) : Bool × CpuQueues :=
  if hasQueue cpu then
    match (queues cpu).push maxTaskNr pid with
    | some q => (true, Function.update queues cpu q)
    | none => (false, queues)
  else (false, queues)

def cpuQueuePop (queues : CpuQueues) (cpu : Cpu) : Option (Pid × CpuQueues) :=
  if hasQueue cpu then
    match (queues cpu).pop maxTaskNr with
    | some (pid, q) => some (pid, Function.update queues cpu q)
    | none => none
  else none

/-! ## The queues as lists -/

def queued (queues : CpuQueues) (cpu : Cpu) : List Pid := (queues cpu).contents maxTaskNr

/-- The indices of every queue are inside its array. -/
def QueuesWF (queues : CpuQueues) : Prop := ∀ cpu, (queues cpu).WF maxTaskNr

theorem zeroQueue_wf : QueuesWF fun _ => zeroQueue := fun _ =>
  ⟨(by decide : 0 < maxTaskNr), (by decide : 0 < maxTaskNr)⟩

variable {queues : CpuQueues}

/-- A push that is accepted appends to its CPU's queue; nothing else changes. -/
theorem push_spec (h : QueuesWF queues) (cpu : Cpu) (pid : Pid) :
    QueuesWF (cpuQueuePush queues cpu pid).2 ∧
      ∀ c, queued (cpuQueuePush queues cpu pid).2 c =
        if (cpuQueuePush queues cpu pid).1 = true ∧ c = cpu then queued queues c ++ [pid] else queued queues c := by
  unfold cpuQueuePush
  split
  · split
    · rename_i q hq
      constructor
      · intro c
        by_cases hc : c = cpu
        · subst hc
          simpa using Ring.push_wf (h c) hq
        · simpa [hc] using h c
      · intro c
        by_cases hc : c = cpu
        · subst hc
          simpa [queued] using Ring.contents_push (h c) hq
        · simp [queued, hc]
    · exact ⟨h, fun _ => by simp⟩
  · exact ⟨h, fun _ => by simp⟩

theorem push_queued (h : QueuesWF queues) (cpu : Cpu) (pid : Pid) :
    QueuesWF (cpuQueuePush queues cpu pid).2 ∧
      ∀ c, queued (cpuQueuePush queues cpu pid).2 c = queued queues c ∨
      c = cpu ∧ queued (cpuQueuePush queues cpu pid).2 c = queued queues c ++ [pid] := by
  obtain ⟨hwf, hq⟩ := push_spec h cpu pid
  refine ⟨hwf, fun c => ?_⟩
  rw [hq]
  split
  · rename_i hc
    exact .inr ⟨hc.2, rfl⟩
  · exact .inl rfl

theorem push_refused (h : QueuesWF queues) {cpu : Cpu} (hc : hasQueue cpu = true) (pid : Pid) :
    (cpuQueuePush queues cpu pid).1 = false ↔ (queued queues cpu).length = maxTaskNr - 1 := by
  unfold cpuQueuePush
  rw [if_pos hc, queued, ← Ring.push_eq_none (h cpu) pid]
  split <;> simp_all

theorem push_unchanged (cpu : Cpu) (pid : Pid) (h : (cpuQueuePush queues cpu pid).1 = false) :
    (cpuQueuePush queues cpu pid).2 = queues := by
  unfold cpuQueuePush at h ⊢
  split
  · rename_i hc
    rw [if_pos hc] at h
    split
    · rename_i q hq
      simp [hq] at h
    · rfl
  · rfl

theorem pop_eq_none (h : QueuesWF queues) {cpu : Cpu} (hc : hasQueue cpu = true) :
    cpuQueuePop queues cpu = none ↔ queued queues cpu = [] := by
  unfold cpuQueuePop
  rw [if_pos hc, queued, ← Ring.pop_eq_none (h cpu)]
  split <;> simp_all

/-- A pop takes the head of its CPU's queue and leaves the others alone. -/
theorem pop_queued (h : QueuesWF queues) {cpu : Cpu} {pid : Pid} {queues' : CpuQueues}
    (hp : cpuQueuePop queues cpu = some (pid, queues')) :
    QueuesWF queues' ∧ hasQueue cpu = true ∧ queued queues cpu = pid :: queued queues' cpu ∧
      ∀ c, c ≠ cpu → queued queues' c = queued queues c := by
  unfold cpuQueuePop at hp
  split at hp
  · rename_i hc
    split at hp
    · rename_i p q hq
      cases hp
      refine ⟨?_, hc, ?_, fun c hne => by simp [queued, hne]⟩
      · intro c
        by_cases hne : c = cpu
        · subst hne
          simpa using Ring.pop_wf (h c) hq
        · simpa [hne] using h c
      · simpa [queued] using Ring.contents_pop (h cpu) hq
    · cases hp
  · cases hp

theorem length_queued_lt (h : QueuesWF queues) (cpu : Cpu) : (queued queues cpu).length < maxTaskNr :=
  Ring.length_contents_lt (h cpu)

end Ksight.Rms

/-
  Ksight.Rms.Fifo — the ready queues over runs
  (src/process/sched_ext_rms/bpf/scx_rms.bpf.c: `cpu_queue_push`, `cpu_queue_pop`).

  Pushes and pops come in any order, on any CPUs, from the zero-initialised queues.
  `accepted` and `popped` are the pids each CPU's queue has taken and given, in order.

  The law (`Law`): a CPU's queue has given the first of the pids it has taken; it refuses a
  push if and only if it holds MAX_TASK_NR - 1 of them and a pop if and only if it holds
  none. `bounded_fifo`: the law holds of every CPU in every run. The invariant is that what
  a queue holds is the list its cells stand for (`queued`).
-/

import Ksight.Lib.Run
import Ksight.Rms.Queue

namespace Ksight.Rms.Fifo

open Ksight.Lib

inductive Op where
  | push (cpu : Cpu) (pid : Pid)
  | pop (cpu : Cpu)

structure St where
  queues : CpuQueues
  accepted : Cpu → List Pid
  popped : Cpu → List Pid

def init : St := ⟨fun _ => zeroQueue, fun _ => [], fun _ => []⟩

def append (log : Cpu → List Pid) (cpu : Cpu) (pid : Pid) : Cpu → List Pid :=
  Function.update log cpu (log cpu ++ [pid])

def step : Op → St → Option St
  | .push cpu pid, s =>
    let r := cpuQueuePush s.queues cpu pid
    some { s with queues := r.2, accepted := if r.1 then append s.accepted cpu pid else s.accepted }
  | .pop cpu, s =>
    match cpuQueuePop s.queues cpu with
    | some (pid, queues) => some { s with queues, popped := append s.popped cpu pid }
    | none => some s

/-! ## The law -/

structure Law (s : St) (cpu : Cpu) : Prop where
  head : (s.queues cpu).head < maxTaskNr
  tail : (s.queues cpu).tail < maxTaskNr
  inOrder : s.popped cpu <+: s.accepted cpu
  pushRefused : ∀ pid, (cpuQueuePush s.queues cpu pid).1 = false ↔
    (s.accepted cpu).length = (s.popped cpu).length + (maxTaskNr - 1)
  pushUnchanged : ∀ pid, (cpuQueuePush s.queues cpu pid).1 = false →
    (cpuQueuePush s.queues cpu pid).2 = s.queues
  popRefused : cpuQueuePop s.queues cpu = none ↔ s.popped cpu = s.accepted cpu
  /-- A pop gives the oldest of the pids that have not been given yet. -/
  popNext : ∀ pid queues, cpuQueuePop s.queues cpu = some (pid, queues) →
    s.popped cpu ++ [pid] <+: s.accepted cpu

structure Inv (s : St) : Prop where
  wf : QueuesWF s.queues
  holds : ∀ cpu, s.accepted cpu = s.popped cpu ++ queued s.queues cpu

theorem init_inv : Inv init where
  wf := zeroQueue_wf
  holds _ := by simp [init, queued, Ring.contents, Ring.size, zeroQueue]

theorem step_inv {op : Op} {s s' : St} (hi : Inv s) (h : step op s = some s') : Inv s' := by
  cases op with
  | push cpu pid =>
    cases h
    obtain ⟨hwf, hq⟩ := push_spec hi.wf cpu pid
    refine ⟨hwf, fun c => ?_⟩
    dsimp only
    rcases hb : (cpuQueuePush s.queues cpu pid).1 with _ | _
    · rw [hq, hb]
      simpa using hi.holds c
    · rw [hq, hb]
      by_cases hc : c = cpu
      · subst hc
        simp [append, hi.holds c]
      · simpa [append, hc] using hi.holds c
  | pop cpu =>
    rcases hp : cpuQueuePop s.queues cpu with _ | ⟨pid, queues⟩
    · simp only [step, hp, Option.some.injEq] at h
      subst h
      exact hi
    · simp only [step, hp, Option.some.injEq] at h
      subst h
      obtain ⟨hwf, -, hq, hne⟩ := pop_queued hi.wf hp
      refine ⟨hwf, fun c => ?_⟩
      by_cases hc : c = cpu
      · subst hc
        simp [append, hi.holds c, hq]
      · simpa [append, hc, hne c hc] using hi.holds c

theorem Inv.law {s : St} (hi : Inv s) {cpu : Cpu} (hc : hasQueue cpu = true) : Law s cpu where
  head := (hi.wf cpu).1
  tail := (hi.wf cpu).2
  inOrder := ⟨_, (hi.holds cpu).symm⟩
  pushRefused pid := by
    rw [push_refused hi.wf hc, hi.holds cpu, List.length_append]
    omega
  pushUnchanged pid := push_unchanged cpu pid
  popRefused := by
    rw [pop_eq_none hi.wf hc, hi.holds cpu]
    exact List.self_eq_append_right.symm
  popNext pid queues hp := by
    obtain ⟨-, -, hq, -⟩ := pop_queued hi.wf hp
    exact ⟨queued queues cpu, by rw [hi.holds cpu, hq, List.append_assoc]; rfl⟩

theorem bounded_fifo {s : St} (hr : Run step anyEvent init s) {cpu : Cpu} (h0 : 0 ≤ cpu) (h : cpu < maxCpuNr) :
    Law s cpu :=
  (hr.inv init_inv fun _ _ _ hi _ hs => step_inv hi hs).law (by simp [hasQueue, h0, h])

/-- Two pids of CPU 3, one of which has been popped. -/
theorem two_pushes_and_a_pop :
    ∃ s, Run step anyEvent init s ∧ s.accepted 3 = [7, 8] ∧ s.popped 3 = [7] ∧ Law s 3 := by
  obtain ⟨s, hr, hs⟩ := run_of_exec_any step init [.push 3 7, .push 5 9, .push 3 8, .pop 3]
    (fun s => decide (s.accepted 3 = [7, 8] ∧ s.popped 3 = [7])) (by decide +kernel)
  obtain ⟨ha, hp⟩ := of_decide_eq_true hs
  exact ⟨s, hr, ha, hp, bounded_fifo hr (by decide) (by decide)⟩

end Ksight.Rms.Fifo

/-
  Ksight.Rms.Kernel — the kernel around the scheduler: which callback is issued when.

  Tasks fork, register, change their policy and their affinity, sleep, wake, run, yield,
  die and are reaped, timers expire, and time passes; each of these is an event with the
  callback the kernel issues for it. An event can be taken when the kernel can issue it:
  a task is taken off its CPU and out of every queue before its policy or its affinity
  changes, only a running task registers, yields or dies, a dead task is stopped once more
  and reaped afterwards, and a CPU dispatches when its local queue is empty. A task
  registers itself (librms uses `gettid`), with the parameters `check_rms_params` lets
  through. A timer expires no earlier than the time it is armed for.

  `lags` are the times that pass before each clock reading of a handler, `[]` for a
  handler that takes no time. Nothing happens after `scx_bpf_error`.
-/

import Mathlib.Algebra.Ring.Nat
import Ksight.Rms.Sched

namespace Ksight.Rms

open Ksight.Lib

structure Config where
  features : Features
  userschedPid : Pid

inductive Ev where
  | tick (d : Nat)
  | fork (pid : Pid) (policy : Nat) (cpumask : Finset Cpu) (cpu : Cpu)
  | register (pid : Pid) (cpu : Cpu) (budget period : UInt64)
  | setscheduler (pid : Pid) (policy : Nat) (lags : List Nat)
  | die (pid : Pid)
  | reap (pid : Pid) (lags : List Nat)
  /-- A wakeup of the task. -/
  | selectCpu (pid : Pid) (anyCpu : Cpu)
  | migrate (pid : Pid) (cpu : Cpu)
  | enqueue (pid : Pid) (curCpu : Cpu)
  | dequeue (pid : Pid)
  | dispatch (cpu : Cpu) (lags : List Nat)
  | running (pid : Pid) (lags : List Nat)
  | stopping (pid : Pid) (runnable : Bool) (lags : List Nat)
  | yield (pid : Pid) (lags : List Nat)
  | setCpumask (pid : Pid) (cpumask : Finset Cpu) (lags : List Nat)
  /-- A timer of `budget_timer_hmap` expires on a CPU. -/
  | budgetExpiry (pid : Pid) (cpu : Cpu) (lags : List Nat)
  | periodExpiry (pid : Pid) (lags : List Nat)

def clkOf (now : Nat) (lags : List Nat) (i : Nat) : UInt64 := .ofNat (now + (lags.take (i + 1)).sum)

/-- The time a handler takes. -/
def spend (lags : List Nat) (s : St) : St := { s with now := s.now + lags.sum }

def lastsTo (lags : List Nat) (s : St) : Prop := s.now + lags.sum < 2 ^ 64

instance (lags : List Nat) (s : St) : Decidable (lastsTo lags s) := inferInstanceAs (Decidable (_ < _))

def isLive (t : Task) : Prop := t.state ≠ taskDead

instance (t : Task) : Decidable (isLive t) := inferInstanceAs (Decidable (_ ≠ _))

/-- The task is executing: on a CPU of the scheduler's, or under another policy. -/
def isExecuting (t : Task) : Prop := t.pos = .on ∨ t.policy ≠ schedExt

instance (t : Task) : Decidable (isExecuting t) := inferInstanceAs (Decidable (_ ∨ _))

def expired (now : Nat) (index : UInt64) (timer : RmsTimer) : Prop :=
  timer.callbackIndex = index ∧ ∃ e ∈ timer.t, e.toNat ≤ now

instance (now : Nat) (index : UInt64) (timer : RmsTimer) : Decidable (expired now index timer) :=
  match h : timer.t with
  | none => isFalse fun ⟨_, e, he, _⟩ => by simp [h] at he
  | some e => decidable_of_iff (timer.callbackIndex = index ∧ e.toNat ≤ now) (by simp [expired, h])

/-- The event of a task that exists, when `p` allows it. -/
def onTask (s : St) (pid : Pid) (p : Task → Prop) [DecidablePred p] (k : Task → St) : Option St :=
  match s.tasks pid with
  | some t => if p t then some (k t) else none
  | none => none

variable (cfg : Config)

/-- A task that enters SCHED_EXT has its affinity reported; one that leaves it is disabled
    when its policy is another already. -/
def setscheduler (clk : Nat → UInt64) (pid : Pid) (policy : Nat) (t : Task) (s : St) : St :=
  let t' := { t with policy := policy }
  let s' := setTask pid t' s
  if t.policy ≠ schedExt ∧ policy = schedExt then
    rmsSetCpumask cfg.features cfg.userschedPid clk pid t' t.cpusPtr s'
  else if t.policy = schedExt ∧ policy ≠ schedExt then rmsDisable clk pid t' s'
  else s'

theorem setscheduler_quiet (clk : Nat → UInt64) (pid : Pid) (policy : Nat) (t : Task) (s : St) :
    Quiet (setTask pid { t with policy := policy } s) (setscheduler cfg clk pid policy t s) := by
  unfold setscheduler
  simp only
  split
  · exact (rmsSetCpumask_maps ..).quiet
  · split
    · exact (rmsDisable_maps ..).quiet
    · exact .refl _

def act : Ev → St → Option St
  | .tick d, s => if s.now + d < 2 ^ 64 then some { s with now := s.now + d } else none
  | .fork pid policy cpumask cpu, s =>
    if s.tasks pid = none then some (setTask pid ⟨policy, taskRunning, cpumask, cpu, .off⟩ s) else none
  | .register pid cpu budget period, s =>
    onTask s pid (fun t => isLive t ∧ isExecuting t ∧ 0 ≤ cpu ∧ cpu < 24 ∧ budget ≠ 0 ∧ period ≠ 0) fun _ =>
      { s with maps := { s.maps with
        taskAttr := (s.maps.taskAttr.update pid ⟨cpu, budget, period, 0, 0⟩).getD s.maps.taskAttr } }
  | .setscheduler pid policy lags, s =>
    onTask s pid (fun t => isLive t ∧ t.pos = .off ∧ lastsTo lags s) fun t =>
      spend lags (setscheduler cfg (clkOf s.now lags) pid policy t s)
  | .die pid, s =>
    onTask s pid (fun t => isLive t ∧ isExecuting t) fun t => setTask pid { t with state := taskDead } s
  | .reap pid lags, s =>
    onTask s pid (fun t => ¬ isLive t ∧ t.pos = .off ∧ lastsTo lags s) fun t =>
      let s := rmsDisable (clkOf s.now lags) pid t s
      spend lags { s with tasks := Function.update s.tasks pid none }
  | .selectCpu pid anyCpu, s =>
    onTask s pid (fun t => isLive t ∧ t.policy = schedExt ∧ t.pos = .off ∧ anyCpu ∈ t.cpusPtr) fun t =>
      setTask pid { t with cpu := rmsSelectCpu t t.cpu anyCpu } s
  | .migrate pid cpu, s =>
    onTask s pid (fun t => isLive t ∧ t.pos = .off ∧ cpu ∈ t.cpusPtr) fun t =>
      setTask pid { t with cpu := cpu } s
  | .enqueue pid curCpu, s =>
    onTask s pid (fun t => isLive t ∧ t.policy = schedExt ∧ t.pos = .off) fun t =>
      rmsEnqueue cfg.userschedPid curCpu pid t (setTask pid { t with pos := .held } s)
  | .dequeue pid, s =>
    onTask s pid (fun t => t.pos = .held ∨ t.pos = .queued) fun t =>
      setTask pid { t with pos := .off } (unqueue pid s)
  | .dispatch cpu lags, s =>
    if s.localDsq cpu = [] ∧ lastsTo lags s then
      some (spend lags (rmsDispatch cfg.features (clkOf s.now lags) cpu s))
    else none
  | .running pid lags, s =>
    onTask s pid
      (fun t => isLive t ∧ t.policy = schedExt ∧ t.pos ≠ .on ∧ s.curr t.cpu = none ∧ lastsTo lags s) fun t =>
      let s := { unqueue pid s with curr := Function.update s.curr t.cpu (some pid) }
      spend lags (rmsRunning cfg.features (clkOf s.now lags) pid (setTask pid { t with pos := .on } s))
  | .stopping pid runnable lags, s =>
    onTask s pid (fun t => t.pos = .on ∧ (isLive t ∨ runnable = false) ∧ lastsTo lags s) fun t =>
      spend lags (rmsStopping (clkOf s.now lags) pid t runnable
        { setTask pid { t with pos := .off } s with
          curr := Function.update s.curr t.cpu none
          resched := s.resched.erase t.cpu })
  | .yield pid lags, s =>
    onTask s pid (fun t => isLive t ∧ t.pos = .on ∧ lastsTo lags s) fun t =>
      spend lags
        (rmsYield cfg.userschedPid (clkOf s.now lags) pid t { s with resched := insert t.cpu s.resched })
  | .setCpumask pid cpumask lags, s =>
    onTask s pid (fun t => isLive t ∧ t.pos = .off ∧ lastsTo lags s) fun t =>
      let t' := { t with cpusPtr := cpumask }
      spend lags
        (rmsSetCpumask cfg.features cfg.userschedPid (clkOf s.now lags) pid t' cpumask (setTask pid t' s))
  | .budgetExpiry pid cpu lags, s =>
    match s.maps.budgetTimer.lookup pid with
    | some timer =>
      if expired s.now budgetCallback timer ∧ lastsTo lags s then
        some (spend lags (rmsCallbackBudget cfg.features (clkOf s.now lags) pid cpu
          (setBudget pid (fun timer => { timer with t := none }) s)))
      else none
    | none => none
  | .periodExpiry pid lags, s =>
    match s.maps.schedTimer.lookup pid with
    | some timer =>
      if expired s.now periodCallback timer ∧ lastsTo lags s then
        some (spend lags (rmsCallbackPeriod (clkOf s.now lags) pid
          (setSched pid (fun timer => { timer with t := none }) s)))
      else none
    | none => none

def step (e : Ev) (s : St) : Option St := if s.error = none then act cfg e s else none

/-! ## A small system -/

/-- The user-space scheduler is task 1, and there is no FEATURE_BUDGET_OVERRUN. -/
def config (migration : Bool) : Config := ⟨⟨migration, false⟩, 1⟩

/-- A task of CPU 3 registers and enters SCHED_EXT. -/
def enrolled (pid : Pid) (budget period : UInt64) : List Ev :=
  [.fork pid 0 {3} 3, .register pid 3 budget period, .setscheduler pid schedExt []]

end Ksight.Rms

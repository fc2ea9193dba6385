/-
  Ksight.Rms.Maps — the scheduler's per-task maps and its timers
  (src/process/sched_ext_rms/bpf/scx_rms.bpf.c: `struct rms_timer` to `refresh_timer`,
  `exit_rms_task`, `rms_timer_start`).

  A registered task has an entry in `task_attr_hmap` (written by librms) and, once its
  first `set_cpumask` ran, a budget timer and a period timer. `t` stands for the kernel's
  `struct bpf_timer`: the absolute time the timer is armed for, `none` while it is not.

  A `bpf_timer_cancel` fails (-EDEADLK) from the callback of the very timer it cancels
  and nowhere else; `own` says that it is called there. Every `rms_get_timestamp` a
  handler makes is one reading `clk i` of the clock, so that time may pass inside a
  handler.
-/

import Ksight.Lib.BoundedMap

namespace Ksight.Rms

open Ksight.Lib

abbrev Pid := Nat
abbrev Cpu := Int

def schedExt : Nat := 7
def taskRunning : Nat := 0
def taskDead : Nat := 0x80

def budgetCallback : UInt64 := 0
def periodCallback : UInt64 := 1

def maxTaskNr : Nat := 2048
def maxCpuNr : Cpu := 32

structure TaskAttr where
  cpu : Cpu
  budget : UInt64
  period : UInt64
  isYield : UInt64
  /-- Read and written only under FEATURE_MIGRATION. -/
  isMigrate : UInt64
  deriving DecidableEq

structure RmsTimer where
  t : Option UInt64
  periodicTime : UInt64
  remainTime : UInt64
  expireTime : UInt64
  pending : UInt64
  callbackIndex : UInt64
  arg : Pid
  deriving DecidableEq

def emptyTimer : RmsTimer := ⟨none, 0, 0, 0, 0, 0, 0⟩

structure Maps where
  taskAttr : BoundedMap Pid TaskAttr maxTaskNr
  budgetTimer : BoundedMap Pid RmsTimer maxTaskNr
  schedTimer : BoundedMap Pid RmsTimer maxTaskNr

def Maps.empty : Maps := ⟨.empty, .empty, .empty⟩

/-! ## Timers -/

/-- The fresh map entry keeps its zero `expire_time`. -/
def rmsTimerInit (timer : RmsTimer) : RmsTimer :=
  { timer with t := none, periodicTime := 0, remainTime := 0, pending := 0, callbackIndex := 0, arg := 0 }

def rmsTimerCancel (own : Bool) (now : UInt64) (timer : RmsTimer) : RmsTimer × Int :=
  let timer := { timer with periodicTime := 0 }
  if own then (timer, -1)
  else
    ({ timer with t := none, pending := 0,
                  remainTime := if timer.expireTime ≥ now then timer.expireTime - now else 0 }, 0)

inductive SetRemainMode where
  | remain
  | abs
  deriving DecidableEq

def rmsTimerSetRemain (timer : RmsTimer) (tim : UInt64) : SetRemainMode → RmsTimer
  | .remain => { timer with remainTime := tim }
  | .abs => { timer with remainTime := if timer.expireTime ≥ tim then timer.expireTime - tim else 0 }

def rmsTimerGetRemain (now : UInt64) (timer : RmsTimer) : UInt64 :=
  if timer.pending = 0 then timer.remainTime
  else if timer.expireTime > now then timer.expireTime - now else 0

def refreshTimer (timer : RmsTimer) : RmsTimer :=
  if timer.periodicTime > 0 then
    { timer with
      expireTime := timer.expireTime + timer.periodicTime
      remainTime := timer.periodicTime
      pending := 1
      t := some (timer.expireTime + timer.periodicTime) }
  else timer

/-- `now₀` is the reading of the cancel, `now₁` the one `tim` is compared with. A failed
    cancel is only logged. -/
def rmsTimerStart (own : Bool) (now₀ now₁ : UInt64) (timer : RmsTimer) (tim periodTim index : UInt64)
    (arg : Pid) :
    RmsTimer :=
  let timer := if timer.pending ≠ 0 then (rmsTimerCancel own now₀ timer).1 else timer
  { timer with periodicTime := periodTim, expireTime := tim, remainTime := tim - now₁, callbackIndex := index,
               arg := arg, pending := 1, t := some tim }

/-- A start leaves nothing of the timer's earlier state. -/
theorem rmsTimerStart_eq (own : Bool) (now₀ now₁ : UInt64) (timer : RmsTimer)
    (tim periodTim index : UInt64) (arg : Pid) :
    rmsTimerStart own now₀ now₁ timer tim periodTim index arg =
      ⟨some tim, periodTim, tim - now₁, tim, 1, index, arg⟩ := by
  unfold rmsTimerStart rmsTimerCancel
  split
  · cases own <;> rfl
  · rfl

@[simp] theorem rmsTimerCancel_free (now : UInt64) (timer : RmsTimer) :
    (rmsTimerCancel false now timer).2 = 0 := rfl

@[simp] theorem rmsTimerCancel_own (now : UInt64) (timer : RmsTimer) :
    rmsTimerCancel true now timer = ({ timer with periodicTime := 0 }, -1) := rfl

theorem refreshTimer_armed {timer : RmsTimer} (h : 0 < timer.periodicTime) :
    (refreshTimer timer).t ≠ none := by
  simp [refreshTimer, h]

theorem refreshTimer_once {t : RmsTimer} (h : t.periodicTime = 0) : refreshTimer t = t := by
  simp [refreshTimer, h]

/-! ## Exit -/

inductive TimerMap where
  | budget
  | sched
  deriving DecidableEq

/-- The timer whose callback is running, if one is. -/
abbrev TimerCtx := Option (TimerMap × Pid)

/-- Cancel the timer of `pid` and delete its entry; `false` when the cancel failed, which
    has cleared `periodic_time` by then. -/
def dropTimer (own : Bool) (now : UInt64) (pid : Pid) (m : BoundedMap Pid RmsTimer maxTaskNr) :
    BoundedMap Pid RmsTimer maxTaskNr × Bool :=
  match m.lookup pid with
  | none => (m, true)
  | some timer =>
    let r := rmsTimerCancel own now timer
    if r.2 ≠ 0 then (m.modify pid fun _ => r.1, false) else (m.delete pid, true)

def exitRmsTask (ctx : TimerCtx) (clk : Nat → UInt64) (pid : Pid) (m : Maps) : Maps :=
  let s := dropTimer (ctx == some (.sched, pid)) (clk 0) pid m.schedTimer
  if !s.2 then { m with schedTimer := s.1 }
  else
    let b := dropTimer (ctx == some (.budget, pid)) (clk 1) pid m.budgetTimer
    if !b.2 then { m with schedTimer := s.1, budgetTimer := b.1 }
    else { taskAttr := m.taskAttr.delete pid, budgetTimer := b.1, schedTimer := s.1 }

theorem dropTimer_free (now : UInt64) (pid : Pid) (m : BoundedMap Pid RmsTimer maxTaskNr) :
    dropTimer false now pid m = (m.delete pid, true) := by
  unfold dropTimer
  split
  · rename_i h
    refine Prod.ext (BoundedMap.ext ?_) rfl
    intro k
    rw [BoundedMap.lookup_delete]
    split
    · subst k; exact h
    · rfl
  · rfl

/-- Outside timer callbacks the exit takes all three entries of the task and nothing else. -/
theorem exitRmsTask_free (clk : Nat → UInt64) (pid : Pid) (m : Maps) :
    exitRmsTask none clk pid m =
      ⟨m.taskAttr.delete pid, m.budgetTimer.delete pid, m.schedTimer.delete pid⟩ := by
  have h : ∀ x : TimerMap × Pid, ((none : TimerCtx) == some x) = false := fun _ => rfl
  simp only [exitRmsTask, h, dropTimer_free, Bool.not_true, Bool.false_eq_true, if_false]

/-- From the period callback of a task the exit of that task fails at its first cancel:
    the period timer has lost its period and every entry stays. -/
theorem exitRmsTask_own (clk : Nat → UInt64) {pid : Pid} {m : Maps} {timer : RmsTimer}
    (h : m.schedTimer.lookup pid = some timer) :
    exitRmsTask (some (.sched, pid)) clk pid m =
      { m with schedTimer := m.schedTimer.modify pid fun _ => { timer with periodicTime := 0 } } := by
  have hb : (some (TimerMap.sched, pid) == some (TimerMap.sched, pid)) = true := by simp
  simp [exitRmsTask, dropTimer, h]

end Ksight.Rms

/-
  Ksight.Rms.ExitTask — what `exit_rms_task` leaves of a task
  (src/process/sched_ext_rms/bpf/scx_rms.bpf.c: `exit_rms_task` and its callers).

  It is called by `rms_stopping` of a dead task, by `rms_disable`, and by
  `rms_callback_period` where the task has gone (`ExitCall`). The last is the callback of
  the very timer that is cancelled first: the cancel fails, after it has cleared
  `periodic_time`.

  The law (`AllOrNothing`): the task's three entries are gone and no timer of it is armed,
  or the entries are as they were. `exit_iff`: in every reachable state the law holds of a
  call if and only if it is not the callback's. A task that leaves SCHED_EXT keeps its
  timers, so the callback's call happens (`a_leaver_is_left_half_removed`): its entries
  stay, with a period timer that is not armed and has no period.
-/

import Ksight.Rms.Step

namespace Ksight.Rms.ExitTask

open Ksight.Lib

/-- The callback finds that the task has left SCHED_EXT, or has no entry any more. -/
def Gone (s : St) (pid : Pid) : Prop :=
  (∀ t ∈ s.tasks pid, t.policy ≠ schedExt) ∨ s.maps.taskAttr.lookup pid = none ∨
    s.maps.budgetTimer.lookup pid = none

/-- A call of `exit_rms_task` in state `s`: the callback it is made from, the task, and the
    maps it finds. -/
inductive ExitCall (s : St) : TimerCtx → Pid → Maps → Prop
  | stopping {pid : Pid} {t : Task} : s.tasks pid = some t → t.state = taskDead →
      ExitCall s none pid s.maps
  | disable {pid : Pid} {t : Task} : s.tasks pid = some t → t.policy = schedExt → ExitCall s none pid s.maps
  | period {key : Pid} {timer : RmsTimer} : s.maps.schedTimer.lookup key = some timer →
      expired s.now periodCallback timer → Gone s timer.arg →
      ExitCall s (some (.sched, key)) timer.arg (fireSched key s).maps

/-! ## The calls are those of the source -/

theorem rmsStopping_exit (clk : Nat → UInt64) (pid : Pid) {t : Task} (h : t.state = taskDead) (s : St) :
    (rmsStopping clk pid t false s).maps = exitRmsTask none clk pid s.maps := by
  simp [rmsStopping, h]

theorem rmsDisable_exit (clk : Nat → UInt64) (pid : Pid) {t : Task} (h : t.policy = schedExt) (s : St) :
    (rmsDisable clk pid t s).maps = exitRmsTask none clk pid s.maps := by
  simp [rmsDisable, h]

theorem rmsCallbackPeriod_exit (clk : Nat → UInt64) {key : Pid} {timer : RmsTimer} {s : St}
    (h : s.maps.schedTimer.lookup key = some timer) (hg : Gone s timer.arg) :
    (rmsCallbackPeriod clk key s).maps = exitRmsTask (some (.sched, key)) clk timer.arg s.maps := by
  unfold rmsCallbackPeriod
  simp only [h]
  rcases ht : s.tasks timer.arg with _ | t
  · rfl
  by_cases hp : t.policy = schedExt
  · simp only [hp, ne_eq, not_true_eq_false, if_false]
    rcases hg with hg | hg | hg
    · exact absurd hp (hg t ht)
    · simp [hg]
    · rcases s.maps.taskAttr.lookup timer.arg with _ | a <;> simp [hg]
  · simp [hp, scxError]

/-! ## The law -/

/-- No entry of the task is left, and no timer is armed for it. -/
structure Removed (pid : Pid) (m : Maps) : Prop where
  attr : m.taskAttr.lookup pid = none
  budget : m.budgetTimer.lookup pid = none
  sched : m.schedTimer.lookup pid = none
  budgetTimer : ∀ k, ∀ b ∈ m.budgetTimer.lookup k, b.arg = pid → b.t = none
  schedTimer : ∀ k, ∀ p ∈ m.schedTimer.lookup k, p.arg = pid → p.t = none

structure Unchanged (pid : Pid) (m m' : Maps) : Prop where
  attr : m'.taskAttr.lookup pid = m.taskAttr.lookup pid
  budget : m'.budgetTimer.lookup pid = m.budgetTimer.lookup pid
  sched : m'.schedTimer.lookup pid = m.schedTimer.lookup pid

def AllOrNothing (ctx : TimerCtx) (clk : Nat → UInt64) (pid : Pid) (m : Maps) : Prop :=
  Removed pid (exitRmsTask ctx clk pid m) ∨ Unchanged pid m (exitRmsTask ctx clk pid m)

variable {cfg : Config}

theorem run_base {s : St} (h : Run (step cfg) anyEvent init s) : Base s :=
  h.inv base_init fun _ _ _ hb _ hs => base_step hb hs

/-- Outside the timer callbacks the task is removed. -/
theorem removed_free {s : St} (hb : Base s) (clk : Nat → UInt64) (pid : Pid) :
    Removed pid (exitRmsTask none clk pid s.maps) := by
  rw [exitRmsTask_free]
  refine ⟨BoundedMap.lookup_delete_self .., BoundedMap.lookup_delete_self ..,
    BoundedMap.lookup_delete_self .., ?_, ?_⟩ <;> intro k timer h harg <;>
    rw [BoundedMap.lookup_delete] at h <;> split at h
  · cases h
  · rename_i hk
    by_contra ht
    exact hk ((((hb.2 k).budget timer h).1 ht).symm.trans harg)
  · cases h
  · rename_i hk
    by_contra ht
    exact hk (((hb.2 k).sched timer h ht).1.symm.trans harg)

/-- In the callback of the task's own timer the entries stay, and the timer loses its period. -/
theorem half_removed {clk : Nat → UInt64} {pid : Pid} {m : Maps} {timer : RmsTimer}
    (h : m.schedTimer.lookup pid = some timer) (hp : 0 < timer.periodicTime) :
    ¬ AllOrNothing (some (.sched, pid)) clk pid m := by
  rw [AllOrNothing, exitRmsTask_own clk h]
  rintro (hr | hu)
  · have := hr.sched
    simp [h] at this
  · have := hu.sched
    simp only [BoundedMap.lookup_modify_self, h, Option.map_some, Option.some.injEq] at this
    exact UInt64.pos_iff_ne_zero.mp hp (congrArg RmsTimer.periodicTime this).symm

/-- In every reachable state a call removes the task or changes nothing if and only if it is
    not made from the period callback. -/
theorem exit_iff {s : St} (hr : Run (step cfg) anyEvent init s) {ctx : TimerCtx} {pid : Pid} {m : Maps}
    (hc : ExitCall s ctx pid m) (clk : Nat → UInt64) : AllOrNothing ctx clk pid m ↔ ctx = none := by
  have hb := run_base hr
  cases hc with
  | stopping => exact iff_of_true (.inl (removed_free hb clk pid)) rfl
  | disable => exact iff_of_true (.inl (removed_free hb clk pid)) rfl
  | @period key timer hl he hg =>
    obtain ⟨harg, hp⟩ := (hb.2 key).sched timer hl (armed_of_expired he)
    refine iff_of_false ?_ nofun
    rw [harg]
    exact half_removed (lookup_fireSched hl) hp

/-! ## A dead task, and one that leaves SCHED_EXT -/

theorem a_dead_task_is_removed :
    ∃ s, Run (step (config false)) anyEvent init s ∧ s.maps.schedTimer.lookup 7 ≠ none ∧
      AllOrNothing none (clkOf s.now []) 7 s.maps := by
  obtain ⟨s, hr, hs⟩ := run_of_exec_any (step (config false)) init
    (enrolled 7 5 10 ++ [.selectCpu 7 3, .running 7 [], .die 7])
    (fun s => decide (s.maps.schedTimer.lookup 7 ≠ none ∧ ∃ t ∈ s.tasks 7, t.state = taskDead)) (by decide +kernel)
  obtain ⟨hl, t, ht, hd⟩ := of_decide_eq_true hs
  exact ⟨s, hr, hl, (exit_iff hr (.stopping ht hd) _).mpr rfl⟩

/-- Task 7 leaves SCHED_EXT, and its period timer expires. -/
theorem a_leaver_is_left_half_removed :
    ∃ s ctx pid m, Run (step (config false)) anyEvent init s ∧ ExitCall s ctx pid m ∧
      ¬ AllOrNothing ctx (clkOf s.now []) pid m := by
  obtain ⟨s, hr, hs⟩ := run_of_exec_any (step (config false)) init
    (enrolled 7 5 10 ++ [.setscheduler 7 0 [], .tick 10])
    (fun s => decide (∃ p ∈ s.maps.schedTimer.lookup 7, expired s.now periodCallback p ∧ p.arg = 7 ∧
      0 < p.periodicTime ∧ ∀ t ∈ s.tasks 7, t.policy ≠ schedExt)) (by decide +kernel)
  obtain ⟨p, hl, he, harg, hp, ht⟩ := of_decide_eq_true hs
  have hc := ExitCall.period hl he (.inl (harg ▸ ht))
  refine ⟨s, _, _, _, hr, hc, ?_⟩
  rw [harg]
  exact half_removed (lookup_fireSched hl) hp

end Ksight.Rms.ExitTask

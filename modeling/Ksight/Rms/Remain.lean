/-
  Ksight.Rms.Remain — what remains of a timer is no more than its allotment.

  `rms_timer_get_remain` is `remain_time` for a timer that is not pending and the time to
  `expire_time` for one that is. `rms_timer_start` computes `remain_time` from a second
  reading of the clock, by a subtraction that wraps around when that reading is past the
  end; but it also makes the timer pending, and all that ends that writes `remain_time`
  again: a cancel, the callback of a budget, and the start of the next period.

  The law (`remain_le`): without FEATURE_MIGRATION and FEATURE_BUDGET_OVERRUN, in every run
  in which no task with timers registers again, the rest of a budget is at most the budget
  and that of a period at most the period, at any time from then on. What carries it is
  `Within`: the bound on `remain_time` holds of a timer that is not pending, and
  `expire_time` is at most an allotment away, pending or not (a cancel may find the timer
  stopped and then reads an old `expire_time`).
-/

import Ksight.Rms.Budget

namespace Ksight.Rms.Remain

open Ksight.Lib
open Ksight.Rms.Budget (Ev.lags calm_mapsOnly calm_setscheduler calm_enqueue calm_dispatch calm_callbackBudget
  calm_callbackPeriod)

/-- The attributes of a task are not written again while it has a timer. -/
def AttrKept : Ev → St → Prop
  | .register pid .., s => s.maps.budgetTimer.lookup pid = none ∧ s.maps.schedTimer.lookup pid = none
  | _, _ => True

instance (s : St) : (e : Ev) → Decidable (AttrKept e s)
  | .register .. => inferInstanceAs (Decidable (_ ∧ _))
  | .tick _ | .fork .. | .setscheduler .. | .die .. | .reap .. | .selectCpu .. | .migrate .. | .enqueue ..
  | .dequeue .. | .dispatch .. | .running .. | .stopping .. | .yield .. | .setCpumask .. | .budgetExpiry ..
  | .periodExpiry .. => .isTrue trivial

/-! ## One timer -/

/-- A timer with the allotment `lim`, at the time `now`. -/
structure Within (now : Nat) (lim : UInt64) (timer : RmsTimer) : Prop where
  remain : timer.pending = 0 → timer.remainTime ≤ lim
  expire : timer.expireTime.toNat ≤ now + lim.toNat

variable {now now' : Nat} {lim t : UInt64} {timer : RmsTimer}

theorem Within.mono (h : Within now lim timer) (hle : now ≤ now') : Within now' lim timer :=
  ⟨h.remain, h.expire.trans (by omega)⟩

/-- The time to the end, at a reading of the clock that is no earlier. -/
theorem Within.rest_le (h : Within now lim timer) (ht : now ≤ t.toNat) (hle : t ≤ timer.expireTime) :
    timer.expireTime - t ≤ lim := by
  have hexp := h.expire
  rw [UInt64.le_iff_toNat_le, UInt64.toNat_sub_of_le _ _ hle]
  omega

theorem Within.getRemain_le (h : Within now lim timer) (ht : now ≤ t.toNat) : rmsTimerGetRemain t timer ≤ lim := by
  unfold rmsTimerGetRemain
  split
  · exact h.remain ‹_›
  · split
    · exact h.rest_le ht (UInt64.le_of_lt ‹_›)
    · exact UInt64.zero_le

theorem Within.setRemain (h : Within now lim timer) (ht : now ≤ t.toNat) :
    Within now lim (rmsTimerSetRemain timer t .abs) := by
  refine ⟨fun _ => ?_, h.expire⟩
  show (if timer.expireTime ≥ t then _ else _) ≤ lim
  split
  · exact h.rest_le ht ‹_›
  · exact UInt64.zero_le

theorem Within.cancel (h : Within now lim timer) (ht : now ≤ t.toNat) :
    Within now lim (rmsTimerCancel false t timer).1 := by
  refine ⟨fun _ => ?_, h.expire⟩
  show (if timer.expireTime ≥ t then _ else _) ≤ lim
  split
  · exact h.rest_le ht ‹_›
  · exact UInt64.zero_le

/-- A timer that is pending has only its end to be bounded. -/
theorem Within.of_pending {index periodic remain d : UInt64} {arg : Pid} (ht : t.toNat ≤ now) (hd : d ≤ lim) :
    Within now lim ⟨some (t + d), periodic, remain, t + d, 1, index, arg⟩ := by
  refine ⟨fun h => absurd h (show (1 : UInt64) ≠ 0 by decide), ?_⟩
  have hadd := UInt64.toNat_add t d
  have hmod := Nat.mod_le (t.toNat + d.toNat) (2 ^ 64)
  rw [UInt64.le_iff_toNat_le] at hd
  show (t + d).toNat ≤ _
  omega

/-! ## The clock -/

variable {cfg : Config} {e : Ev} {s s' : St}

/-- The clock goes on by the time a handler takes. -/
theorem now_spend {lags : List Nat} {s₁ : St} (h : s₁.now = s.now) : s.now + lags.sum ≤ (spend lags s₁).now := by
  show s.now + lags.sum ≤ s₁.now + lags.sum
  rw [h]

/-- A handler ends after the last of its readings. -/
theorem now_act (ho : cfg.features.budgetOverrun = false) (h : act cfg e s = some s') :
    s.now + (Ev.lags e).sum ≤ s'.now := by
  cases e with
  | tick d =>
    simp only [act, Option.ite_none_right_eq_some, Option.some.injEq] at h
    obtain ⟨-, rfl⟩ := h
    exact Nat.add_le_add_left (Nat.zero_le d) _
  | fork pid policy cpumask cpu =>
    simp only [act, Option.ite_none_right_eq_some, Option.some.injEq] at h
    obtain ⟨-, rfl⟩ := h
    exact Nat.le_refl _
  | register | die | selectCpu | migrate | dequeue =>
    obtain ⟨t, -, -, rfl⟩ := onTask_eq_some.mp h
    exact Nat.le_refl _
  | enqueue pid curCpu =>
    obtain ⟨t, -, -, rfl⟩ := onTask_eq_some.mp h
    rw [(calm_enqueue ..).now]
    exact Nat.le_refl _
  | setscheduler pid policy lags =>
    obtain ⟨t, -, -, rfl⟩ := onTask_eq_some.mp h
    exact now_spend (calm_setscheduler ..).now
  | reap pid lags =>
    obtain ⟨t, -, -, rfl⟩ := onTask_eq_some.mp h
    exact now_spend (calm_mapsOnly (rmsDisable_maps (clkOf s.now lags) pid t s)).now
  | dispatch cpu lags =>
    simp only [act, Option.ite_none_right_eq_some, Option.some.injEq] at h
    obtain ⟨-, rfl⟩ := h
    exact now_spend (calm_dispatch ..).now
  | running pid lags =>
    obtain ⟨t, -, -, rfl⟩ := onTask_eq_some.mp h
    exact now_spend (calm_mapsOnly (rmsRunning_maps ..)).now
  | stopping pid runnable lags =>
    obtain ⟨t, -, -, rfl⟩ := onTask_eq_some.mp h
    exact now_spend (calm_mapsOnly (rmsStopping_maps ..)).now
  | yield pid lags =>
    obtain ⟨t, -, -, rfl⟩ := onTask_eq_some.mp h
    exact now_spend (calm_mapsOnly (rmsYield_maps ..)).now
  | setCpumask pid cpumask lags =>
    obtain ⟨t, -, -, rfl⟩ := onTask_eq_some.mp h
    exact now_spend (calm_mapsOnly (rmsSetCpumask_maps ..)).now
  | budgetExpiry pid cpu lags =>
    obtain ⟨b, -, -, rfl⟩ := act_budgetExpiry h
    exact now_spend (calm_callbackBudget ho ..).now
  | periodExpiry pid lags =>
    obtain ⟨p, -, -, rfl⟩ := act_periodExpiry h
    exact now_spend (calm_callbackPeriod ..).now

theorem sum_take_le (lags : List Nat) (i : Nat) : (lags.take i).sum ≤ lags.sum := by
  conv_rhs => rw [← List.take_append_drop i lags, List.sum_append]
  exact Nat.le_add_right _ _

/-- The readings of a handler are taken while it runs. -/
theorem clkOf_toNat {lags : List Nat} (h : lastsTo lags s) (i : Nat) :
    s.now ≤ (clkOf s.now lags i).toNat ∧ (clkOf s.now lags i).toNat ≤ s.now + lags.sum := by
  have hle := sum_take_le lags (i + 1)
  unfold lastsTo at h
  have hlt : s.now + (lags.take (i + 1)).sum < 2 ^ 64 := by omega
  rw [clkOf, UInt64.toNat_ofNat_of_lt' hlt]
  omega

/-! ## One task -/

/-- The timers of a task are within its parameters, and its period timer fires at its end and
    starts again with the period. -/
structure Allotted (now : Nat) (v : View) : Prop where
  budget : ∀ a ∈ v.attr, ∀ b ∈ v.budget, Within now a.budget b
  sched : ∀ a ∈ v.attr, ∀ p ∈ v.sched, Within now a.period p
  armed : ∀ a ∈ v.attr, ∀ p ∈ v.sched, ∀ e ∈ p.t, e = p.expireTime ∧ p.periodicTime = a.period

theorem Allotted.mono {v : View} (h : Allotted now v) (hle : now ≤ now') : Allotted now' v :=
  ⟨fun a ha b hb => (h.budget a ha b hb).mono hle, fun a ha p hp => (h.sched a ha p hp).mono hle, h.armed⟩

/-- The task itself does not matter. -/
theorem Allotted.task {v : View} (h : Allotted now v) (t : Option Core) : Allotted now { v with task := t } :=
  ⟨h.budget, h.sched, h.armed⟩

theorem Allotted.of_noAttr {v : View} (h : v.attr = none) : Allotted now v := by
  refine ⟨?_, ?_, ?_⟩ <;> intro a ha <;> rw [h] at ha <;> exact nomatch ha

theorem Allotted.of_noTimers {v : View} (hb : v.budget = none) (hp : v.sched = none) : Allotted now v := by
  refine ⟨?_, ?_, ?_⟩
  · intro a _ b h
    rw [hb] at h
    exact nomatch h
  · intro a _ p h
    rw [hp] at h
    exact nomatch h
  · intro a _ p h
    rw [hp] at h
    exact nomatch h

/-! ## What a handler does -/

/-- The readings of a handler that runs from `now` to `now'`. -/
def Readings (now now' : Nat) (clk : Nat → UInt64) : Prop := ∀ i, now ≤ (clk i).toNat ∧ (clk i).toNat ≤ now'

theorem Readings.le {clk : Nat → UInt64} (h : Readings now now' clk) : now ≤ now' := (h 0).1.trans (h 0).2

section
variable {clk : Nat → UInt64} {q : Pid} {v v' : View} (hclk : Readings now now' clk) (h : Allotted now v)
include hclk h

theorem allotted_cpumask {f : Features} {keeps : Bool} (hm : f.migration = false)
    (hs : CpumaskStep f clk q keeps v v') : Allotted now' v' := by
  have hle := hclk.le
  cases hs with
  | same => exact h.mono hle
  | @init budgetRoom schedRoom a _ ha _ _ =>
    refine ⟨fun a' ha' b hb => ?_, fun a' ha' p hp => ?_, fun a' ha' p hp e he => ?_⟩
    · cases ha.symm.trans ha'
      obtain ⟨-, hb⟩ := Option.ite_none_right_eq_some.mp hb
      cases hb
      exact ⟨fun _ => UInt64.le_refl _, Nat.zero_le _⟩
    · cases ha.symm.trans ha'
      obtain ⟨-, hp⟩ := Option.ite_none_right_eq_some.mp hp
      cases hp
      exact .of_pending (hclk 0).2 (UInt64.le_refl _)
    · cases ha.symm.trans ha'
      obtain ⟨-, hp⟩ := Option.ite_none_right_eq_some.mp hp
      cases hp
      cases he
      exact ⟨rfl, rfl⟩
  | cancel _ _ _ _ _ =>
    refine ⟨?_, ?_, ?_⟩
    · intro a ha b hb
      obtain ⟨b', hb', rfl⟩ := Option.map_eq_some_iff.mp hb
      have ha' : v.attr = some a := by simpa [cancelView, hm] using ha
      exact ((h.budget a ha' b' hb').cancel (hclk 1).1).mono hle
    · intro a ha p hp
      obtain ⟨p', hp', rfl⟩ := Option.map_eq_some_iff.mp hp
      have ha' : v.attr = some a := by simpa [cancelView, hm] using ha
      exact ((h.sched a ha' p' hp').cancel (hclk 0).1).mono hle
    · intro a ha p hp e he
      obtain ⟨p', -, rfl⟩ := Option.map_eq_some_iff.mp hp
      cases he

theorem allotted_running {f : Features} : Allotted now' (runningView f clk q v) := by
  have hle := hclk.le
  unfold runningView
  split
  · rename_i a b ha hb
    split
    · exact h.mono hle
    · have hrest := (h.budget a ha b hb).getRemain_le (hclk 0).1
      refine ⟨fun a' ha' b' hb' => ?_, (h.mono hle).sched, (h.mono hle).armed⟩
      cases ha.symm.trans ha'
      cases hb'
      refine .of_pending (hclk 1).2 ?_
      split
      · exact UInt64.le_refl _
      · exact hrest
  · exact h.mono hle

theorem allotted_yield : Allotted now' (yieldView clk v) := by
  have hle := hclk.le
  unfold yieldView
  split
  · rename_i b a hb ha
    split
    · refine ⟨fun a' ha' b' hb' => ?_, fun a' ha' p hp => ?_, fun a' ha' => ?_⟩
      · cases ha'
        cases hb'
        exact (((h.budget a ha b hb).cancel (hclk 0).1).setRemain (hclk 1).1).mono hle
      · cases ha'
        exact (h.sched a ha p hp).mono hle
      · cases ha'
        exact h.armed a ha
    · exact h.mono hle
  · exact h.mono hle

end

theorem allotted_stopping {v : View} {runnable : Bool} (h : Allotted now v) :
    Allotted now (stoppingView runnable v) := by
  unfold stoppingView
  split
  · exact .of_noAttr rfl
  · exact h

theorem allotted_budgetExpiry {f : Features} {k q : Pid} {v v' : View} (ho : f.budgetOverrun = false)
    (h : Allotted now v) (hs : BudgetStep f k q v v') : Allotted now v' := by
  cases hs with
  | other _ => exact h
  | noAttr _ ha _ => exact .of_noAttr ha
  | @spent a b _ ha hb _ =>
    refine ⟨fun a' ha' b' hb' => ?_, fun a' ha' p hp => ?_, fun a' ha' p hp => ?_⟩
    · cases ha'
      cases hb'
      exact ⟨fun _ => UInt64.le_refl _, (h.budget a ha b hb).expire⟩
    · cases ha'
      exact h.sched a ha p hp
    · cases ha'
      exact h.armed a ha p hp
  | overrun hov _ _ =>
    rw [ho] at hov
    exact nomatch hov

/-- The next period begins at the end of this one, which is past. -/
theorem allotted_periodExpiry {q : Pid} {v v' : View} (hsane : Sane q v) (h : Allotted now v)
    (hexp : ∀ p ∈ v.sched, expired now periodCallback p) (hs : PeriodStep v v') : Allotted now v' := by
  cases hs with
  | @release c a b p _ _ ha hb hp =>
    have hbud := h.budget a ha b hb
    obtain ⟨-, e, he, hpast⟩ := hexp p hp
    obtain ⟨rfl, hper⟩ := h.armed a ha p hp e he
    have hpos : 0 < p.periodicTime := by
      rw [hper, UInt64.pos_iff_ne_zero]
      exact (hsane.params a ha).2
    have hnext : refreshTimer { p with t := none, pending := 0 } =
        ⟨some (p.expireTime + p.periodicTime), p.periodicTime, p.periodicTime, p.expireTime + p.periodicTime, 1,
          p.callbackIndex, p.arg⟩ := if_pos hpos
    refine ⟨fun a' ha' b' hb' => ?_, fun a' ha' p' hp' => ?_, fun a' ha' p' hp' e he => ?_⟩
    · cases ha'
      cases hb'
      exact ⟨fun _ => UInt64.le_refl _, hbud.expire⟩
    · cases ha'
      cases hp'
      rw [hnext]
      exact .of_pending hpast (hper ▸ UInt64.le_refl _)
    · cases ha'
      cases hp'
      rw [hnext] at he ⊢
      cases he
      exact ⟨rfl, hper⟩
  | @exit p hp _ =>
    refine ⟨h.budget, fun a ha p' hp' => ?_, fun a ha p' hp' e he => ?_⟩
    · cases hp'
      exact ⟨(h.sched a ha p hp).remain, (h.sched a ha p hp).expire⟩
    · cases hp'
      exact nomatch he

/-! ## One step -/

/-- A step that is allowed keeps the timers of all tasks within their parameters. -/
theorem allotted_step (hm : cfg.features.migration = false) (ho : cfg.features.budgetOverrun = false) (hb : Base s)
    (hkept : AttrKept e s) (h : step cfg e s = some s') {q : Pid} (hq : Allotted s.now (view s q)) :
    Allotted s'.now (view s' q) := by
  have hact := (act_of_step h).2
  have hnow := now_act ho hact
  have hle : s.now ≤ s'.now := by omega
  have hclk : lastsTo (Ev.lags e) s → Readings s.now s'.now (clkOf s.now (Ev.lags e)) := fun hl i =>
    ⟨(clkOf_toNat hl i).1, (clkOf_toNat hl i).2.trans hnow⟩
  cases (step_effect hb h).2 q with
  | dispatch hd =>
    cases hd with
    | same hv _ => exact hv ▸ hq.mono hle
    | restart hmig _ _ _ =>
      rw [hm] at hmig
      exact nomatch hmig
  | other _ hv =>
    generalize hv₀ : view s q = v at hv hq
    generalize view s' q = v' at hv ⊢
    cases hv with
    | same _ => exact hq.mono hle
    | fork _ => exact (hq.task _).mono hle
    | register _ _ _ _ _ =>
      obtain ⟨hb₀, hp₀⟩ := hkept
      cases hv₀
      exact .of_noTimers hb₀ hp₀
    | repolicy _ _ _ _ => exact (hq.task _).mono hle
    | enter _ _ _ _ hs =>
      obtain ⟨-, -, ⟨-, -, hl⟩, -⟩ := onTask_eq_some.mp hact
      exact allotted_cpumask (hclk hl) (hq.task _) hm hs
    | die _ _ _ => exact (hq.task _).mono hle
    | reap _ _ _ =>
      split
      · exact .of_noAttr rfl
      · exact (hq.task _).mono hle
    | running _ _ _ _ =>
      obtain ⟨-, -, ⟨-, -, -, -, hl⟩, -⟩ := onTask_eq_some.mp hact
      exact allotted_running (hclk hl) (hq.task _)
    | stopping _ _ _ => exact (allotted_stopping (hq.task _)).mono hle
    | yield _ _ _ _ =>
      obtain ⟨-, -, ⟨-, -, hl⟩, -⟩ := onTask_eq_some.mp hact
      exact allotted_yield (hclk hl) hq
    | setCpumask _ _ _ hs =>
      obtain ⟨-, -, ⟨-, -, hl⟩, -⟩ := onTask_eq_some.mp hact
      exact allotted_cpumask (hclk hl) (hq.task _) hm hs
    | budgetExpiry _ hs => exact (allotted_budgetExpiry ho hq hs).mono hle
    | periodExpiry hexp hs => exact (allotted_periodExpiry (hv₀ ▸ hb.2 q) hq hexp hs).mono hle

/-! ## A run -/

variable {pid : Pid} {a : TaskAttr}

/-- What remains of a timer is at most its allotment, at any time from now on. -/
theorem remain_le (hm : cfg.features.migration = false) (ho : cfg.features.budgetOverrun = false)
    (hr : Run (step cfg) AttrKept init s) (ha : s.maps.taskAttr.lookup pid = some a) (ht : s.now ≤ t.toNat) :
    (∀ b ∈ s.maps.budgetTimer.lookup pid, rmsTimerGetRemain t b ≤ a.budget) ∧
      ∀ p ∈ s.maps.schedTimer.lookup pid, rmsTimerGetRemain t p ≤ a.period := by
  have hinv : Base s ∧ ∀ q, Allotted s.now (view s q) := by
    refine hr.inv (P := fun s => Base s ∧ ∀ q, Allotted s.now (view s q)) ⟨base_init, fun q => .of_noAttr ?_⟩ ?_
    · simp [view, init, Maps.empty]
    · intro e s s' hs hkept hstep
      exact ⟨base_step hs.1 hstep, fun q => allotted_step hm ho hs.1 hkept hstep (hs.2 q)⟩
  have hall := hinv.2 pid
  exact ⟨fun b hb => (hall.budget a ha b hb).getRemain_le ht, fun p hp => (hall.sched a ha p hp).getRemain_le ht⟩

/-- The clock is read for `remain_time` when the budget of 5 has passed since it was read for
    `expire_time`. The wrapped value is stored, and not read. -/
theorem wrapped_remain_is_not_read : ∃ s, Run (step (config false)) AttrKept init s ∧
    ∃ b ∈ s.maps.budgetTimer.lookup 7, 5 < b.remainTime ∧ rmsTimerGetRemain 100 b ≤ 5 := by
  obtain ⟨s, hr, hs⟩ := run_of_execIf_any (step (config false)) AttrKept init
    (enrolled 7 5 20 ++ [.enqueue 7 3, .dispatch 3 [], .running 7 [0, 0, 0, 100]])
    (fun s => s.now == 100 && s.maps.taskAttr.lookup 7 == some ⟨3, 5, 20, 0, 0⟩ &&
      (s.maps.budgetTimer.lookup 7).any (5 < ·.remainTime)) (by decide +kernel)
  simp only [Bool.and_eq_true, beq_iff_eq] at hs
  obtain ⟨⟨hnow, ha⟩, hb⟩ := hs
  obtain ⟨b, hb, hwrap⟩ := (Option.any_eq_true _ _).mp hb
  exact ⟨s, hr, b, hb, of_decide_eq_true hwrap, (remain_le (t := 100) rfl rfl hr ha (hnow ▸ by decide)).1 b hb⟩

end Ksight.Rms.Remain

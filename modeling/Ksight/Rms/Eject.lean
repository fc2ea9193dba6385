/-
  Ksight.Rms.Eject — whether the scheduler ejects itself.

  `scx_bpf_error` makes the kernel unload the scheduler for every task. Four callbacks call
  it where they find a timer whose task is not what they expect. Budget callbacks and
  affinity changes never get there; the period callback does when its task has left
  SCHED_EXT. `rms_disable` is what takes a task's timers along, but the kernel has written
  the new policy by the time it is called, and `rms_disable` looks for SCHED_EXT there: a
  task that leaves keeps its timers, and its next period ends the scheduler
  (`a_leaver_ejects_the_scheduler`).

  In a run in which no task with a period timer changes to another policy no callback
  reports an error (`never_ejects`): what a period timer stands for is a task of SCHED_EXT
  (`Kept`), dead ones being still on their CPU, where the exit finds them.
-/

import Ksight.Rms.Step

namespace Ksight.Rms.Eject

open Ksight.Lib

/-- No callback has reported an error about a task or its timers. -/
def NotEjected (s : St) : Prop := ∀ site ∈ s.error, site = .cpuToDsq

/-- No task with a period timer is changed to another policy. -/
def Stays : Ev → St → Prop
  | .setscheduler pid policy _, s => policy = schedExt ∨ s.maps.schedTimer.lookup pid = none
  | _, _ => True

instance (s : St) : (e : Ev) → Decidable (Stays e s)
  | .setscheduler .. => inferInstanceAs (Decidable (_ ∨ _))
  | .tick .. | .fork .. | .register .. | .die .. | .reap .. | .selectCpu .. | .migrate .. | .enqueue ..
  | .dequeue .. | .dispatch .. | .running .. | .stopping .. | .yield .. | .setCpumask .. | .budgetExpiry ..
  | .periodExpiry .. => .isTrue trivial

/-- A period timer is the timer of a task of SCHED_EXT; if it has died it is on its CPU. -/
def Kept (v : View) : Prop :=
  v.sched ≠ none → ∃ c, v.task = some c ∧ c.policy = schedExt ∧ (c.live = true ∨ c.on = true)

variable {cfg : Config}

/-! ## Errors -/

theorem error_kickCpu (cpu : Cpu) (s : St) : (kickCpu cpu s).error = s.error := by
  unfold kickCpu; split <;> rfl

theorem notEjected_scxError {s : St} (h : NotEjected s) : NotEjected (scxError .cpuToDsq s) := by
  unfold NotEjected scxError at *
  cases hs : s.error with
  | none => simp
  | some site => simpa [hs] using h site hs

theorem notEjected_checkCpu (cpu : Cpu) {s : St} (h : NotEjected s) : NotEjected (checkCpu cpu s) := by
  unfold checkCpu
  split
  · exact h
  · exact notEjected_scxError h

theorem error_dsqInsertVtime (d : Nat) (vtime : UInt64) (pid : Pid) (s : St) :
    (dsqInsertVtime d vtime pid s).error = s.error := by
  unfold dsqInsertVtime
  split
  · split <;> rfl
  · rfl

theorem notEjected_of_error {s s' : St} (h : NotEjected s) (he : s'.error = s.error) : NotEjected s' := by
  unfold NotEjected; rwa [he]

theorem notEjected_rmsEnqueue (u : Pid) (curCpu : Cpu) (pid : Pid) (p : Task) {s : St} (h : NotEjected s) :
    NotEjected (rmsEnqueue u curCpu pid p s) := by
  unfold rmsEnqueue
  split
  · apply notEjected_of_error h
    unfold dsqInsertLocal
    split
    · split <;> rfl
    · rfl
  split
  · exact h
  split
  · have hins : ∀ d v, NotEjected (dsqInsertVtime d v pid (checkCpu p.cpu s)) := fun d v =>
      notEjected_of_error (notEjected_checkCpu p.cpu h) (error_dsqInsertVtime ..)
    simp only
    split
    · exact notEjected_of_error (hins _ _) (error_kickCpu _ _)
    · exact hins _ _
  · exact h

theorem notEjected_dispatchLoop (f : Features) (clk : Nat → UInt64) (cpu : Cpu) (i : Nat) {s : St}
    (h : NotEjected s) :
    NotEjected (dispatchLoop f clk cpu i s).2 := by
  unfold dispatchLoop
  split
  · exact h
  simp only
  split
  · exact h
  split
  · exact h
  · refine notEjected_of_error (notEjected_checkCpu cpu ?_) (error_dsqInsertVtime ..)
    split
    · exact notEjected_of_error h (restartMigrated_maps ..).error
    · exact h

theorem notEjected_rmsDispatch (f : Features) (clk : Nat → UInt64) (cpu : Cpu) {s : St} (h : NotEjected s) :
    NotEjected (rmsDispatch f clk cpu s) := by
  have hloop := bpfLoop_inv (fun i _ hs => notEjected_dispatchLoop f clk cpu i hs) maxTaskNr 0 h
  apply notEjected_of_error (notEjected_checkCpu cpu hloop)
  unfold rmsDispatch dsqMoveToLocal
  split <;> rfl

/-- The budget callback reports a task that has no entry; there is none. -/
theorem error_budgetExpiry {f : Features} (hf : f.budgetOverrun = false) (clk : Nat → UInt64)
    {key : Pid} (cpu : Cpu) {s : St} {b : RmsTimer} {a : TaskAttr} (hb : (view s key).budget = some b)
    (harg : b.arg = key) (ha : (view s key).attr = some a) :
    (rmsCallbackBudget f clk key cpu s).error = s.error := by
  rw [rmsCallbackBudget_some hb harg ha]
  show (kickCpu a.cpu _).error = _
  rw [error_kickCpu]
  simp only [hf, Bool.false_eq_true, if_false]
  split <;> rfl

/-- The period callback reports a task of another policy. -/
theorem error_periodExpiry (clk : Nat → UInt64) {key : Pid} {s : St} {p : RmsTimer} {c : Core}
    (hp : (view s key).sched = some p) (harg : p.arg = key) (hc : (view s key).task = some c)
    (hpol : c.policy = schedExt) : (rmsCallbackPeriod clk key s).error = s.error := by
  obtain ⟨t, ht, rfl⟩ := Option.map_eq_some_iff.mp hc
  have hp' : s.maps.schedTimer.lookup key = some p := hp
  have hpol' : ¬ t.policy ≠ schedExt := not_not.mpr hpol
  simp only [rmsCallbackPeriod, hp', harg, ht, if_neg hpol']
  split
  · show (kickCpu _ _).error = _
    rw [error_kickCpu]
    rfl
  · rfl

/-! ## The invariant -/

theorem Kept.of_none {v : View} (h : v.sched = none) : Kept v := fun hs => absurd h hs

theorem Kept.mono {v v' : View} (h : Kept v) (ht : v'.task = v.task)
    (hs : v.sched = none → v'.sched = none) : Kept v' :=
  fun h' => ht ▸ h fun e => h' (hs e)

theorem kept_cpumask {f : Features} {clk : Nat → UInt64} {q : Pid} {keeps : Bool} {v v' : View}
    (hl : ∃ c, v.task = some c ∧ c.live = true) (hk : Kept v) (h : CpumaskStep f clk q keeps v v') :
    Kept v' := by
  obtain ⟨c, hc, hl⟩ := hl
  cases h with
  | same => exact hk
  | init _ _ hext _ _ _ => exact fun _ => ⟨c, hc, hext c hc, .inl hl⟩
  | cancel _ _ _ _ _ => exact hk.mono rfl (by simp [cancelView])

theorem kept_running {f : Features} {clk : Nat → UInt64} {q : Pid} {v : View} (hk : Kept v) :
    Kept (runningView f clk q v) := by
  unfold runningView
  split
  · split
    · exact hk
    · exact hk.mono rfl id
  · exact hk

theorem kept_yield {clk : Nat → UInt64} {v : View} (hk : Kept v) : Kept (yieldView clk v) := by
  unfold yieldView
  split
  · split
    · exact hk.mono rfl id
    · exact hk
  · exact hk

theorem kept_step {s : St} {q : Pid} {e : Ev} {v' : View} (hk : Kept (view s q)) (hok : Stays e s)
    (h : ViewStep cfg s q e (view s q) v') : Kept v' := by
  cases h with
  | same => exact hk
  | fork hn => exact .of_none (by_contra fun hs => by obtain ⟨c, hc, -⟩ := hk hs; rw [hn] at hc; cases hc)
  | register => exact hk.mono rfl id
  | @repolicy policy lags _ c hc hl ho hpol =>
    rcases hok with rfl | hno
    · exact fun _ => ⟨_, rfl, rfl, .inl hl⟩
    · exact .of_none hno
  | enter hc hl ho hne h =>
    refine kept_cpumask ⟨_, rfl, by exact hl⟩ (.of_none (by_contra fun hs => ?_)) h
    obtain ⟨c', hc', hpol, -⟩ := hk hs
    rw [hc] at hc'; cases hc'; exact hne hpol
  | die hc hl hex =>
    intro hs
    obtain ⟨c', hc', hpol, -⟩ := hk hs
    rw [hc] at hc'; cases hc'
    exact ⟨_, rfl, hpol, .inr (hex.resolve_right (not_not.mpr hpol))⟩
  | reap hc hl ho =>
    refine .of_none (by_contra fun hs => ?_)
    have hs' : (view s q).sched ≠ none := by
      intro hn
      apply hs
      split
      · rfl
      · exact hn
    obtain ⟨c', hc', -, hlo⟩ := hk hs'
    rw [hc] at hc'; cases hc'
    simp [hl, ho] at hlo
  | running hc hl hpol ho => exact kept_running fun _ => ⟨_, rfl, hpol, .inl hl⟩
  | @stopping runnable _ _ c hc ho hl =>
    unfold stoppingView
    split
    · exact .of_none rfl
    · rename_i hcond
      intro hs
      obtain ⟨c', hc', hpol, -⟩ := hk hs
      rw [hc] at hc'; cases hc'
      refine ⟨_, rfl, hpol, .inl ?_⟩
      rcases hl with hl | hr
      · exact hl
      · simpa [hr] using hcond
  | yield => exact kept_yield hk
  | setCpumask hc hl ho h =>
    refine kept_cpumask ⟨_, rfl, by exact hl⟩ ?_ h
    intro hs
    obtain ⟨c', hc', hpol, -⟩ := hk hs
    rw [hc] at hc'; cases hc'
    exact ⟨_, rfl, hpol, .inl hl⟩
  | budgetExpiry _ h => cases h <;> exact hk.mono rfl id
  | periodExpiry _ h =>
    cases h with
    | release _ _ _ _ hp => exact hk.mono rfl (by simp [hp])
    | exit hp _ => exact hk.mono rfl (by simp [hp])

theorem kept_dispatch {f : Features} {q : Pid} {s s' : St} (hk : Kept (view s q))
    (h : DispatchStep f q s s') :
    Kept (view s' q) := by
  cases h with
  | same hv _ => exact hv ▸ hk
  | restart _ _ _ hv => rw [hv]; exact hk.mono rfl (by simp +contextual [restartView])

/-! ## The law -/

structure Inv (s : St) : Prop where
  base : Base s
  kept : ∀ q, Kept (view s q)
  notEjected : NotEjected s

/-- While period timers are kept by tasks of SCHED_EXT no callback ejects the scheduler. -/
theorem act_notEjected (hf : cfg.features.budgetOverrun = false) {e : Ev} {s s' : St} (hi : Inv s)
    (h : act cfg e s = some s') : NotEjected s' := by
  cases e with
  | tick d =>
    simp only [act, Option.ite_none_right_eq_some, Option.some.injEq] at h
    obtain ⟨-, rfl⟩ := h
    exact hi.notEjected
  | fork pid policy cpumask cpu =>
    simp only [act, Option.ite_none_right_eq_some, Option.some.injEq] at h
    obtain ⟨-, rfl⟩ := h
    exact hi.notEjected
  | register | die | selectCpu | migrate | dequeue =>
    obtain ⟨t, -, -, rfl⟩ := onTask_eq_some.mp h
    exact hi.notEjected
  | setscheduler pid policy lags =>
    obtain ⟨t, -, -, rfl⟩ := onTask_eq_some.mp h
    apply notEjected_of_error hi.notEjected
    show (setscheduler _ _ _ _ _ _).error = _
    unfold setscheduler
    simp only
    split
    · exact (rmsSetCpumask_maps ..).error
    · split
      · exact (rmsDisable_maps ..).error
      · rfl
  | reap =>
    obtain ⟨t, -, -, rfl⟩ := onTask_eq_some.mp h
    exact notEjected_of_error hi.notEjected (rmsDisable_maps ..).error
  | running =>
    obtain ⟨t, -, -, rfl⟩ := onTask_eq_some.mp h
    exact notEjected_of_error hi.notEjected (rmsRunning_maps ..).error
  | stopping =>
    obtain ⟨t, -, -, rfl⟩ := onTask_eq_some.mp h
    exact notEjected_of_error hi.notEjected (rmsStopping_maps ..).error
  | yield =>
    obtain ⟨t, -, -, rfl⟩ := onTask_eq_some.mp h
    exact notEjected_of_error hi.notEjected (rmsYield_maps ..).error
  | setCpumask =>
    obtain ⟨t, -, -, rfl⟩ := onTask_eq_some.mp h
    exact notEjected_of_error hi.notEjected (rmsSetCpumask_maps ..).error
  | enqueue pid curCpu =>
    obtain ⟨t, -, -, rfl⟩ := onTask_eq_some.mp h
    exact notEjected_rmsEnqueue _ _ _ _ hi.notEjected
  | dispatch cpu lags =>
    simp only [act, Option.ite_none_right_eq_some, Option.some.injEq] at h
    obtain ⟨-, rfl⟩ := h
    exact notEjected_rmsDispatch _ _ _ hi.notEjected
  | budgetExpiry pid cpu lags =>
    obtain ⟨b, hb, hexp, rfl⟩ := act_budgetExpiry h
    have harg := ((hi.base.2 pid).budget b hb).1 (armed_of_expired hexp)
    obtain ⟨a, ha⟩ := Option.ne_none_iff_exists'.mp ((hi.base.2 pid).attr (.inl (by simp [hb])))
    refine notEjected_of_error hi.notEjected
      (error_budgetExpiry hf _ _ (b := { b with t := none }) (a := a) ?_ harg ?_)
    · rw [view_fireBudget hb, Function.update_self]
    · rw [view_fireBudget hb, Function.update_self, ha]
  | periodExpiry pid lags =>
    obtain ⟨p, hp, hexp, rfl⟩ := act_periodExpiry h
    have harg := ((hi.base.2 pid).sched p hp (armed_of_expired hexp)).1
    obtain ⟨c, hc, hpol, -⟩ := hi.kept pid (by simp [hp])
    refine notEjected_of_error hi.notEjected
      (error_periodExpiry _ (p := { p with t := none }) (c := c) ?_ harg ?_ hpol)
    · rw [view_fireSched hp, Function.update_self]
    · rw [view_fireSched hp, Function.update_self, hc]

theorem init_inv : Inv init :=
  ⟨base_init, fun _ => .of_none (by simp [view, init, Maps.empty]), by simp [NotEjected, init]⟩

theorem step_inv (hf : cfg.features.budgetOverrun = false) {e : Ev} {s s' : St} (hi : Inv s) (hok : Stays e s)
    (h : step cfg e s = some s') : Inv s' := by
  refine ⟨base_step hi.base h, ?_, ?_⟩
  · intro q
    cases (step_effect hi.base h).2 q with
    | dispatch hd => exact kept_dispatch (hi.kept q) hd
    | other _ hv => exact kept_step (hi.kept q) hok hv
  · exact act_notEjected hf hi (act_of_step h).2

/-- No callback ejects the scheduler in a run in which tasks with a period timer stay in
    SCHED_EXT. -/
theorem never_ejects (hf : cfg.features.budgetOverrun = false) {s : St}
    (h : Run (step cfg) Stays init s) : NotEjected s :=
  (h.inv init_inv fun _ _ _ hi hok hs => step_inv hf hi hok hs).notEjected

theorem never_ejects_a_released_task :
    ∃ s, Run (step (config false)) Stays init s ∧ queued s.cpuQueues 3 = [7] ∧ NotEjected s := by
  obtain ⟨s, hr, hs⟩ := run_of_execIf_any (step (config false)) Stays init
    (enrolled 7 5 10 ++ [.tick 10, .periodExpiry 7 []])
    (fun s => decide (queued s.cpuQueues 3 = [7])) (by decide +kernel)
  exact ⟨s, hr, of_decide_eq_true hs, never_ejects rfl hr⟩

theorem a_leaver_ejects_the_scheduler : ∃ s, Run (step (config false)) anyEvent init s ∧ ¬ NotEjected s := by
  obtain ⟨s, hr, hs⟩ := run_of_exec_any (step (config false)) init
    (enrolled 7 5 10 ++ [.setscheduler 7 0 [], .tick 10, .periodExpiry 7 []])
    (fun s => decide (s.error = some .callbackPeriod)) (by decide +kernel)
  exact ⟨s, hr, fun hn => absurd (hn _ (of_decide_eq_true hs)) (by decide)⟩

end Ksight.Rms.Eject

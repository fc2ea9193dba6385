/-
  Ksight.Rms.Step — what one step makes of a task's view.

  `ViewStep` has one constructor for each way an event can change the view of a task, with
  what the kernel guarantees when it issues the event; `step_effect` inverts a step to it.
  A dispatch is the exception (`DispatchStep`): it pops pids, and it alone does. Every
  other step leaves what is queued in its queue.

  `Sane` holds of every view of every run (`base_step`): an armed timer calls back about
  its own task and a period timer has a period, a task with a timer has an entry with
  parameters other than 0, and only a task of SCHED_EXT is on a CPU.
-/

import Ksight.Lib.Run
import Ksight.Rms.View

namespace Ksight.Rms

open Ksight.Lib

variable (cfg : Config)

/-- The task's CPU is in the mask. -/
def keepsCpu (s : St) (q : Pid) (cpumask : Finset Cpu) : Bool :=
  (s.tasks q).any fun t => decide (t.cpu ∈ cpumask)

/-- The events whose handlers act on the timers of `q` whatever its view: `ViewStep.same` is
    not for them. -/
def Ev.drives (q : Pid) : Ev → Prop
  | .running pid _ => pid = q
  | .periodExpiry pid _ => pid = q
  | _ => False

inductive ViewStep (s : St) (q : Pid) : Ev → View → View → Prop
  | same {e : Ev} {v : View} : ¬ e.drives q → ViewStep s q e v v
  | fork {policy : Nat} {cpumask : Finset Cpu} {cpu : Cpu} {v : View} : v.task = none →
      ViewStep s q (.fork q policy cpumask cpu) v { v with task := some ⟨policy, true, false, cpumask⟩ }
  | register {cpu : Cpu} {budget period : UInt64} {v : View} {c : Core} : v.task = some c → c.live = true →
      (c.on = true ∨ c.policy ≠ schedExt) → budget ≠ 0 → period ≠ 0 →
      ViewStep s q (.register q cpu budget period) v { v with attr := some ⟨cpu, budget, period, 0, 0⟩ }
  | repolicy {policy : Nat} {lags : List Nat} {v : View} {c : Core} : v.task = some c → c.live = true →
      c.on = false → (c.policy = schedExt ∨ policy ≠ schedExt) →
      ViewStep s q (.setscheduler q policy lags) v { v with task := some { c with policy := policy } }
  | enter {lags : List Nat} {v v' : View} {c : Core} : v.task = some c → c.live = true → c.on = false →
      c.policy ≠ schedExt →
      CpumaskStep cfg.features (clkOf s.now lags) q (keepsCpu s q c.cpusPtr)
        { v with task := some { c with policy := schedExt } } v' →
      ViewStep s q (.setscheduler q schedExt lags) v v'
  | die {v : View} {c : Core} : v.task = some c → c.live = true → (c.on = true ∨ c.policy ≠ schedExt) →
      ViewStep s q (.die q) v { v with task := some { c with live := false } }
  | reap {lags : List Nat} {v : View} {c : Core} : v.task = some c → c.live = false → c.on = false →
      ViewStep s q (.reap q lags) v { if c.policy = schedExt then v.gone else v with task := none }
  | running {lags : List Nat} {v : View} {c : Core} : v.task = some c → c.live = true → c.policy = schedExt →
      c.on = false →
      ViewStep s q (.running q lags) v
        (runningView cfg.features (clkOf s.now lags) q { v with task := some { c with on := true } })
  | stopping {runnable : Bool} {lags : List Nat} {v : View} {c : Core} : v.task = some c → c.on = true →
      (c.live = true ∨ runnable = false) →
      ViewStep s q (.stopping q runnable lags) v
        (stoppingView runnable { v with task := some { c with on := false } })
  | yield {lags : List Nat} {v : View} {c : Core} : v.task = some c → c.live = true → c.on = true →
      q ≠ cfg.userschedPid → ViewStep s q (.yield q lags) v (yieldView (clkOf s.now lags) v)
  | setCpumask {cpumask : Finset Cpu} {lags : List Nat} {v v' : View} {c : Core} : v.task = some c →
      c.live = true → c.on = false →
      CpumaskStep cfg.features (clkOf s.now lags) q (keepsCpu s q cpumask)
        { v with task := some { c with cpusPtr := cpumask } } v' →
      ViewStep s q (.setCpumask q cpumask lags) v v'
  | budgetExpiry {k : Pid} {cpu : Cpu} {lags : List Nat} {v v' : View} :
      (q = k → ∀ b ∈ v.budget, expired s.now budgetCallback b) → BudgetStep cfg.features k q v v' →
      ViewStep s q (.budgetExpiry k cpu lags) v v'
  | periodExpiry {lags : List Nat} {v v' : View} : (∀ p ∈ v.sched, expired s.now periodCallback p) →
      PeriodStep v v' → ViewStep s q (.periodExpiry q lags) v v'

/-! ## What every view satisfies -/

structure Sane (q : Pid) (v : View) : Prop where
  budget : ∀ b ∈ v.budget, (b.t ≠ none → b.arg = q) ∧ b.periodicTime = 0
  sched : ∀ p ∈ v.sched, p.t ≠ none → p.arg = q ∧ 0 < p.periodicTime
  attr : v.budget ≠ none ∨ v.sched ≠ none → v.attr ≠ none
  params : ∀ a ∈ v.attr, a.budget ≠ 0 ∧ a.period ≠ 0
  elsewhere : ∀ c ∈ v.task, c.policy ≠ schedExt → c.on = false

def Base (s : St) : Prop := QueuesWF s.cpuQueues ∧ ∀ q, Sane q (view s q)

variable {cfg}

theorem Sane.gone {q : Pid} {v : View} (h : Sane q v) : Sane q v.gone :=
  ⟨by simp [View.gone], by simp [View.gone], by simp [View.gone], by simp [View.gone], h.elsewhere⟩

theorem Sane.task {q : Pid} {v : View} (h : Sane q v) {t : Option Core}
    (ht : ∀ c ∈ t, c.policy ≠ schedExt → c.on = false) :
    Sane q { v with task := t } := ⟨h.budget, h.sched, h.attr, h.params, ht⟩

theorem sane_cpumask {f : Features} {clk : Nat → UInt64} {q : Pid} {keeps : Bool} {v v' : View}
    (hs : Sane q v) (h : CpumaskStep f clk q keeps v v') : Sane q v' := by
  cases h with
  | same => exact hs
  | init br sr _ ha hb hp =>
    have hper := (hs.params _ ha).2
    refine ⟨?_, ?_, fun _ => ?_, hs.params, hs.elsewhere⟩
    · cases br <;> simp [firstInitView, emptyTimer]
    · cases sr <;> simp [firstInitView, UInt64.pos_iff_ne_zero, hper]
    · simp [firstInitView, ha]
  | cancel _ hb hp ha hk =>
    refine ⟨?_, ?_, fun _ => ?_, ?_, hs.elsewhere⟩
    · intro b hb'
      obtain ⟨b₀, -, rfl⟩ := Option.map_eq_some_iff.mp hb'
      exact ⟨fun h => absurd rfl h, rfl⟩
    · intro p hp'
      obtain ⟨p₀, -, rfl⟩ := Option.map_eq_some_iff.mp hp'
      exact fun h => absurd rfl h
    · simp only [cancelView]
      split <;> simpa using ha
    · intro a ha'
      simp only [cancelView] at ha'
      split at ha'
      · obtain ⟨a₀, h₀, rfl⟩ := Option.map_eq_some_iff.mp ha'
        exact hs.params a₀ h₀
      · exact hs.params a ha'

theorem sane_running {f : Features} {clk : Nat → UInt64} {q : Pid} {v : View} (hs : Sane q v) :
    Sane q (runningView f clk q v) := by
  unfold runningView
  split
  · rename_i a b ha hb
    split
    · exact hs
    · exact ⟨by simp, hs.sched, fun _ => by simp [ha], hs.params, hs.elsewhere⟩
  · exact hs

theorem sane_stopping {runnable : Bool} {q : Pid} {v : View} (hs : Sane q v) :
    Sane q (stoppingView runnable v) := by
  unfold stoppingView
  split
  · exact hs.gone
  · exact hs

theorem sane_yield {clk : Nat → UInt64} {q : Pid} {v : View} (hs : Sane q v) : Sane q (yieldView clk v) := by
  unfold yieldView
  split
  · rename_i b a hb ha
    split
    · exact ⟨by simp [rmsTimerSetRemain, rmsTimerCancel], hs.sched, fun _ => by simp,
        by simpa using hs.params a ha, hs.elsewhere⟩
    · exact hs
  · exact hs

theorem sane_step {s : St} {q : Pid} {e : Ev} {v v' : View} (hs : Sane q v)
    (h : ViewStep cfg s q e v v') : Sane q v' := by
  cases h with
  | same => exact hs
  | fork _ => exact hs.task (by simp)
  | register _ _ _ hb hp => exact ⟨hs.budget, hs.sched, fun _ => by simp, by simp [hb, hp], hs.elsewhere⟩
  | repolicy _ _ ho _ => exact hs.task (by simp [ho])
  | enter hc _ ho _ h => exact sane_cpumask (hs.task (by simp)) h
  | die hc _ _ => exact hs.task (by simpa using hs.elsewhere _ hc)
  | reap hc _ _ => split <;> exact (Sane.task (by first | exact hs.gone | exact hs) (by simp))
  | running hc _ hpol _ => exact sane_running (hs.task (by simp [hpol]))
  | stopping hc _ _ => exact sane_stopping (hs.task (by simp))
  | yield hc _ _ _ => exact sane_yield hs
  | setCpumask hc _ ho h => exact sane_cpumask (hs.task (by simp [ho])) h
  | budgetExpiry _ h =>
    cases h with
    | other _ => exact hs
    | noAttr _ _ hb =>
      exact ⟨by simpa using (hs.budget _ hb).2, hs.sched, fun _ => hs.attr (.inl (by simp [hb])), hs.params,
        hs.elsewhere⟩
    | spent _ ha hb _ =>
      exact ⟨by simpa [budgetView] using (hs.budget _ hb).2, hs.sched, fun _ => by simp [budgetView],
        by simpa [budgetView] using hs.params _ ha, hs.elsewhere⟩
    | overrun _ hb hst =>
      obtain ⟨h1, h2, h3⟩ := hst
      refine ⟨?_, hs.sched, fun _ => hs.attr (.inl (by simp [hb])), hs.params, hs.elsewhere⟩
      intro b' hb'
      cases hb'
      refine ⟨?_, h2⟩
      intro ht
      rw [h1]
      rcases h3 with h3 | h3
      · exact absurd h3 ht
      · exact (hs.budget _ hb).1 (h3 ▸ ht)
  | periodExpiry hexp h =>
    cases h with
    | release hc hpol ha hb hp =>
      obtain ⟨-, e, he, -⟩ := hexp _ hp
      have hown := hs.sched _ hp (by rw [Option.mem_def.mp he]; simp)
      refine ⟨by simpa [releaseView] using hs.budget _ hb, ?_, fun _ => by simp [releaseView],
        by simpa [releaseView] using hs.params _ ha, hs.elsewhere⟩
      intro p' hp'
      cases hp'
      simp [refreshTimer, hown]
    | exit hp _ => exact ⟨hs.budget, by simp, fun _ => hs.attr (.inr (by simp [hp])), hs.params, hs.elsewhere⟩

theorem sane_dispatch {f : Features} {q : Pid} {s s' : St} (hs : Sane q (view s q))
    (h : DispatchStep f q s s') :
    Sane q (view s' q) := by
  cases h with
  | same hv _ => exact hv ▸ hs
  | restart _ ha _ hv =>
    rw [hv]
    refine ⟨hs.budget, ?_, fun _ => by simp [restartView], by simpa [restartView] using hs.params _ ha,
      hs.elsewhere⟩
    intro p hp
    obtain ⟨p₀, -, rfl⟩ := Option.map_eq_some_iff.mp hp
    exact fun _ => ⟨rfl, UInt64.pos_iff_ne_zero.mpr (hs.params _ ha).2⟩

/-! ## The queues -/

theorem cpuQueues_kickCpu (cpu : Cpu) (s : St) : (kickCpu cpu s).cpuQueues = s.cpuQueues := by
  unfold kickCpu; split <;> rfl

theorem cpuQueues_rmsEnqueue (u : Pid) (curCpu : Cpu) (pid : Pid) (p : Task) (s : St) :
    (rmsEnqueue u curCpu pid p s).cpuQueues = s.cpuQueues := by
  unfold rmsEnqueue
  split
  · unfold dsqInsertLocal
    split
    · split <;> rfl
    · rfl
  · split
    · rfl
    · split
      · simp only
        split <;> simp [cpuQueues_kickCpu]
      · rfl

/-- The period callback is the one that queues. -/
theorem cpuQueues_rmsCallbackPeriod (clk : Nat → UInt64) (key : Pid) (s : St) :
    (rmsCallbackPeriod clk key s).cpuQueues = s.cpuQueues ∨
      ∃ cpu pid, (rmsCallbackPeriod clk key s).cpuQueues = (cpuQueuePush s.cpuQueues cpu pid).2 := by
  unfold rmsCallbackPeriod
  split
  · exact .inl rfl
  rename_i timer _
  simp only
  split
  · exact .inl rfl
  · split
    · exact .inl rfl
    · split
      · rename_i attr _ _ _
        refine .inr ⟨attr.cpu, timer.arg, ?_⟩
        show (kickCpu attr.cpu _).cpuQueues = _
        rw [cpuQueues_kickCpu]
        rfl
      · exact .inl rfl

/-! ## One step -/

variable (cfg) in
/-- What a step makes of the view of `q`, and of the queues `q` is in. -/
inductive Effect (s s' : St) (q : Pid) : Ev → Prop
  | dispatch {cpu : Cpu} {lags : List Nat} : DispatchStep cfg.features q s s' →
    Effect s s' q (.dispatch cpu lags)
  | other {e : Ev} : (∀ c, q ∈ queued s.cpuQueues c → q ∈ queued s'.cpuQueues c) →
      ViewStep cfg s q e (view s q) (view s' q) → Effect s s' q e

theorem act_of_step {e : Ev} {s s' : St} (h : step cfg e s = some s') :
    s.error = none ∧ act cfg e s = some s' := by
  unfold step at h
  split at h
  · rename_i he
    exact ⟨he, h⟩
  · cases h

theorem onTask_eq_some {s s' : St} {pid : Pid} {p : Task → Prop} [DecidablePred p] {k : Task → St} :
    onTask s pid p k = some s' ↔ ∃ t, s.tasks pid = some t ∧ p t ∧ k t = s' := by
  unfold onTask
  split <;> simp_all

theorem armed_of_expired {now : Nat} {index : UInt64} {timer : RmsTimer} (h : expired now index timer) :
    timer.t ≠ none := by
  obtain ⟨-, e, he, -⟩ := h
  rw [Option.mem_def.mp he]
  exact Option.some_ne_none e

theorem act_budgetExpiry {s s' : St} {pid : Pid} {cpu : Cpu} {lags : List Nat}
    (h : act cfg (.budgetExpiry pid cpu lags) s = some s') :
    ∃ b, (view s pid).budget = some b ∧ expired s.now budgetCallback b ∧
      spend lags (rmsCallbackBudget cfg.features (clkOf s.now lags) pid cpu (fireBudget pid s)) = s' := by
  simp only [act] at h
  split at h
  · rename_i b hb
    simp only [Option.ite_none_right_eq_some, Option.some.injEq] at h
    obtain ⟨⟨hexp, -⟩, hs⟩ := h
    exact ⟨b, hb, hexp, hs⟩
  · cases h

theorem act_periodExpiry {s s' : St} {pid : Pid} {lags : List Nat}
    (h : act cfg (.periodExpiry pid lags) s = some s') :
    ∃ p, (view s pid).sched = some p ∧ expired s.now periodCallback p ∧
      spend lags (rmsCallbackPeriod (clkOf s.now lags) pid (fireSched pid s)) = s' := by
  simp only [act] at h
  split at h
  · rename_i p hp
    simp only [Option.ite_none_right_eq_some, Option.some.injEq] at h
    obtain ⟨⟨hexp, -⟩, hs⟩ := h
    exact ⟨p, hp, hexp, hs⟩
  · cases h

/-- An event that leaves the queues alone and changes the view of one task. -/
theorem effect_of_update {e : Ev} {s s' : St} {pid : Pid} {w : View} (hwf : QueuesWF s.cpuQueues)
    (hq : s'.cpuQueues = s.cpuQueues) (hv : view s' = Function.update (view s) pid w)
    (h : ViewStep cfg s pid e (view s pid) w) (he : ∀ q, q ≠ pid → ¬ e.drives q) :
    QueuesWF s'.cpuQueues ∧ ∀ q, Effect cfg s s' q e := by
  refine ⟨hq ▸ hwf, fun q => .other (fun c hc => hq ▸ hc) ?_⟩
  rw [hv]
  by_cases hne : q = pid
  · subst hne
    rwa [Function.update_self]
  · rw [Function.update_of_ne hne]
    exact .same (he q hne)

/-- An event that changes no view. -/
theorem effect_of_same {e : Ev} {s s' : St} (hwf : QueuesWF s.cpuQueues) (hq : s'.cpuQueues = s.cpuQueues)
    (hv : view s' = view s) (he : ∀ q, ¬ e.drives q) : QueuesWF s'.cpuQueues ∧ ∀ q, Effect cfg s s' q e :=
  ⟨hq ▸ hwf, fun q => .other (fun _ hc => hq ▸ hc) (hv ▸ .same (he q))⟩

theorem view_task {s : St} {pid : Pid} {t : Task} (ht : s.tasks pid = some t) :
    (view s pid).task = some (core t) := by
  simp [view, ht]

theorem core_live {t : Task} : (core t).live = true ↔ isLive t := by simp [core, isLive]

theorem core_on {t : Task} : (core t).on = true ↔ t.pos = .on := by simp [core]

theorem core_off {t : Task} (h : t.pos ≠ .on) : (core t).on = false := by simp [core, h]

theorem keepsCpu_eq {s : St} {pid : Pid} {t : Task} (ht : s.tasks pid = some t) (cpumask : Finset Cpu) :
    keepsCpu s pid cpumask = decide (t.cpu ∈ cpumask) := by simp [keepsCpu, ht]

theorem isExecuting_core {t : Task} (h : isExecuting t) : (core t).on = true ∨ (core t).policy ≠ schedExt :=
  h.imp core_on.mpr id

theorem setscheduler_effect {s : St} {pid : Pid} {policy : Nat} {lags : List Nat} {t : Task}
    (hwf : QueuesWF s.cpuQueues) (ht : s.tasks pid = some t) (hl : isLive t) (hp : t.pos = .off) :
    QueuesWF (spend lags (setscheduler cfg (clkOf s.now lags) pid policy t s)).cpuQueues ∧
      ∀ q, Effect cfg s (spend lags (setscheduler cfg (clkOf s.now lags) pid policy t s)) q
        (.setscheduler pid policy lags) := by
  have hoff : (core t).on = false := core_off (by simp [hp])
  have hset : view (setTask pid { t with policy := policy } s) = Function.update (view s) pid
      { view s pid with task := some { core t with policy := policy } } := view_setTask _ _ _
  unfold setscheduler
  simp only
  split
  · rename_i hin
    obtain ⟨hne, rfl⟩ := hin
    obtain ⟨v, hv, hstep⟩ := view_rmsSetCpumask cfg.features cfg.userschedPid (clkOf s.now lags) pid
      (p := { t with policy := schedExt }) t.cpusPtr (s := setTask pid { t with policy := schedExt } s)
      (by rw [hset, Function.update_self]; rfl)
    rw [hset, Function.update_self] at hstep
    refine effect_of_update hwf (rmsSetCpumask_maps ..).cpuQueues (w := v) ?_
      (.enter (view_task ht) (core_live.mpr hl) hoff hne ?_) fun _ _ => id
    · rw [view_spend, hv, hset, Function.update_idem]
    · exact (keepsCpu_eq ht t.cpusPtr) ▸ hstep
  · rename_i hin
    have hrep : ViewStep cfg s pid (.setscheduler pid policy lags) (view s pid)
        { view s pid with task := some { core t with policy := policy } } :=
      .repolicy (view_task ht) (core_live.mpr hl) hoff
        (or_iff_not_imp_left.mpr fun h e => hin ⟨h, e⟩)
    split
    · rename_i hout
      refine effect_of_update hwf (rmsDisable_maps ..).cpuQueues (w := _) ?_ hrep fun _ _ => id
      rw [view_spend, view_rmsDisable, hset, Function.update_self, if_neg hout.2, Function.update_idem]
    · exact effect_of_update hwf rfl (by rw [view_spend, hset]) hrep fun _ _ => id

theorem expiry_budget {s s' : St} {pid : Pid} {cpu : Cpu} {lags : List Nat} (hb : Base s)
    (h : act cfg (.budgetExpiry pid cpu lags) s = some s') :
    QueuesWF s'.cpuQueues ∧ ∀ q, Effect cfg s s' q (.budgetExpiry pid cpu lags) := by
  obtain ⟨b, hbud, hexp, rfl⟩ := act_budgetExpiry h
  obtain ⟨harg, hper⟩ := (hb.2 pid).budget b hbud
  have hq : (rmsCallbackBudget cfg.features (clkOf s.now lags) pid cpu (fireBudget pid s)).cpuQueues =
      s.cpuQueues := by
    rw [rmsCallbackBudget_timer]; rfl
  refine ⟨hq ▸ hb.1, fun q => .other (fun c hc => hq ▸ hc) (.budgetExpiry ?_ ?_)⟩
  · intro hk b' hb'
    rw [hk, hbud] at hb'; cases hb'
    exact hexp
  · rw [view_spend]
    exact view_budgetExpiry cfg.features (clkOf s.now lags) cpu hbud (harg (armed_of_expired hexp)) hper q

theorem expiry_period {s s' : St} {pid : Pid} {lags : List Nat} (hb : Base s)
    (h : act cfg (.periodExpiry pid lags) s = some s') :
    QueuesWF s'.cpuQueues ∧ ∀ q, Effect cfg s s' q (.periodExpiry pid lags) := by
  obtain ⟨p, hsch, hexp, rfl⟩ := act_periodExpiry h
  have harg := ((hb.2 pid).sched p hsch (armed_of_expired hexp)).1
  obtain ⟨v, hstep, hv⟩ := view_periodExpiry (clkOf s.now lags) hsch harg
  -- the queues are as before or have one pid more
  have hq : QueuesWF (rmsCallbackPeriod (clkOf s.now lags) pid (fireSched pid s)).cpuQueues ∧
      ∀ q c, q ∈ queued s.cpuQueues c →
        q ∈ queued (rmsCallbackPeriod (clkOf s.now lags) pid (fireSched pid s)).cpuQueues c := by
    rcases cpuQueues_rmsCallbackPeriod (clkOf s.now lags) pid (fireSched pid s) with e | ⟨cpu, k, e⟩
    · rw [e]
      exact ⟨hb.1, fun _ _ h => h⟩
    · rw [e]
      obtain ⟨h1, h2⟩ := push_queued hb.1 cpu k
      refine ⟨h1, ?_⟩
      intro q c hc
      rcases h2 c with h | ⟨-, h⟩
      · exact h ▸ hc
      · exact h ▸ List.mem_append_left _ hc
  refine ⟨hq.1, fun q => .other (hq.2 q) ?_⟩
  rw [view_spend, hv]
  by_cases hk : q = pid
  · subst hk
    rw [Function.update_self]
    refine .periodExpiry ?_ hstep
    intro p' hp'
    rw [hsch] at hp'; cases hp'
    exact hexp
  · rw [Function.update_of_ne hk]
    exact .same fun h => hk h.symm

theorem act_effect {e : Ev} {s s' : St} (hb : Base s) (h : act cfg e s = some s') :
    QueuesWF s'.cpuQueues ∧ ∀ q, Effect cfg s s' q e := by
  cases e with
  | tick d =>
    simp only [act, Option.ite_none_right_eq_some, Option.some.injEq] at h
    obtain ⟨-, rfl⟩ := h
    exact effect_of_same hb.1 rfl (view_of rfl rfl) fun _ => id
  | fork pid policy cpumask cpu =>
    simp only [act, Option.ite_none_right_eq_some, Option.some.injEq] at h
    obtain ⟨hn, rfl⟩ := h
    exact effect_of_update hb.1 rfl (view_setTask _ _ _) (.fork (by simp [view, hn])) fun _ _ => id
  | register pid cpu budget period =>
    obtain ⟨t, ht, ⟨hl, hex, -, -, hbud, hper⟩, rfl⟩ := onTask_eq_some.mp h
    rcases hu : s.maps.taskAttr.update pid ⟨cpu, budget, period, 0, 0⟩ with _ | m
    · exact effect_of_same hb.1 rfl (view_of rfl rfl) fun _ => id
    · refine effect_of_update hb.1 rfl (w := { view s pid with attr := some ⟨cpu, budget, period, 0, 0⟩ }) ?_
        (.register (view_task ht) (core_live.mpr hl) (isExecuting_core hex) hbud hper) fun _ _ => id
      funext q
      by_cases hne : q = pid
      · subst hne
        simp [view, BoundedMap.lookup_update hu]
      · simp [view, BoundedMap.lookup_update hu, hne]
  | setscheduler pid policy lags =>
    obtain ⟨t, ht, ⟨hl, hp, -⟩, rfl⟩ := onTask_eq_some.mp h
    exact setscheduler_effect hb.1 ht hl hp
  | die pid =>
    obtain ⟨t, ht, ⟨hl, hex⟩, rfl⟩ := onTask_eq_some.mp h
    refine effect_of_update hb.1 rfl (view_setTask _ _ _) ?_ fun _ _ => id
    have hs : ViewStep cfg s pid (.die pid) (view s pid)
        { view s pid with task := some { core t with live := false } } :=
      .die (view_task ht) (core_live.mpr hl) (isExecuting_core hex)
    simpa [core] using hs
  | reap pid lags =>
    obtain ⟨t, ht, ⟨hl, hp, -⟩, rfl⟩ := onTask_eq_some.mp h
    refine effect_of_update hb.1 (rmsDisable_maps ..).cpuQueues ?_
      (.reap (view_task ht) (by simpa [← core_live] using hl) (core_off (by simp [hp]))) fun _ _ => id
    rw [view_spend, view_untask, view_rmsDisable, Function.update_self, Function.update_idem]
    rfl
  | selectCpu pid anyCpu =>
    obtain ⟨t, ht, -, rfl⟩ := onTask_eq_some.mp h
    exact effect_of_same hb.1 rfl (view_setTask_same ht rfl) fun _ => id
  | migrate pid cpu =>
    obtain ⟨t, ht, -, rfl⟩ := onTask_eq_some.mp h
    exact effect_of_same hb.1 rfl (view_setTask_same ht rfl) fun _ => id
  | enqueue pid curCpu =>
    obtain ⟨t, ht, ⟨-, -, hp⟩, rfl⟩ := onTask_eq_some.mp h
    refine effect_of_same hb.1 (cpuQueues_rmsEnqueue ..) ?_ fun _ => id
    rw [view_rmsEnqueue]
    exact view_setTask_same ht (by simp [core, hp])
  | dequeue pid =>
    obtain ⟨t, ht, hp, rfl⟩ := onTask_eq_some.mp h
    refine effect_of_same hb.1 rfl ?_ fun _ => id
    rw [view_setTask_same (s := unqueue pid s) (t := t) ht
      (by rcases hp with hp | hp <;> simp [core, hp]), view_unqueue]
  | dispatch cpu lags =>
    simp only [act, Option.ite_none_right_eq_some, Option.some.injEq] at h
    obtain ⟨-, rfl⟩ := h
    obtain ⟨h1, h2⟩ := rmsDispatch_step cfg.features (clkOf s.now lags) cpu hb.1
    refine ⟨h1, fun q => .dispatch ((h2 q).trans (.same (by rw [view_spend]) fun _ hc => .inl hc))⟩
  | running pid lags =>
    obtain ⟨t, ht, ⟨hl, hpol, hp, -, -⟩, rfl⟩ := onTask_eq_some.mp h
    refine effect_of_update hb.1 (rmsRunning_maps ..).cpuQueues ?_
      (.running (view_task ht) (core_live.mpr hl) hpol (core_off hp)) fun _ hne h => hne h.symm
    have hv : view { unqueue pid s with curr := Function.update s.curr t.cpu (some pid) } = view s :=
      view_of rfl rfl
    rw [view_spend, view_rmsRunning, view_setTask, hv]
    simp [core, unqueue]
  | stopping pid runnable lags =>
    obtain ⟨t, ht, ⟨hp, hl, -⟩, rfl⟩ := onTask_eq_some.mp h
    refine effect_of_update hb.1 (rmsStopping_maps ..).cpuQueues ?_
      (.stopping (view_task ht) (core_on.mpr hp) (hl.imp_left core_live.mpr)) fun _ _ => id
    have hv : view { setTask pid { t with pos := .off } s with
        curr := Function.update s.curr t.cpu none, resched := s.resched.erase t.cpu } =
        view (setTask pid { t with pos := .off } s) := view_of rfl rfl
    rw [view_spend, view_rmsStopping (t := { t with pos := .off }) _ (by rw [hv]; simp) t rfl, hv,
      view_setTask]
    simp [core]
  | yield pid lags =>
    obtain ⟨t, ht, ⟨hl, hp, -⟩, rfl⟩ := onTask_eq_some.mp h
    have hv := view_rmsYield cfg.userschedPid (clkOf s.now lags) pid (p := t)
      (s := { s with resched := insert t.cpu s.resched }) (view_task ht)
    rw [view_resched s (insert t.cpu s.resched)] at hv
    by_cases hu : pid = cfg.userschedPid
    · rw [if_pos hu, Function.update_eq_self] at hv
      exact effect_of_same hb.1 (rmsYield_maps ..).cpuQueues (by rw [view_spend, hv]) fun _ => id
    · rw [if_neg hu] at hv
      exact effect_of_update hb.1 (rmsYield_maps ..).cpuQueues (by rw [view_spend, hv])
        (.yield (view_task ht) (core_live.mpr hl) (core_on.mpr hp) hu) fun _ _ => id
  | setCpumask pid cpumask lags =>
    obtain ⟨t, ht, ⟨hl, hp, -⟩, rfl⟩ := onTask_eq_some.mp h
    obtain ⟨v, hv, hstep⟩ := view_rmsSetCpumask cfg.features cfg.userschedPid (clkOf s.now lags) pid
      (p := { t with cpusPtr := cpumask }) cpumask (s := setTask pid { t with cpusPtr := cpumask } s) (by simp)
    rw [view_setTask, Function.update_self] at hstep
    refine effect_of_update hb.1 (rmsSetCpumask_maps ..).cpuQueues (w := v) ?_
      (.setCpumask (view_task ht) (core_live.mpr hl) (core_off (by simp [hp])) ?_) fun _ _ => id
    · rw [view_spend, hv, view_setTask, Function.update_idem]
    · exact (keepsCpu_eq ht cpumask) ▸ hstep
  | budgetExpiry pid cpu lags => exact expiry_budget hb h
  | periodExpiry pid lags => exact expiry_period hb h

theorem step_effect {e : Ev} {s s' : St} (hb : Base s) (h : step cfg e s = some s') :
    QueuesWF s'.cpuQueues ∧ ∀ q, Effect cfg s s' q e := act_effect hb (act_of_step h).2

/-! ## Runs -/

theorem base_init : Base init :=
  ⟨zeroQueue_wf, fun _ => ⟨by simp [view, init, Maps.empty], by simp [view, init, Maps.empty],
    by simp [view, init, Maps.empty], by simp [view, init, Maps.empty], by simp [view, init]⟩⟩

theorem base_step {e : Ev} {s s' : St} (hb : Base s) (h : step cfg e s = some s') : Base s' := by
  obtain ⟨hq, heff⟩ := step_effect hb h
  refine ⟨hq, ?_⟩
  intro q
  cases heff q with
  | dispatch hd => exact sane_dispatch (hb.2 q) hd
  | other _ hv => exact sane_step (hb.2 q) hv

end Ksight.Rms

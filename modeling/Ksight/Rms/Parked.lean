/-
  Ksight.Rms.Parked — whether a parked task comes back.

  A task whose `is_yield` is set is parked: `rms_enqueue` refuses it, so nothing but its
  period callback, or a dispatch that finds it queued, makes it run again. It comes back
  when its period timer is armed or its pid is in the queue of a CPU it may run on.

  What takes a period timer away without asking is `rms_set_cpumask`: a task with timers
  whose CPU is not in the new mask has both of them cancelled. Without FEATURE_MIGRATION
  nothing starts them again. With it the task is marked and the next dispatch that pops it
  starts its period timer, but a parked task is in no queue, and what would queue it is
  that timer (`a_moved_task_is_stranded`, either way).

  The law holds in every run whose steps leave a task with timers a way back (`LeavesAWay`,
  `not_stranded`): an affinity change keeps its CPU, or finds it in the queue of a CPU of
  the new mask under FEATURE_MIGRATION; it does not register again while it is marked; and
  it does not die under another policy, when no callback takes its timers away and the
  next task with its pid inherits them.
-/

import Ksight.Rms.Step

namespace Ksight.Rms.Parked

open Ksight.Lib

def Timed (v : View) : Prop := v.budget ≠ none ∧ v.sched ≠ none

instance (v : View) : Decidable (Timed v) := inferInstanceAs (Decidable (_ ∧ _))

def Armed (v : View) : Prop := v.sched.bind (·.t) ≠ none

instance (v : View) : Decidable (Armed v) := inferInstanceAs (Decidable (_ ≠ _))

/-- A dispatch on a CPU of the mask will pop the pid. -/
def Waits (s : St) (q : Pid) (mask : Finset Cpu) : Prop :=
  ∃ c ∈ mask, hasQueue c = true ∧ q ∈ queued s.cpuQueues c

instance (s : St) (q : Pid) (mask : Finset Cpu) : Decidable (Waits s q mask) :=
  inferInstanceAs (Decidable (∃ c ∈ mask, _))

/-- If the task of `q` is parked it comes back. -/
def NotStranded (s : St) (q : Pid) : Prop :=
  ∀ c ∈ (view s q).task, ∀ a ∈ (view s q).attr, c.live = true ∧ c.policy = schedExt →
    a.isYield ≠ 0 → Timed (view s q) → Armed (view s q) ∨ Waits s q c.cpusPtr

instance (s : St) (q : Pid) : Decidable (NotStranded s q) :=
  inferInstanceAs (Decidable (∀ c ∈ (view s q).task, _))

variable (cfg : Config)

/-- A report of `mask` for the task of `q` under `policy` takes no period timer away for good. -/
def Survives (s : St) (q : Pid) (policy : Nat) (mask : Finset Cpu) : Prop :=
  Timed (view s q) → Armed (view s q) ∧ (policy = schedExt → keepsCpu s q mask = true) ∨
    cfg.features.migration = true ∧ Waits s q mask

instance (s : St) (q : Pid) (policy : Nat) (mask : Finset Cpu) : Decidable (Survives cfg s q policy mask) :=
  inferInstanceAs (Decidable (_ → _))

def LeavesAWay : Ev → St → Prop
  | .setCpumask pid cpumask _, s => ∀ c ∈ (view s pid).task, Survives cfg s pid c.policy cpumask
  | .setscheduler pid policy _, s => ∀ c ∈ (view s pid).task, c.policy ≠ schedExt →
    Survives cfg s pid policy c.cpusPtr
  | .register pid _ _ _, s => cfg.features.migration = true → ∀ a ∈ (view s pid).attr, a.isMigrate = 0
  | .die pid, s => ∀ c ∈ (view s pid).task, c.policy ≠ schedExt → ¬ Timed (view s pid)
  | _, _ => True

instance (s : St) : (e : Ev) → Decidable (LeavesAWay cfg e s)
  | .setCpumask .. | .setscheduler .. | .die .. => inferInstanceAs (Decidable (∀ _ ∈ (view s _).task, _))
  | .register .. => inferInstanceAs (Decidable (_ → ∀ _ ∈ (view s _).attr, _))
  | .tick .. | .fork .. | .reap .. | .selectCpu .. | .migrate .. | .enqueue .. | .dequeue .. | .dispatch ..
  | .running .. | .stopping .. | .yield .. | .budgetExpiry .. | .periodExpiry .. => .isTrue trivial

/-- What brings a task with timers back. -/
def Returns (s : St) (q : Pid) (v : View) (mask : Finset Cpu) : Prop :=
  Armed v ∨ Migrating cfg.features v ∧ Waits s q mask

/-- A task with timers has not been reaped, and it comes back. -/
def Lasts (s : St) (q : Pid) (v : View) : Prop :=
  Timed v → ∃ c, v.task = some c ∧ (c.live = true ∨ c.on = true) ∧ Returns cfg s q v c.cpusPtr

/-- A period callback that finds its task under another policy leaves the timer unarmed,
    and has reported an error then. -/
structure Inv (s : St) : Prop where
  base : Base s
  lasts : ∀ q, (s.error = none ∨ ∃ c ∈ (view s q).task, c.policy = schedExt) → Lasts cfg s q (view s q)

variable {cfg}

/-! ## Steps -/

theorem Waits.mono {s s' : St} {q : Pid} {mask : Finset Cpu} (h : Waits s q mask)
    (hq : ∀ c, q ∈ queued s.cpuQueues c → q ∈ queued s'.cpuQueues c) : Waits s' q mask := by
  obtain ⟨c, hm, hc, hin⟩ := h
  exact ⟨c, hm, hc, hq c hin⟩

theorem Returns.mono {s : St} {q : Pid} {v v' : View} {mask : Finset Cpu} (h : Returns cfg s q v mask)
    (ha : Armed v → Armed v') (hm : Migrating cfg.features v → Migrating cfg.features v') :
    Returns cfg s q v' mask :=
  h.imp ha (And.imp_left hm)

/-- The period callback reports a task of another policy. -/
theorem periodExpiry_error {s s' : St} {q : Pid} {lags : List Nat} (hb : Base s)
    (h : act cfg (.periodExpiry q lags) s = some s') {c : Core} (hc : (view s q).task = some c)
    (hpol : c.policy ≠ schedExt) : s'.error ≠ none := by
  obtain ⟨p, hp, hexp, rfl⟩ := act_periodExpiry h
  have harg : p.arg = q := ((hb.2 q).sched p hp (armed_of_expired hexp)).1
  obtain ⟨t, ht, rfl⟩ := Option.map_eq_some_iff.mp hc
  have ht' : (fireSched q s).tasks q = some t := ht
  have hpol' : t.policy ≠ schedExt := hpol
  simp only [spend, rmsCallbackPeriod, lookup_fireSched hp, harg, ht', if_pos hpol', scxError]
  cases (fireSched q s).error <;> simp

/-- A report of the mask: an earlier way back, and the condition on the mask, make one
    after it. -/
theorem returns_cpumask {s : St} {clk : Nat → UInt64} {q : Pid} {policy : Nat} {mask : Finset Cpu}
    {v v' : View} {c : Core} (hc : v.task = some c) (hpol : c.policy = policy)
    (hr : Timed v → Armed v ∨ Migrating cfg.features v)
    (hok : Timed v → Armed v ∧ (policy = schedExt → keepsCpu s q mask = true) ∨
      cfg.features.migration = true ∧ Waits s q mask)
    (h : CpumaskStep cfg.features clk q (keepsCpu s q mask) v v') : Timed v' → Returns cfg s q v' mask := by
  intro ht
  cases h with
  | same =>
    rcases hok ht with ⟨ha, -⟩ | ⟨-, hw⟩
    · exact .inl ha
    · exact (hr ht).imp id fun hm => ⟨hm, hw⟩
  | init br sr _ _ _ _ =>
    have hs : sr = true := by
      have := ht.2
      cases sr <;> simp_all [firstInitView]
    exact .inl (by simp [Armed, firstInitView, hs])
  | cancel hext hb hs ha hk =>
    rcases hok ⟨hb, hs⟩ with ⟨-, hkeep⟩ | ⟨hm, hw⟩
    · rw [hkeep (hpol ▸ hext c hc)] at hk; cases hk
    · obtain ⟨a, ha'⟩ := Option.ne_none_iff_exists'.mp ha
      refine .inr ⟨⟨hm, by simp [cancelView, hc], { a with isMigrate := 1 }, ?_, by simp⟩, hw⟩
      simp [cancelView, hm, ha']

theorem task_cpumask {f : Features} {clk : Nat → UInt64} {q : Pid} {keeps : Bool} {v v' : View}
    (h : CpumaskStep f clk q keeps v v') : v'.task = v.task := by cases h <;> rfl

theorem Lasts.mono {s : St} {q : Pid} {v v' : View} (h : Lasts cfg s q v) (ht : v'.task = v.task)
    (htm : Timed v' → Timed v) (ha : Armed v → Armed v')
    (hm : Migrating cfg.features v → Migrating cfg.features v') : Lasts cfg s q v' := by
  intro h'
  obtain ⟨c, hc, hl, hr⟩ := h (htm h')
  exact ⟨c, ht.trans hc, hl, hr.mono ha hm⟩

theorem Lasts.task {s : St} {q : Pid} {v : View} (h : Lasts cfg s q v) {c c' : Core}
    (hc : v.task = some c) (hp : c'.cpusPtr = c.cpusPtr)
    (hl : Timed v → (c.live = true ∨ c.on = true) → (c'.live = true ∨ c'.on = true)) :
    Lasts cfg s q { v with task := some c' } := by
  intro ht
  obtain ⟨c₀, hc₀, hlo, hr⟩ := h ht
  rw [hc] at hc₀; cases hc₀
  exact ⟨c', rfl, hl ht hlo, hp ▸ hr.mono id fun ⟨h1, _, h3⟩ => ⟨h1, by simp, h3⟩⟩

theorem Lasts.of_mask {s : St} {clk : Nat → UInt64} {q : Pid} {v' : View} {c : Core}
    (h : Lasts cfg s q (view s q))
    (hs : CpumaskStep cfg.features clk q (keepsCpu s q c.cpusPtr) { view s q with task := some c } v')
    (hl : c.live = true) (hok : Survives cfg s q c.policy c.cpusPtr) : Lasts cfg s q v' := by
  intro ht
  refine ⟨c, task_cpumask hs, .inl hl,
    returns_cpumask (v := { view s q with task := some c }) rfl rfl ?_ hok hs ht⟩
  intro ht
  obtain ⟨c₀, hc₀, -, hr⟩ := h ht
  exact hr.imp id fun ⟨⟨h1, _, h3⟩, _⟩ => ⟨h1, by simp, h3⟩

theorem lasts_running {s : St} {clk : Nat → UInt64} {q : Pid} {v : View} (h : Lasts cfg s q v) :
    Lasts cfg s q (runningView cfg.features clk q v) := by
  unfold runningView
  split
  · rename_i hb
    split
    · exact h
    · exact h.mono rfl (fun ht => ⟨by simp [hb], ht.2⟩) id id
  · exact h

theorem lasts_yield {s : St} {clk : Nat → UInt64} {q : Pid} {v : View} (h : Lasts cfg s q v) :
    Lasts cfg s q (yieldView clk v) := by
  unfold yieldView
  split
  · rename_i a hb ha
    split
    · exact h.mono rfl (fun ht => ⟨by simp [hb], ht.2⟩) id fun ⟨h1, h2, a', h3, h4⟩ =>
        ⟨h1, h2, { a with isYield := 1 }, rfl, by rw [ha] at h3; cases h3; exact h4⟩
    · exact h
  · exact h

/-- A step other than a dispatch keeps the way back, unless it is the period callback of a
    task of another policy. -/
theorem lasts_step {s : St} {q : Pid} {e : Ev} {v v' : View} (hv : view s q = v) (hs : Sane q v)
    (hl : Lasts cfg s q v) (hok : LeavesAWay cfg e s) (h : ViewStep cfg s q e v v') :
    Lasts cfg s q v' ∨ ∃ lags c, e = .periodExpiry q lags ∧ v.task = some c ∧ v'.task = some c ∧
      c.policy ≠ schedExt := by
  subst hv
  cases h with
  | periodExpiry hexp h =>
    cases h with
    | release hc hpol ha hb hp =>
      have hper := (hs.sched _ hp (armed_of_expired (hexp _ hp))).2
      refine .inl (hl.mono rfl (fun _ => ⟨by simp [hb], by simp [hp]⟩) (fun _ => ?_)
        fun ⟨h1, h2, a, h3, h4⟩ => ⟨h1, h2, { a with isYield := 0 }, ?_, h4⟩)
      · exact refreshTimer_armed hper
      · rw [ha] at h3; cases h3; rfl
    | exit hp hno =>
      by_cases ht : Timed (view s q)
      · obtain ⟨c, hc, -, -⟩ := hl ht
        refine .inr ⟨_, c, rfl, hc, hc, ?_⟩
        intro hpol
        rcases hno c hc hpol with hn | hn
        · exact hs.attr (.inl ht.1) hn
        · exact ht.1 hn
      · exact .inl fun ht' => absurd ⟨ht'.1, by simp [hp]⟩ ht
  | same => exact .inl hl
  | fork hn =>
    apply Or.inl
    intro ht
    obtain ⟨c, hc, -⟩ := hl ht
    rw [hn] at hc; cases hc
  | register =>
    refine .inl (hl.mono rfl id id fun ⟨h1, h2, a, h3, h4⟩ => absurd (hok h1 a h3) h4)
  | repolicy hc hlive ho hpol => exact .inl (hl.task hc rfl fun _ h => h)
  | @enter _ _ _ c hc hlive ho hne h =>
    exact .inl (hl.of_mask (c := { c with policy := schedExt }) h hlive (hok c hc hne))
  | die hc hlive hex =>
    exact .inl (hl.task hc rfl fun ht _ => .inr (hex.resolve_right fun hne => hok _ hc hne ht))
  | reap hc hlive ho =>
    apply Or.inl
    intro ht
    have ht' : Timed (view s q) := by
      split at ht
      · exact absurd rfl ht.1
      · exact ht
    obtain ⟨c, hc', hlo, -⟩ := hl ht'
    rw [hc] at hc'; cases hc'
    simp [hlive, ho] at hlo
  | running hc hlive hpol ho => exact .inl (lasts_running (hl.task hc rfl fun _ _ => .inl hlive))
  | @stopping runnable _ _ c hc ho hlive =>
    unfold stoppingView
    split
    · exact .inl fun ht => absurd rfl ht.1
    · rename_i hcond
      refine .inl (hl.task hc rfl fun _ _ => .inl ?_)
      rcases hlive with h | h
      · exact h
      · simpa [h] using hcond
  | yield => exact .inl (lasts_yield hl)
  | @setCpumask mask _ _ _ c hc hlive ho h =>
    exact .inl (hl.of_mask (c := { c with cpusPtr := mask }) h hlive (hok c hc))
  | budgetExpiry _ h =>
    cases h with
    | other => exact .inl hl
    | noAttr _ _ hb => exact .inl (hl.mono rfl (fun ht => ⟨by simp [hb], ht.2⟩) id id)
    | spent _ ha hb =>
      refine .inl (hl.mono rfl (fun ht => ⟨by simp [hb], ht.2⟩) id
        fun ⟨h1, h2, a, h3, h4⟩ => ⟨h1, h2, _, rfl, ?_⟩)
      rw [ha] at h3; cases h3; exact h4
    | overrun _ hb _ => exact .inl (hl.mono rfl (fun ht => ⟨by simp [hb], ht.2⟩) id id)

theorem lasts_dispatch {s s' : St} {q : Pid} (hl : Lasts cfg s q (view s q))
    (h : DispatchStep cfg.features q s s') :
    Lasts cfg s' q (view s' q) := by
  cases h with
  | same hv hq =>
    rw [hv]
    intro ht
    obtain ⟨c, hc, hlo, hr⟩ := hl ht
    refine ⟨c, hc, hlo, hr.imp id fun ⟨hm, d, hd, hasq, hin⟩ => ⟨hm, d, hd, hasq, ?_⟩⟩
    exact (hq d hin).resolve_right (not_not.mpr hm)
  | restart _ ha _ hv =>
    rw [hv]
    intro ht
    obtain ⟨p, hp⟩ : ∃ p, (view s q).sched = some p := by
      refine Option.ne_none_iff_exists'.mp fun h => ht.2 ?_
      rw [restartView, h]
      rfl
    obtain ⟨c, hc, hlo, -⟩ := hl ⟨ht.1, by simp [hp]⟩
    exact ⟨c, hc, hlo, .inl (by simp [Armed, restartView, hp])⟩

theorem step_inv {e : Ev} {s s' : St} (hi : Inv cfg s) (hok : LeavesAWay cfg e s)
    (h : step cfg e s = some s') :
    Inv cfg s' := by
  obtain ⟨hnone, hact⟩ := act_of_step h
  refine ⟨base_step hi.base h, ?_⟩
  intro q hor
  have hl := hi.lasts q (.inl hnone)
  cases (step_effect hi.base h).2 q with
  | dispatch hd => exact lasts_dispatch hl hd
  | other hq hv =>
    rcases lasts_step rfl (hi.base.2 q) hl hok hv with hl' | ⟨lags, c, rfl, hc, hc', hpol⟩
    · intro ht
      obtain ⟨c, hc, hlo, hr⟩ := hl' ht
      exact ⟨c, hc, hlo, hr.imp id fun ⟨hm, hw⟩ => ⟨hm, hw.mono hq⟩⟩
    · rcases hor with hn | ⟨c₀, hc₀, hext⟩
      · exact absurd hn (periodExpiry_error hi.base hact hc hpol)
      · rw [hc'] at hc₀; cases hc₀; exact absurd hext hpol

theorem init_inv : Inv cfg init := ⟨base_init, fun _ _ ht => absurd (by simp [view, init, Maps.empty]) ht.1⟩

/-! ## The law -/

/-- In a run that leaves every task with timers a way back no parked task is stranded. -/
theorem not_stranded {s : St} (h : Run (step cfg) (LeavesAWay cfg) init s) (q : Pid) : NotStranded s q := by
  have hi := h.inv (P := Inv cfg) init_inv fun _ _ _ hi hok hs => step_inv hi hok hs
  intro c hc a _ hlive _ ht
  obtain ⟨c₀, hc₀, -, hr⟩ := hi.lasts q (.inr ⟨c, hc, hlive.2⟩) ht
  rw [hc₀] at hc; cases hc
  exact hr.imp id And.right

/-- Task 7 yields after its period has put it in the queue of CPU 3, and is moved off its CPU and
    back to 3. -/
def parkedInQueue : List Ev :=
  enrolled 7 5 10 ++ [.tick 8, .enqueue 7 3, .dispatch 3 [], .running 7 [], .tick 2, .periodExpiry 7 [],
    .yield 7 [], .stopping 7 true [], .enqueue 7 3, .dequeue 7, .setCpumask 7 {3, 5} [], .migrate 7 5,
    .setCpumask 7 {3} []]

/-- It is parked and no timer of it is armed: a dispatch brings it back. -/
theorem not_stranded_while_queued : ∃ s, Run (step (config true)) (LeavesAWay (config true)) init s ∧
    NotStranded s 7 ∧ (view s 7).attr.map TaskAttr.isYield = some 1 ∧ Timed (view s 7) ∧
    (view s 7).task.map Core.policy = some schedExt ∧ ¬ Armed (view s 7) := by
  obtain ⟨s, hr, hs⟩ := run_of_execIf_any (step (config true)) (LeavesAWay (config true)) init parkedInQueue
    (fun s => decide ((view s 7).attr.map TaskAttr.isYield = some 1 ∧ Timed (view s 7) ∧
      (view s 7).task.map Core.policy = some schedExt ∧ ¬ Armed (view s 7))) (by decide +kernel)
  exact ⟨s, hr, not_stranded hr 7, of_decide_eq_true hs⟩

/-- Task 7 registers on CPU 3, enters SCHED_EXT, runs for 2 of its 5 and yields. -/
def parkedAt3 : List Ev :=
  enrolled 7 5 10 ++ [.enqueue 7 3, .dispatch 3 [], .running 7 [], .tick 2, .yield 7 [], .stopping 7 true [],
    .enqueue 7 3, .dequeue 7]

/-- With and without FEATURE_MIGRATION: a parked task moved off its CPU does not come back. -/
theorem a_moved_task_is_stranded :
    (∃ s, Run (step (config false)) anyEvent init s ∧ ¬ NotStranded s 7) ∧
      ∃ s, Run (step (config true)) anyEvent init s ∧ ¬ NotStranded s 7 := by
  constructor
  · obtain ⟨s, hr, hs⟩ := run_of_exec_any (step (config false)) init
      (parkedAt3 ++ [.setCpumask 7 {5} []]) (fun s => decide (¬ NotStranded s 7)) (by decide +kernel)
    exact ⟨s, hr, of_decide_eq_true hs⟩
  · obtain ⟨s, hr, hs⟩ := run_of_exec_any (step (config true)) init
      (parkedAt3 ++ [.setCpumask 7 {5} []]) (fun s => decide (¬ NotStranded s 7)) (by decide +kernel)
    exact ⟨s, hr, of_decide_eq_true hs⟩

end Ksight.Rms.Parked

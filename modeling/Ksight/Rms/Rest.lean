/-
  Ksight.Rms.Rest — what a task runs between two releases, at most.

  `Ksight.Rms.Budget` says when a task runs for its budget exactly. A preempted task is charged
  for the time it waits, and a release may find the budget timer at work; the task then runs
  for less. Here such runs are allowed: all that matters is that no task finds more in its timer
  than what is left of its budget.

  What a timer lets its task run is `rest`: the time to its end while it is pending, what
  `rms_running` will start it with when it is not, and nothing for a parked task. With the
  time the task has run since its release it is no more than the budget (`Capped`).

  - `ran_le`: in every run whose handlers take no time, in which timers fire when they are due
    and each step is `Charged`, no task runs for more than its budget between two releases.
  - A parked task that runs is given its budget again (`a_parked_task_runs_on`): it was
    preempted, and still queued when its budget timer fired.
-/

import Ksight.Rms.Budget

namespace Ksight.Rms.Rest

open Ksight.Lib
open Ksight.Rms.Budget (Meter mstep minit meter Prompt Due left releases Frame frame_act now_running halts_act
  lags_of_prompt off_curr clkOf_nil releases_eq)

/-- For how long the timer lets the task run. -/
def rest (now : Nat) (a : TaskAttr) (b : RmsTimer) : Nat :=
  if b.pending ≠ 0 then b.expireTime.toNat - now
  else if a.isYield = 0 then (if b.remainTime = 0 then a.budget else b.remainTime).toNat
  else 0

/-- A report of `mask` that cancels the budget timer leaves no more in it. -/
def KeepsRest (s : St) (q : Pid) (policy : Nat) (mask : Finset Cpu) : Prop :=
  policy = schedExt → keepsCpu s q mask = false → (view s q).sched ≠ none →
    ∀ a ∈ (view s q).attr, ∀ b ∈ (view s q).budget,
      rest s.now a (rmsTimerCancel false (.ofNat s.now) b).1 ≤ rest s.now a b

instance (s : St) (q : Pid) (policy : Nat) (mask : Finset Cpu) : Decidable (KeepsRest s q policy mask) :=
  inferInstanceAs (Decidable (_ → _))

def Charged : Ev → Meter → Prop
  /- A task that runs has not been parked, its timer is not about to fire, and the time it
     is set to fits. -/
  | .running pid _, m => ∀ a ∈ m.s.maps.taskAttr.lookup pid, ∀ b ∈ m.s.maps.budgetTimer.lookup pid,
      a.isYield = 0 ∧ ¬ Due (.ofNat m.s.now) b ∧ m.s.now + (left (.ofNat m.s.now) a b).toNat < 2 ^ 64
  /- The CPU that is kicked is the one the task is on. -/
  | .budgetExpiry pid _ _, m => ∀ a ∈ m.s.maps.taskAttr.lookup pid, ∀ t ∈ m.s.tasks pid, t.pos = .on →
      t.cpu = a.cpu
  /- A task with timers does not register again. -/
  | .register pid _ _ _, m => m.s.maps.budgetTimer.lookup pid = none
  | .setCpumask pid cpumask _, m => ∀ t ∈ m.s.tasks pid, KeepsRest m.s pid t.policy cpumask
  | .setscheduler pid policy _, m =>
    ∀ t ∈ m.s.tasks pid, t.policy ≠ schedExt → KeepsRest m.s pid policy t.cpusPtr
  | _, _ => True

instance (m : Meter) : (e : Ev) → Decidable (Charged e m)
  | .running .. | .budgetExpiry .. => inferInstanceAs (Decidable (∀ _ ∈ m.s.maps.taskAttr.lookup _, _))
  | .setCpumask .. | .setscheduler .. => inferInstanceAs (Decidable (∀ _ ∈ m.s.tasks _, _))
  | .register .. => inferInstanceAs (Decidable (_ = none))
  | .tick .. | .fork .. | .die .. | .reap .. | .selectCpu .. | .migrate .. | .enqueue .. | .dequeue ..
  | .dispatch .. | .stopping .. | .yield .. | .periodExpiry .. => .isTrue trivial

/-! ## The account of one task -/

/-- The timer is stopped, or armed for a time that has not passed. -/
def InTime (now : Nat) (b : RmsTimer) : Prop :=
  b.t = none ∧ b.pending = 0 ∨ b.t = some b.expireTime ∧ b.pending ≠ 0 ∧ now ≤ b.expireTime.toNat

structure Capped (s : St) (ran : Nat) (q : Pid) (v : View) : Prop where
  timer : ∀ b ∈ v.budget, InTime s.now b
  rest : ∀ a ∈ v.attr, ∀ b ∈ v.budget, ran + rest s.now a b ≤ a.budget.toNat
  /-- A task that is on a CPU with its timer stopped is about to leave it. -/
  leaving : ∀ b ∈ v.budget, b.t = none → ∀ c, s.curr c = some q → c ∈ s.resched

variable {cfg : Config} {s s' : St} {ran ran' : Nat} {q k : Pid} {v v' : View}

theorem Capped.of_none (h : v.budget = none) : Capped s ran q v := by
  refine ⟨?_, fun a _ => ?_, ?_⟩ <;> intro b hb <;> rw [h] at hb <;> cases hb

theorem Capped.of_timer {a : TaskAttr} {b : RmsTimer} (ha : v.attr = some a) (hb : v.budget = some b)
    (ht : InTime s.now b) (hle : ran + Rest.rest s.now a b ≤ a.budget.toNat)
    (hleave : b.t = none → ∀ c, s.curr c = some q → c ∈ s.resched) : Capped s ran q v := by
  refine ⟨fun b' hb' => ?_, fun a' ha' b' hb' => ?_, fun b' hb' => ?_⟩ <;> cases hb.symm.trans hb'
  · exact ht
  · cases ha.symm.trans ha'
    exact hle
  · exact hleave

theorem Capped.keep (h : Capped s ran q v) (hf : Frame q s s') (ha : v'.attr = v.attr) (hb : v'.budget = v.budget)
    (hr : v.budget ≠ none → ran' = ran) : Capped s' ran' q v' := by
  rcases hbn : v.budget with _ | b₀
  · exact .of_none (hb.trans hbn)
  obtain rfl := hr (by simp [hbn])
  refine ⟨fun b hbv => ?_, fun a hav b hbv => ?_, fun b hbv hn c hc => ?_⟩
  · exact hf.now ▸ h.timer b (hb ▸ hbv)
  · exact hf.now ▸ h.rest a (ha ▸ hav) b (hb ▸ hbv)
  · obtain ⟨hcurr, hresched⟩ := hf.curr c hc
    exact hresched (h.leaving b (hb ▸ hbv) hn c hcurr)

/-- A timer that has been stopped lets a parked task run no more. -/
theorem rest_parked {now : Nat} {a : TaskAttr} {b : RmsTimer} (hp : b.pending = 0) (hy : a.isYield ≠ 0) :
    rest now a b = 0 := by
  simp [rest, hp, hy]

/-- `rms_running` starts the timer with its rest, unless it is to fire now. -/
theorem left_eq_rest {now : Nat} {a : TaskAttr} {b : RmsTimer} (hnow : now < 2 ^ 64) (hy : a.isYield = 0)
    (hd : ¬ Due (.ofNat now) b) : (left (.ofNat now) a b).toNat = rest now a b := by
  have hn : (UInt64.ofNat now).toNat = now := UInt64.toNat_ofNat_of_lt' hnow
  by_cases hp : b.pending = 0
  · simp [left, rmsTimerGetRemain, rest, hp, hy]
  · have hlt : UInt64.ofNat now < b.expireTime := UInt64.not_le.mp fun hle => hd ⟨hp, hle⟩
    have hsub : (b.expireTime - UInt64.ofNat now).toNat = b.expireTime.toNat - now := by
      rw [UInt64.toNat_sub_of_le _ _ (UInt64.le_of_lt hlt), hn]
    have hpos : now < b.expireTime.toNat := hn ▸ UInt64.lt_iff_toNat_lt.mp hlt
    have hne : b.expireTime - UInt64.ofNat now ≠ 0 := by
      intro h0
      rw [h0, UInt64.toNat_zero] at hsub
      omega
    have hgt : b.expireTime > UInt64.ofNat now := hlt
    simp only [left, rmsTimerGetRemain, if_neg hp, if_pos hgt, if_neg hne, rest, if_pos hp, ne_eq, hsub]

/-! ## One step -/

/-- A step other than a release leaves the time a task with a budget timer has run. -/
theorem ran_kept {e : Ev} {m : Meter} (htick : ∀ d, e ≠ .tick d) (hper : ∀ lags, e ≠ .periodExpiry q lags)
    (hb : (view m.s q).budget ≠ none) : (meter e m s').ran q = m.ran q := by
  cases e with
  | tick d => exact absurd rfl (htick d)
  | periodExpiry pid lags =>
    have hne : q ≠ pid := fun heq => hper lags (heq ▸ rfl)
    simp [meter, hne]
  | _ => exact if_neg fun hc => hb hc.1

/-- The account of a task starts with its budget timer. -/
theorem ran_new {e : Ev} {m : Meter} (htick : ∀ d, e ≠ .tick d) (hper : ∀ pid lags, e ≠ .periodExpiry pid lags)
    (hb : (view m.s q).budget = none) (hb' : (view s' q).budget ≠ none) : (meter e m s').ran q = 0 := by
  cases e with
  | tick d => exact absurd rfl (htick d)
  | periodExpiry pid lags => exact absurd rfl (hper pid lags)
  | _ => exact if_pos ⟨hb, hb'⟩

theorem capped_cpumask {mask : Finset Cpu} {c : Core} (hm : cfg.features.migration = false) (hf : Frame q s s')
    (hoff : ∀ cpu, s.curr cpu ≠ some q) (h : Capped s ran q (view s q))
    (hr : (view s q).budget ≠ none → ran' = ran) (hnew : (view s q).budget = none → v'.budget ≠ none → ran' = 0)
    (hok : KeepsRest s q c.policy mask)
    (hs : CpumaskStep cfg.features (clkOf s.now []) q (keepsCpu s q mask) { view s q with task := some c } v') :
    Capped s' ran' q v' := by
  have hoff' : ∀ cpu, s'.curr cpu ≠ some q := fun cpu hc => hoff cpu (hf.curr cpu hc).1
  cases hs with
  | same => exact h.keep hf rfl rfl hr
  | @init budgetRoom _ a _ ha hb _ =>
    rcases budgetRoom with _ | _
    · exact .of_none rfl
    obtain rfl := hnew hb (by simp [firstInitView])
    refine .of_timer ha rfl (.inl ⟨rfl, rfl⟩) ?_ fun _ cpu hc => absurd hc (hoff' cpu)
    -- a new timer has the whole budget
    simp only [rest, emptyTimer, ne_eq, not_true_eq_false, if_false, Nat.zero_add]
    split
    · split <;> exact Nat.le_refl _
    · exact Nat.zero_le _
  | cancel hext hb hs ha hk =>
    obtain ⟨b, hb⟩ := Option.ne_none_iff_exists'.mp hb
    obtain ⟨a, ha⟩ := Option.ne_none_iff_exists'.mp ha
    have hb : (view s q).budget = some b := hb
    have ha : (view s q).attr = some a := ha
    obtain rfl := hr (by simp [hb])
    have hbv : (cancelView cfg.features (clkOf s.now []) { view s q with task := some c }).budget =
        some (rmsTimerCancel false (.ofNat s.now) b).1 := by simp [cancelView, hb, clkOf_nil]
    have hav : (cancelView cfg.features (clkOf s.now []) { view s q with task := some c }).attr = some a := by
      simp [cancelView, hm, ha]
    refine .of_timer hav hbv (.inl ⟨rfl, rfl⟩) ?_ fun _ cpu hc => absurd hc (hoff' cpu)
    have hle := hok (hext c rfl) hk hs a ha b hb
    have hcap := h.rest a ha b hb
    rw [hf.now]
    omega

theorem capped_running {t : Option Core} (hm : cfg.features.migration = false) (hnow : s.now < 2 ^ 64)
    (hnow' : s'.now = s.now) (h : Capped s ran q (view s q))
    (hok : ∀ a ∈ (view s q).attr, ∀ b ∈ (view s q).budget,
      a.isYield = 0 ∧ ¬ Due (.ofNat s.now) b ∧ s.now + (left (.ofNat s.now) a b).toNat < 2 ^ 64)
    (hsane : Sane q (view s q)) :
    Capped s' ran q (runningView cfg.features (clkOf s.now []) q { view s q with task := t }) := by
  rcases hb : (view s q).budget with _ | b
  · refine .of_none ?_
    rcases ha : (view s q).attr with _ | a <;> simp [runningView, ha, hb]
  rcases ha : (view s q).attr with _ | a
  · exact absurd ha (hsane.attr (.inl (by simp [hb])))
  obtain ⟨hy, hd, hfit⟩ := hok a ha b hb
  have hcap := h.rest a ha b hb
  have hleft := left_eq_rest hnow hy hd
  have hexp : (UInt64.ofNat s.now + left (.ofNat s.now) a b).toNat = s.now + (left (.ofNat s.now) a b).toNat := by
    rw [UInt64.toNat_add, UInt64.toNat_ofNat_of_lt' hnow, Nat.mod_eq_of_lt hfit]
  have hv : runningView cfg.features (clkOf s.now []) q { view s q with task := t } =
      { view s q with
        task := t
        budget := some ⟨some (.ofNat s.now + left (.ofNat s.now) a b), 0,
          .ofNat s.now + left (.ofNat s.now) a b - .ofNat s.now, .ofNat s.now + left (.ofNat s.now) a b, 1,
          budgetCallback, q⟩ } := by
    simp only [runningView, ha, hb, hm, clkOf_nil, Bool.false_eq_true, false_and, if_false]
    rfl
  have hone : (1 : UInt64) ≠ 0 := by decide
  rw [hv]
  refine .of_timer ha rfl (.inr ⟨rfl, hone, ?_⟩) ?_ fun h => absurd h (Option.some_ne_none _)
  · rw [hexp, hnow']
    exact Nat.le_add_right _ _
  · rw [rest, if_pos hone, hexp, hnow']
    omega

theorem capped_yield (clk : Nat → UInt64) (hf : Frame q s s') (h : Capped s ran q v)
    (hr : v.budget ≠ none → ran' = ran) (hleave : ∀ a ∈ v.attr, ∀ c, s'.curr c = some q → c ∈ s'.resched) :
    Capped s' ran' q (yieldView clk v) := by
  unfold yieldView
  split
  · rename_i b a hb ha
    split
    · obtain rfl := hr (by simp [hb])
      have hcap := h.rest a ha b hb
      refine .of_timer rfl rfl (.inl ⟨rfl, rfl⟩) ?_ fun _ => hleave a ha
      rw [rest_parked rfl (show (1 : UInt64) ≠ 0 by decide)]
      exact Nat.le_of_add_right_le hcap
    · exact h.keep hf rfl rfl hr
  · exact h.keep hf rfl rfl hr

/-- A task whose budget is used up is parked. -/
theorem capped_budgetExpiry (ho : cfg.features.budgetOverrun = false) (hf : Frame q s s') (hs : Sane q v)
    (h : Capped s ran q v) (hr : v.budget ≠ none → ran' = ran)
    (hleave : q = k → ∀ a ∈ v.attr, ∀ c, s'.curr c = some q → c ∈ s'.resched)
    (hb : BudgetStep cfg.features k q v v') : Capped s' ran' q v' := by
  cases hb with
  | other _ => exact h.keep hf rfl rfl hr
  | noAttr _ ha hb => exact absurd ha (hs.attr (.inl (by simp [hb])))
  | @spent a b hk ha hb _ =>
    obtain rfl := hr (by simp [hb])
    have hcap := h.rest a ha b hb
    have hparked : (if a.isYield = 0 then 1 else a.isYield) ≠ 0 := by
      split
      · decide
      · assumption
    refine .of_timer rfl rfl (.inl ⟨rfl, rfl⟩) ?_ fun _ => hleave hk a ha
    rw [rest_parked rfl hparked]
    exact Nat.le_of_add_right_le hcap
  | overrun hov _ _ => rw [ho] at hov; cases hov

/-- A release gives the task its budget, or what the timer at work has left of it. -/
theorem capped_period (hf : Frame q s s') (h : Capped s ran q (view s q)) (hp : PeriodStep (view s q) v') :
    Capped s' (if releases s q then 0 else ran) q v' := by
  have hrel := releases_eq s q
  generalize view s q = v at h hp hrel
  cases hp with
  | @release c a b p hc hpol ha hb hp =>
    have hcap := h.rest a ha b hb
    rw [hrel, hc, ha, hb, if_pos (by simp [hpol])]
    refine .of_timer rfl rfl (hf.now ▸ h.timer b hb) ?_ fun hn cpu hcpu => ?_
    · rw [hf.now]
      by_cases hpend : b.pending = 0
      · simp [rest, hpend]
      · simp only [rest, ne_eq, hpend, not_false_eq_true, if_true] at hcap ⊢
        omega
    · obtain ⟨hcurr, hresched⟩ := hf.curr cpu hcpu
      exact hresched (h.leaving b hb hn cpu hcurr)
  | exit hp hno =>
    have hfalse : releases s q = false := by
      rw [hrel]
      rcases hc : v.task with _ | c
      · rfl
      by_cases hpol : c.policy = schedExt
      · rcases hno c hc hpol with hn | hn <;> simp [hn]
      · simp [hpol]
    rw [hfalse]
    exact h.keep hf rfl rfl fun _ => rfl

/-- While time passes, a timer that is armed goes on, whether its task runs or waits. -/
theorem capped_tick {m : Meter} {d : Nat} (hp : Placed m.s) (hsane : Sane q (view m.s q))
    (h : Capped m.s (m.ran q) q (view m.s q)) (hpr : Prompt (.tick d) m)
    (hs : act cfg (.tick d) m.s = some s') : Capped s' ((meter (.tick d) m s').ran q) q (view s' q) := by
  simp only [act, Option.ite_none_right_eq_some, Option.some.injEq] at hs
  obtain ⟨-, rfl⟩ := hs
  obtain ⟨hres, hnb, -⟩ := hpr
  rcases hb : m.s.maps.budgetTimer.lookup q with _ | b
  · exact .of_none hb
  have hbv : (view m.s q).budget = some b := hb
  obtain ⟨a, ha⟩ := Option.ne_none_iff_exists'.mp (hsane.attr (.inl (by simp [hbv])))
  have hcap := h.rest a ha b hbv
  have hran : (meter (.tick d) m { m.s with now := m.s.now + d }).ran q =
      if posOf m.s q = some .on then m.ran q + d else m.ran q := rfl
  have hleave := h.leaving b hbv
  rcases h.timer b hbv with ⟨hn, hpend⟩ | ⟨ht, hpend, hle⟩
  · -- the task is on no CPU, as none is to be rescheduled
    have hoff : posOf m.s q ≠ some .on := by
      intro hon
      obtain ⟨t, htk, hpos⟩ := Option.map_eq_some_iff.mp hon
      have hmem := hleave hn t.cpu ((hp.running t.cpu q).mpr (by simp [placeOf, htk, hpos]))
      rw [hres] at hmem
      exact absurd hmem (Finset.notMem_empty _)
    rw [hran, if_neg hoff]
    refine .of_timer ha hbv (.inl ⟨hn, hpend⟩) ?_ hleave
    simp only [rest, hpend, ne_eq, not_true_eq_false, if_false] at hcap ⊢
    exact hcap
  · have hnext : m.s.now + d ≤ b.expireTime.toNat := hnb q (BoundedMap.mem_keys.mpr ⟨b, hb⟩) b hb _ ht
    refine .of_timer ha hbv (.inr ⟨ht, hpend, hnext⟩) ?_ hleave
    rw [hran]
    simp only [rest, if_pos hpend] at hcap ⊢
    split <;> omega

/-- The handlers that stop a task have the same condition in both laws. -/
theorem accounted_of_halts {e : Ev} {m : Meter} (he : Budget.Ev.halts q e) (h : Charged e m) : Budget.Accounted e m := by
  cases e with
  | yield => trivial
  | budgetExpiry => exact h
  | _ => exact he.elim

theorem capped_step (hm : cfg.features.migration = false) (ho : cfg.features.budgetOverrun = false) {m : Meter}
    {e : Ev} (q : Pid) (hnow : m.s.now < 2 ^ 64) (hb : Base m.s) (hp : Placed m.s)
    (h : Capped m.s (m.ran q) q (view m.s q)) (hok : Charged e m) (hpr : Prompt e m)
    (hs : act cfg e m.s = some s') : Capped s' ((meter e m s').ran q) q (view s' q) := by
  by_cases htick : ∃ d, e = .tick d
  · obtain ⟨d, rfl⟩ := htick
    exact capped_tick hp (hb.2 q) h hpr hs
  have hlags := lags_of_prompt hpr fun d hd => htick ⟨d, hd⟩
  have hfr := fun hrun => frame_act ho (q := q) hlags (fun d hd => htick ⟨d, hd⟩) hrun hs
  have hr : (∀ lags, e ≠ .periodExpiry q lags) → (view m.s q).budget ≠ none → (meter e m s').ran q = m.ran q :=
    ran_kept fun d hd => htick ⟨d, hd⟩
  have hnew : (∀ pid lags, e ≠ .periodExpiry pid lags) → (view m.s q).budget = none →
      (view s' q).budget ≠ none → (meter e m s').ran q = 0 :=
    ran_new fun d hd => htick ⟨d, hd⟩
  have hhalt : Budget.Ev.halts q e → ∀ a ∈ (view m.s q).attr, ∀ c, s'.curr c = some q → c ∈ s'.resched :=
    fun he a ha c hc => halts_act ho hb hp (accounted_of_halts he hok) he hs ha hc
  cases (act_effect hb hs).2 q with
  | dispatch hd =>
    cases hd with
    | same hv _ => rw [hv]; exact h.keep (hfr (by simp)) rfl rfl (hr (by simp))
    | restart hmig => rw [hm] at hmig; cases hmig
  | other _ hv =>
    generalize hv' : view s' q = v' at hv
    cases hv with
    | same hnd => exact h.keep (hfr fun l hl => hnd (hl ▸ rfl)) rfl rfl (hr fun l hl => hnd (hl ▸ rfl))
    | fork | repolicy | die => exact h.keep (hfr (by simp)) rfl rfl (hr (by simp))
    | register => exact .of_none hok
    | @enter _ _ _ c hc _ ho' hne hcm =>
      obtain rfl : _ = [] := hlags
      obtain ⟨t, htk, rfl⟩ := Option.map_eq_some_iff.mp hc
      exact capped_cpumask (c := { core t with policy := schedExt }) hm (hfr (by simp)) (off_curr hp hc ho') h
        (hr (by simp)) (fun h1 h2 => hnew (by simp) h1 (hv' ▸ h2)) (hok t htk hne) hcm
    | reap =>
      split
      · exact .of_none rfl
      · exact h.keep (hfr (by simp)) rfl rfl (hr (by simp))
    | running =>
      obtain rfl : _ = [] := hlags
      by_cases hbud : (view m.s q).budget = none
      · refine .of_none ?_
        rcases (view m.s q).attr with _ | a <;> simp [runningView, hbud]
      · rw [hr (by simp) hbud]
        exact capped_running hm hnow (now_running hs) h hok (hb.2 q)
    | stopping =>
      unfold stoppingView
      split
      · exact .of_none rfl
      · exact h.keep (hfr (by simp)) rfl rfl (hr (by simp))
    | yield => exact capped_yield _ (hfr (by simp)) h (hr (by simp)) (hhalt rfl)
    | @setCpumask mask _ _ _ c hc _ ho' hcm =>
      obtain rfl : _ = [] := hlags
      obtain ⟨t, htk, rfl⟩ := Option.map_eq_some_iff.mp hc
      exact capped_cpumask (c := { core t with cpusPtr := mask }) hm (hfr (by simp)) (off_curr hp hc ho') h
        (hr (by simp)) (fun h1 h2 => hnew (by simp) h1 (hv' ▸ h2)) (hok t htk) hcm
    | budgetExpiry _ hbs =>
      exact capped_budgetExpiry ho (hfr (by simp)) (hb.2 q) h (hr (by simp)) (fun hk => hhalt hk.symm) hbs
    | periodExpiry _ hps => simpa [meter] using capped_period (hfr (by simp)) h hps

/-! ## Runs -/

structure Inv (m : Meter) : Prop where
  base : Base m.s
  placed : Placed m.s
  clock : m.s.now < 2 ^ 64
  capped : ∀ q, Capped m.s (m.ran q) q (view m.s q)

theorem minit_inv : Inv minit :=
  ⟨base_init, placed_init, by simp [minit, init], fun _ => .of_none (by simp [view, minit, init, Maps.empty])⟩

/-- Handlers take no time. -/
theorem now_prompt (ho : cfg.features.budgetOverrun = false) {e : Ev} {m : Meter} (hpr : Prompt e m)
    (htick : ∀ d, e ≠ .tick d) (h : act cfg e m.s = some s') : s'.now = m.s.now := by
  have hlags := lags_of_prompt hpr htick
  by_cases hrun : ∃ pid lags, e = .running pid lags
  · obtain ⟨pid, lags, rfl⟩ := hrun
    obtain rfl : lags = [] := hlags
    exact now_running h
  · exact (frame_act ho (q := 0) hlags htick (fun l hl => hrun ⟨0, l, hl⟩) h).now

theorem mstep_inv (hm : cfg.features.migration = false) (ho : cfg.features.budgetOverrun = false) {e : Ev}
    {m m' : Meter} (hi : Inv m) (hpr : Prompt e m) (hok : Charged e m) (h : mstep cfg e m = some m') : Inv m' := by
  obtain ⟨s', hs, rfl⟩ := Option.map_eq_some_iff.mp h
  have hact := (act_of_step hs).2
  refine ⟨base_step hi.base hs, placed_step hi.base hi.placed hs, ?_,
    fun q => capped_step hm ho q hi.clock hi.base hi.placed (hi.capped q) hok hpr hact⟩
  by_cases htick : ∃ d, e = .tick d
  · obtain ⟨d, rfl⟩ := htick
    simp only [act, Option.ite_none_right_eq_some, Option.some.injEq] at hact
    obtain ⟨hlt, rfl⟩ := hact
    exact hlt
  · exact (now_prompt ho hpr (fun d hd => htick ⟨d, hd⟩) hact).trans_lt hi.clock

theorem Inv.ran_le {m : Meter} (hi : Inv m) {a : TaskAttr} (ha : (view m.s q).attr = some a)
    (hb : (view m.s q).budget ≠ none) : m.ran q ≤ a.budget.toNat := by
  obtain ⟨b, hb⟩ := Option.ne_none_iff_exists'.mp hb
  exact Nat.le_of_add_right_le ((hi.capped q).rest a ha b hb)

/-- No task runs for more than its budget between two releases. -/
theorem ran_le (hm : cfg.features.migration = false) (ho : cfg.features.budgetOverrun = false) {m : Meter}
    (h : Run (mstep cfg) (fun e m => Prompt e m ∧ Charged e m) minit m) {a : TaskAttr}
    (ha : m.s.maps.taskAttr.lookup q = some a) (hb : m.s.maps.budgetTimer.lookup q ≠ none) :
    m.ran q ≤ a.budget.toNat :=
  (h.inv minit_inv fun _ _ _ hi hok hs => mstep_inv hm ho hi hok.1 hok.2 hs).ran_le ha hb

/-- Task 8 preempts task 7, whose budget timer fires while it is queued: it runs on with its
    whole budget. -/
theorem a_parked_task_runs_on : ∃ m, Run (mstep (config false)) Prompt minit m ∧
    ∃ a, m.s.maps.taskAttr.lookup 7 = some a ∧ a.budget.toNat < m.ran 7 := by
  obtain ⟨m, hr, hm⟩ := run_of_execIf_any (mstep (config false)) Prompt minit
    (Budget.released ++ [.tick 2] ++ enrolled 8 3 9 ++ [.enqueue 8 0, .stopping 7 true [], .enqueue 7 3,
      .dispatch 3 [], .running 8 [], .tick 3, .budgetExpiry 7 3 [], .budgetExpiry 8 3 [], .stopping 8 true [],
      .enqueue 8 3, .dispatch 3 [], .running 7 [], .tick 4])
    (fun m => (m.s.maps.taskAttr.lookup 7).any fun a => decide (a.budget.toNat < m.ran 7)) (by decide +kernel)
  obtain ⟨a, ha, hlt⟩ := (Option.any_eq_true _ _).mp hm
  exact ⟨m, hr, a, ha, of_decide_eq_true hlt⟩

end Ksight.Rms.Rest

/-
  Ksight.Rms.View — one task's view of a step.

  `view s pid` is what the callbacks' decisions about a task depend on: its policy,
  whether it lives and runs, its affinity, and its entries in the three maps. Every event
  acts on the view of one task and leaves the others alone (with FEATURE_BUDGET_OVERRUN on
  two): for each callback there is a function on views (`runningView`, `yieldView`, …) and
  a lemma that the callback is that function at its task. Queues, DSQs and the place a
  task waits in are not part of a view, so that most events do not change any.

  `Ksight.Rms.Step` puts them together to what one step makes of a view, from which the
  properties of the scheduler's tasks are proved.
-/

import Ksight.Rms.Kernel

namespace Ksight.Rms

open Ksight.Lib

structure Core where
  policy : Nat
  live : Bool
  on : Bool
  cpusPtr : Finset Cpu
  deriving DecidableEq

structure View where
  task : Option Core
  attr : Option TaskAttr
  budget : Option RmsTimer
  sched : Option RmsTimer

def core (t : Task) : Core := ⟨t.policy, decide (t.state ≠ taskDead), decide (t.pos = .on), t.cpusPtr⟩

def view (s : St) (pid : Pid) : View :=
  ⟨(s.tasks pid).map core, s.maps.taskAttr.lookup pid, s.maps.budgetTimer.lookup pid,
    s.maps.schedTimer.lookup pid⟩

/-- The view of a task that has left the maps. -/
def View.gone (v : View) : View := ⟨v.task, none, none, none⟩

/-! ## The primitives -/

theorem view_of {s s' : St} (ht : s'.tasks = s.tasks) (hm : s'.maps = s.maps) : view s' = view s := by
  funext q; simp [view, ht, hm]

@[simp] theorem view_scxError (site : Site) (s : St) : view (scxError site s) = view s := view_of rfl rfl

@[simp] theorem view_kickCpu (cpu : Cpu) (s : St) : view (kickCpu cpu s) = view s := by
  unfold kickCpu; split <;> exact view_of rfl rfl

@[simp] theorem view_checkCpu (cpu : Cpu) (s : St) : view (checkCpu cpu s) = view s := by
  unfold checkCpu; split <;> exact view_of rfl rfl

@[simp] theorem view_spend (lags : List Nat) (s : St) : view (spend lags s) = view s := view_of rfl rfl

@[simp] theorem view_unqueue (pid : Pid) (s : St) : view (unqueue pid s) = view s := view_of rfl rfl

@[simp] theorem view_cpuQueues (s : St) (queues : CpuQueues) : view { s with cpuQueues := queues } = view s :=
  view_of rfl rfl

@[simp] theorem view_resched (s : St) (cpus : Finset Cpu) : view { s with resched := cpus } = view s :=
  view_of rfl rfl

@[simp] theorem view_setTask (pid : Pid) (t : Task) (s : St) :
    view (setTask pid t s) = Function.update (view s) pid { view s pid with task := some (core t) } := by
  funext q
  by_cases h : q = pid
  · subst h
    simp [view, setTask]
  · simp [view, setTask, h]

theorem view_untask (pid : Pid) (s : St) : view { s with tasks := Function.update s.tasks pid none } =
    Function.update (view s) pid { view s pid with task := none } := by
  funext q
  by_cases h : q = pid
  · subst h
    simp [view]
  · simp [view, h]

@[simp] theorem view_setAttr (pid : Pid) (f : TaskAttr → TaskAttr) (s : St) :
    view (setAttr pid f s) =
      Function.update (view s) pid { view s pid with attr := (view s pid).attr.map f } := by
  funext q
  by_cases h : q = pid
  · subst h
    simp [view, setAttr]
  · simp [view, setAttr, h, BoundedMap.lookup_modify_ne]

@[simp] theorem view_setBudget (pid : Pid) (f : RmsTimer → RmsTimer) (s : St) :
    view (setBudget pid f s) =
      Function.update (view s) pid { view s pid with budget := (view s pid).budget.map f } := by
  funext q
  by_cases h : q = pid
  · subst h
    simp [view, setBudget]
  · simp [view, setBudget, h, BoundedMap.lookup_modify_ne]

@[simp] theorem view_setSched (pid : Pid) (f : RmsTimer → RmsTimer) (s : St) :
    view (setSched pid f s) =
      Function.update (view s) pid { view s pid with sched := (view s pid).sched.map f } := by
  funext q
  by_cases h : q = pid
  · subst h
    simp [view, setSched]
  · simp [view, setSched, h, BoundedMap.lookup_modify_ne]

theorem view_exit (clk : Nat → UInt64) (pid : Pid) (s : St) :
    view { s with maps := exitRmsTask none clk pid s.maps } =
      Function.update (view s) pid (view s pid).gone := by
  funext q
  by_cases h : q = pid
  · subst h
    simp [view, exitRmsTask_free, View.gone]
  · simp [view, exitRmsTask_free, h, BoundedMap.lookup_delete_ne]

/-- A change of a task that its core does not show. -/
theorem view_setTask_same {pid : Pid} {t t' : Task} {s : St} (ht : s.tasks pid = some t)
    (hc : core t' = core t) :
    view (setTask pid t' s) = view s := by
  rw [view_setTask, hc]
  exact Function.update_eq_self_iff.mpr (by simp [view, ht])

@[simp] theorem view_dsqInsertVtime (d : Nat) (vtime : UInt64) (pid : Pid) (s : St) :
    view (dsqInsertVtime d vtime pid s) = view s := by
  unfold dsqInsertVtime
  split
  · rename_i t ht
    split
    · rename_i hp
      exact view_setTask_same ht (by simp [core, hp])
    · rfl
  · rfl

@[simp] theorem view_dsqInsertLocal (pid : Pid) (s : St) : view (dsqInsertLocal pid s) = view s := by
  unfold dsqInsertLocal
  split
  · rename_i t ht
    split
    · rename_i hp
      exact view_setTask_same ht (by simp [core, hp])
    · rfl
  · rfl

@[simp] theorem view_dsqMoveToLocal (d : Nat) (cpu : Cpu) (s : St) :
    view (dsqMoveToLocal d cpu s) = view s := by
  unfold dsqMoveToLocal
  split
  · rfl
  · rename_i pid _ _
    funext q
    by_cases h : q = pid
    · subst h
      cases hq : s.tasks q <;> simp [view, hq, core]
    · simp [view, h]

/-! ## The callbacks -/

@[simp] theorem view_rmsEnqueue (u : Pid) (curCpu : Cpu) (pid : Pid) (p : Task) (s : St) :
    view (rmsEnqueue u curCpu pid p s) = view s := by
  unfold rmsEnqueue
  split
  · exact view_dsqInsertLocal _ _
  · split
    · rfl
    · split
      · split <;> simp
      · rfl

def runningView (f : Features) (clk : Nat → UInt64) (pid : Pid) (v : View) : View :=
  match v.attr, v.budget with
  | some a, some b =>
    if f.migration ∧ a.isMigrate ≠ 0 then v
    else
      let remain := rmsTimerGetRemain (clk 0) b
      let expire := clk 1 + if remain = 0 then a.budget else remain
      { v with budget := some ⟨some expire, 0, expire - clk 3, expire, 1, budgetCallback, pid⟩ }
  | _, _ => v

theorem view_rmsRunning (f : Features) (clk : Nat → UInt64) (pid : Pid) (s : St) :
    view (rmsRunning f clk pid s) = Function.update (view s) pid (runningView f clk pid (view s pid)) := by
  unfold rmsRunning runningView
  rcases ha : s.maps.taskAttr.lookup pid with _ | a
  · simp [show (view s pid).attr = none from ha]
  rcases hb : s.maps.budgetTimer.lookup pid with _ | b
  · simp [show (view s pid).attr = some a from ha, show (view s pid).budget = none from hb]
  simp only [show (view s pid).attr = some a from ha, show (view s pid).budget = some b from hb,
    rmsTimerStart_eq]
  split
  · simp
  · simp [show (view s pid).attr = some a from ha, show (view s pid).budget = some b from hb]

def stoppingView (runnable : Bool) (v : View) : View :=
  if runnable = false ∧ v.task.all (·.live) = false then v.gone else v

theorem view_rmsStopping (clk : Nat → UInt64) {pid : Pid} {t : Task} {s : St}
    (ht : (view s pid).task = some (core t)) (p : Task) (hp : p.state = t.state) (runnable : Bool) :
    view (rmsStopping clk pid p runnable s) =
      Function.update (view s) pid (stoppingView runnable (view s pid)) := by
  have hl : (view s pid).task.all (·.live) = decide (p.state ≠ taskDead) := by rw [ht, hp]; rfl
  unfold rmsStopping stoppingView
  rw [hl]
  by_cases hc : runnable = false ∧ p.state = taskDead
  · rw [if_pos (by simpa using hc), if_pos (by simpa using hc), view_exit]
  · rw [if_neg (by simpa using hc), if_neg (by simpa using hc), Function.update_eq_self]

def yieldView (clk : Nat → UInt64) (v : View) : View :=
  match v.budget, v.attr with
  | some b, some a =>
    if v.task.any (·.policy = schedExt) then
      { v with attr := some { a with isYield := 1 },
               budget := some (rmsTimerSetRemain (rmsTimerCancel false (clk 0) b).1 (clk 1) .abs) }
    else v
  | _, _ => v

theorem view_rmsYield (u : Pid) (clk : Nat → UInt64) (pid : Pid) {p : Task} {s : St}
    (ht : (view s pid).task = some (core p)) :
    view (rmsYield u clk pid p s) =
      Function.update (view s) pid (if pid = u then view s pid else yieldView clk (view s pid)) := by
  unfold rmsYield
  split
  · simp
  unfold yieldView
  rcases hb : s.maps.budgetTimer.lookup pid with _ | b
  · simp [show (view s pid).budget = none from hb]
  rcases ha : s.maps.taskAttr.lookup pid with _ | a
  · simp [show (view s pid).attr = none from ha, show (view s pid).budget = some b from hb]
  have ha' : (view s pid).attr = some a := ha
  have hb' : (view s pid).budget = some b := hb
  have hpol : (view s pid).task.any (fun c => decide (c.policy = schedExt)) =
      decide (p.policy = schedExt) := by
    rw [ht]; rfl
  simp only [ha', hb', hpol, decide_eq_true_eq]
  split
  · simp [ha', hb']
  · simp

def firstInitView (clk : Nat → UInt64) (pid : Pid) (budgetRoom schedRoom : Bool) (a : TaskAttr)
    (v : View) : View :=
  { v with
    budget := if budgetRoom then some { emptyTimer with remainTime := a.budget } else none
    sched := if schedRoom then
        some ⟨some (clk 0 + a.period), a.period, clk 0 + a.period - clk 1, clk 0 + a.period, 1,
          periodCallback, pid⟩
      else none }

/-- Timer entries are made where the maps have room. -/
theorem view_firstInit (clk : Nat → UInt64) {pid : Pid} {a : TaskAttr} {s : St}
    (hb : (view s pid).budget = none) (hs : (view s pid).sched = none) :
    ∃ budgetRoom schedRoom, view (firstInit clk pid a s) =
      Function.update (view s) pid (firstInitView clk pid budgetRoom schedRoom a (view s pid)) := by
  have key : ∀ m : BoundedMap Pid RmsTimer maxTaskNr, m.lookup pid = none → ∃ room : Bool, ∀ q,
      ((m.updateNoExist pid emptyTimer).getD m).lookup q =
        if q = pid then (if room then some emptyTimer else none) else m.lookup q := by
    intro m hm
    rcases hu : m.updateNoExist pid emptyTimer with _ | m'
    · refine ⟨false, ?_⟩
      intro q
      rcases eq_or_ne q pid with rfl | h <;> simp [*]
    · exact ⟨true, fun q => by
        simpa using BoundedMap.lookup_update (BoundedMap.updateNoExist_eq_some.mp hu).2 q⟩
  obtain ⟨rb, hrb⟩ := key s.maps.budgetTimer hb
  obtain ⟨rs, hrs⟩ := key s.maps.schedTimer hs
  refine ⟨rb, rs, funext ?_⟩
  intro q
  unfold firstInit firstInitView
  simp only [view_setSched, view_setBudget]
  by_cases h : q = pid
  · subst h
    have hi : rmsTimerInit emptyTimer = emptyTimer := rfl
    cases rb <;> cases rs <;> simp [view, hrb, hrs, rmsTimerStart_eq, hi]
  · simp [view, hrb, hrs, h]

/-- What `rms_set_cpumask` does to a task that has both timers and is to leave its CPU. -/
def cancelView (f : Features) (clk : Nat → UInt64) (v : View) : View :=
  { v with
    sched := v.sched.map fun p => (rmsTimerCancel false (clk 0) p).1
    budget := v.budget.map fun b => (rmsTimerCancel false (clk 1) b).1
    attr := if f.migration then v.attr.map fun a => { a with isMigrate := 1 } else v.attr }

/-- The views `rms_set_cpumask` can make of a view `v` of a task on `cpu`. -/
inductive CpumaskStep (f : Features) (clk : Nat → UInt64) (pid : Pid) (keeps : Bool) (v : View) : View → Prop
  | same : CpumaskStep f clk pid keeps v v
  | init (budgetRoom schedRoom : Bool) {a : TaskAttr} : (∀ c ∈ v.task, c.policy = schedExt) →
      v.attr = some a → v.budget = none → v.sched = none →
      CpumaskStep f clk pid keeps v (firstInitView clk pid budgetRoom schedRoom a v)
  | cancel : (∀ c ∈ v.task, c.policy = schedExt) → v.budget ≠ none → v.sched ≠ none → v.attr ≠ none →
      keeps = false → CpumaskStep f clk pid keeps v (cancelView f clk v)

theorem view_rmsSetCpumask (f : Features) (u : Pid) (clk : Nat → UInt64) (pid : Pid) {p : Task}
    (cpumask : Finset Cpu) {s : St} (ht : (view s pid).task = some (core p)) :
    ∃ v, view (rmsSetCpumask f u clk pid p cpumask s) = Function.update (view s) pid v ∧
      CpumaskStep f clk pid (decide (p.cpu ∈ cpumask)) (view s pid) v := by
  have hsame : ∀ s', view s' = view s → ∃ v, view s' = Function.update (view s) pid v ∧
      CpumaskStep f clk pid (decide (p.cpu ∈ cpumask)) (view s pid) v :=
    fun s' h => ⟨view s pid, by rw [h, Function.update_eq_self], .same⟩
  unfold rmsSetCpumask
  split
  · exact hsame _ rfl
  split
  · exact hsame _ rfl
  rename_i hpol
  have hext : ∀ c ∈ (view s pid).task, c.policy = schedExt := by
    intro c hc
    rw [ht] at hc
    cases hc
    exact not_not.mp hpol
  split
  · rename_i a hb hs ha
    obtain ⟨rb, rs, h⟩ := view_firstInit (a := a) clk hb hs
    exact ⟨_, h, .init rb rs hext ha hb hs⟩
  · rename_i b ps a hb hs ha
    split
    · exact hsame _ rfl
    · rename_i hc
      refine ⟨cancelView f clk (view s pid), ?_, .cancel hext ?_ ?_ ?_ (by simpa using hc)⟩
      · cases hm : f.migration <;> simp [cancelView, hm]
      · rw [show (view s pid).budget = some b from hb]; simp
      · rw [show (view s pid).sched = some ps from hs]; simp
      · rw [show (view s pid).attr = some a from ha]; simp
  · exact hsame _ rfl

theorem view_rmsDisable (clk : Nat → UInt64) (pid : Pid) (p : Task) (s : St) :
    view (rmsDisable clk pid p s) =
      Function.update (view s) pid (if p.policy = schedExt then (view s pid).gone else view s pid) := by
  unfold rmsDisable
  split
  · rw [view_exit]
  · rw [Function.update_eq_self]

/-! ## Timer expiries -/

/-- The budget timer of the pid fires: its callback finds it unarmed. -/
def fireBudget (pid : Pid) (s : St) : St := setBudget pid (fun timer => { timer with t := none }) s

def fireSched (pid : Pid) (s : St) : St := setSched pid (fun timer => { timer with t := none }) s

theorem view_fireBudget {pid : Pid} {s : St} {b : RmsTimer} (hb : (view s pid).budget = some b) :
    view (fireBudget pid s) =
      Function.update (view s) pid { view s pid with budget := some { b with t := none } } := by
  rw [fireBudget, view_setBudget, hb]
  rfl

theorem lookup_fireSched {s : St} {key : Pid} {timer : RmsTimer} (h : s.maps.schedTimer.lookup key = some timer) :
    (fireSched key s).maps.schedTimer.lookup key = some { timer with t := none } := by
  simp [fireSched, setSched, h]

theorem view_fireSched {pid : Pid} {s : St} {p : RmsTimer} (hp : (view s pid).sched = some p) :
    view (fireSched pid s) =
      Function.update (view s) pid { view s pid with sched := some { p with t := none } } := by
  rw [fireSched, view_setSched, hp]
  rfl

/-- `b'` is the timer `b` of a task, armed no differently if at all. -/
def Stopped (b b' : RmsTimer) : Prop := b'.arg = b.arg ∧ b'.periodicTime = 0 ∧ (b'.t = none ∨ b'.t = b.t)

theorem stopped_setRemain (own : Bool) (n₀ n₁ : UInt64) (b : RmsTimer) :
    Stopped b (rmsTimerSetRemain (rmsTimerCancel own n₀ b).1 n₁ .abs) := by
  cases own
  · exact ⟨rfl, rfl, .inl rfl⟩
  · exact ⟨rfl, rfl, .inr rfl⟩

theorem view_overrun (ctx : TimerCtx) (clk : Nat → UInt64) (cpu : Cpu) (s : St) (q : Pid) :
    view (overrun ctx clk cpu s) q = view s q ∨
      ∃ b b', (view s q).budget = some b ∧ Stopped b b' ∧
        view (overrun ctx clk cpu s) q = { view s q with budget := some b' } := by
  unfold overrun
  split
  · exact .inl rfl
  rename_i cur _
  split
  · rename_i t b _ hb
    have hv : ∀ s', view s' = view s →
        view (setBudget cur (fun b => rmsTimerSetRemain
            (rmsTimerCancel (ctx == some (.budget, cur)) (clk 0) b).1 (clk 1) .abs) s') =
          Function.update (view s) cur { view s cur with budget := some (rmsTimerSetRemain
            (rmsTimerCancel (ctx == some (.budget, cur)) (clk 0) b).1 (clk 1) .abs) } := by
      intro s' h
      simp [h, show (view s cur).budget = some b from hb]
    simp only
    rw [hv _ (by split <;> simp)]
    by_cases h : q = cur
    · subst h
      exact .inr ⟨b, _, hb, stopped_setRemain (ctx == some (.budget, q)) (clk 0) (clk 1) b, by simp⟩
    · exact .inl (by simp [h])
  · exact .inl rfl

/-- The budget callback of a task that has an entry. -/
def budgetView (a : TaskAttr) (b : RmsTimer) (v : View) : View :=
  { v with attr := some { a with isYield := if a.isYield = 0 then 1 else a.isYield }
           budget := some { b with t := none, remainTime := a.budget, pending := 0 } }

/-- What the expiry of the budget timer of `k` makes of the view `v` of `q`. -/
inductive BudgetStep (f : Features) (k q : Pid) (v : View) : View → Prop
  | other : q ≠ k → BudgetStep f k q v v
  | noAttr {b : RmsTimer} : q = k → v.attr = none → v.budget = some b →
      BudgetStep f k q v { v with budget := some { b with t := none } }
  | spent {a : TaskAttr} {b : RmsTimer} : q = k → v.attr = some a → v.budget = some b →
      ¬ (f.budgetOverrun = true ∧ a.isYield ≠ 0) → BudgetStep f k q v (budgetView a b v)
  | overrun {b c : RmsTimer} : f.budgetOverrun = true → v.budget = some b → Stopped b c →
      BudgetStep f k q v { v with budget := some c }

theorem rmsCallbackBudget_none {f : Features} {clk : Nat → UInt64} {key : Pid} {cpu : Cpu} {s : St}
    {b : RmsTimer} (hb : (view s key).budget = some b) (harg : b.arg = key)
    (ha : (view s key).attr = none) :
    rmsCallbackBudget f clk key cpu s = scxError .callbackBudget s := by
  have hb' : s.maps.budgetTimer.lookup key = some b := hb
  have ha' : s.maps.taskAttr.lookup key = none := ha
  simp only [rmsCallbackBudget, hb', harg, ha']

theorem rmsCallbackBudget_some {f : Features} {clk : Nat → UInt64} {key : Pid} {cpu : Cpu} {s : St}
    {b : RmsTimer} {a : TaskAttr} (hb : (view s key).budget = some b) (harg : b.arg = key)
    (ha : (view s key).attr = some a) :
    rmsCallbackBudget f clk key cpu s =
      setBudget key (fun timer => refreshTimer { timer with pending := 0 }) (kickCpu a.cpu
        (if a.isYield = 0 then
          setAttr key (fun a => { a with isYield := 1 })
            (setBudget key (fun timer => { timer with remainTime := a.budget }) s)
        else if f.budgetOverrun then
          overrun (some (.budget, key)) clk cpu
            (setBudget key (fun timer => { timer with remainTime := a.budget }) s)
        else setBudget key (fun timer => { timer with remainTime := a.budget }) s)) := by
  have hb' : s.maps.budgetTimer.lookup key = some b := hb
  have ha' : s.maps.taskAttr.lookup key = some a := ha
  simp only [rmsCallbackBudget, hb', harg, ha']

theorem view_budgetExpiry (f : Features) (clk : Nat → UInt64) {key : Pid} (cpu : Cpu) {s : St} {b : RmsTimer}
    (hb : (view s key).budget = some b) (harg : b.arg = key) (hper : b.periodicTime = 0) (q : Pid) :
    BudgetStep f key q (view s q) (view (rmsCallbackBudget f clk key cpu (fireBudget key s)) q) := by
  have hv₀ := view_fireBudget hb
  generalize fireBudget key s = s₀ at hv₀ ⊢
  have hb₀ : (view s₀ key).budget = some { b with t := none } := by rw [hv₀, Function.update_self]
  rcases ha : (view s key).attr with _ | a
  · have ha₀ : (view s₀ key).attr = none := by rw [hv₀, Function.update_self]; exact ha
    rw [rmsCallbackBudget_none hb₀ harg ha₀, view_scxError, hv₀]
    by_cases h : q = key
    · subst h
      rw [Function.update_self]; exact .noAttr rfl ha hb
    · rw [Function.update_of_ne h]; exact .other h
  have ha₀ : (view s₀ key).attr = some a := by rw [hv₀, Function.update_self]; exact ha
  have hr : refreshTimer { b with t := none, remainTime := a.budget, pending := 0 } =
      { b with t := none, remainTime := a.budget, pending := 0 } := refreshTimer_once hper
  rw [rmsCallbackBudget_some hb₀ harg ha₀, view_setBudget, view_kickCpu]
  by_cases hov : f.budgetOverrun = true ∧ a.isYield ≠ 0
  · rw [if_neg hov.2, if_pos hov.1]
    generalize hs₁ : setBudget key (fun timer => { timer with remainTime := a.budget }) s₀ = s₁
    have hv₁ : view s₁ = Function.update (view s) key { view s key with
        budget := some { b with t := none, remainTime := a.budget } } := by
      rw [← hs₁, view_setBudget, hv₀]; simp
    -- the timer's own budget can be the one that is stopped
    by_cases h : q = key
    · subst h
      rcases view_overrun (some (.budget, q)) clk cpu s₁ q with ho | ⟨b₁, b₂, hb₁, ⟨h1, h2, h3⟩, ho⟩
      · rw [ho]
        simpa [hv₁, hr] using BudgetStep.overrun (k := q) (q := q) hov.1 hb
          (c := { b with t := none, remainTime := a.budget, pending := 0 }) ⟨rfl, hper, .inl rfl⟩
      · rw [ho]
        simp only [hv₁, Function.update_self, Option.some.injEq] at hb₁
        subst hb₁
        have ht : b₂.t = none := h3.elim id id
        simpa [hv₁, refreshTimer_once (t := { b₂ with pending := 0 }) h2] using
          BudgetStep.overrun (k := q) (q := q) hov.1 hb (c := { b₂ with pending := 0 }) ⟨h1, h2, .inl ht⟩
    · rw [Function.update_of_ne h]
      rcases view_overrun (some (.budget, key)) clk cpu s₁ q with ho | ⟨b₁, b₂, hb₁, hst, ho⟩
      · rw [ho, hv₁, Function.update_of_ne h]
        exact .other h
      · rw [ho]
        simp only [hv₁, Function.update_of_ne h] at hb₁ ⊢
        exact .overrun hov.1 hb₁ hst
  · by_cases h : q = key
    · subst h
      refine (show ∀ v, v = budgetView a b (view s q) → BudgetStep f q q (view s q) v from
        fun v h => h ▸ .spent rfl ha hb hov) _ ?_
      by_cases hy : a.isYield = 0
      · simp [hy, hv₀, ha, hr, budgetView]
      · have hf : ¬ f.budgetOverrun = true := fun h => hov ⟨h, hy⟩
        simp [hy, hf, hv₀, ha, hr, budgetView]
    · refine (show ∀ v, v = view s q → BudgetStep f key q (view s q) v from fun v hv => hv ▸ .other h) _ ?_
      by_cases hy : a.isYield = 0
      · simp [hy, hv₀, h]
      · have hf : ¬ f.budgetOverrun = true := fun h => hov ⟨h, hy⟩
        simp [hy, hf, hv₀, h]

/-! ## The period callback -/

/-- The release of a task at its period. -/
def releaseView (a : TaskAttr) (b p : RmsTimer) (v : View) : View :=
  { v with attr := some { a with isYield := 0 }
           budget := some { b with remainTime := a.budget }
           sched := some (refreshTimer { p with t := none, pending := 0 }) }

/-- What the expiry of the period timer of `key` makes of the view `v` of `key`. -/
inductive PeriodStep (v : View) : View → Prop
  | release {c : Core} {a : TaskAttr} {b p : RmsTimer} : v.task = some c → c.policy = schedExt →
      v.attr = some a → v.budget = some b → v.sched = some p → PeriodStep v (releaseView a b p v)
  | exit {p : RmsTimer} : v.sched = some p →
      (∀ c ∈ v.task, c.policy = schedExt → v.attr = none ∨ v.budget = none) →
      PeriodStep v { v with sched := some { p with t := none, periodicTime := 0 } }

/-- From its own callback a task's exit fails and leaves the timer without a period. -/
theorem view_exit_own (clk : Nat → UInt64) {key : Pid} {s : St} {p : RmsTimer}
    (hp : (view s key).sched = some p) :
    view { s with maps := exitRmsTask (some (.sched, key)) clk key s.maps } =
      Function.update (view s) key { view s key with sched := some { p with periodicTime := 0 } } := by
  have hp' : s.maps.schedTimer.lookup key = some p := hp
  rw [exitRmsTask_own clk hp']
  funext q
  by_cases h : q = key
  · subst h
    simp [view, hp']
  · simp [view, h, BoundedMap.lookup_modify_ne]

theorem view_periodExpiry (clk : Nat → UInt64) {key : Pid} {s : St} {p : RmsTimer}
    (hp : (view s key).sched = some p) (harg : p.arg = key) : ∃ v, PeriodStep (view s key) v ∧
      view (rmsCallbackPeriod clk key (fireSched key s)) = Function.update (view s) key v := by
  have hv₀ := view_fireSched hp
  generalize fireSched key s = s₀ at hv₀ ⊢
  have hp₀ : s₀.maps.schedTimer.lookup key = some { p with t := none } := by
    show (view s₀ key).sched = _
    rw [hv₀, Function.update_self]
  have hexit : ∀ s₁ : St, view s₁ = view s₀ →
      view { s₁ with maps := exitRmsTask (some (.sched, key)) clk key s₁.maps } =
        Function.update (view s) key
          { view s key with sched := some { p with t := none, periodicTime := 0 } } := by
    intro s₁ h
    rw [view_exit_own clk (p := { p with t := none }) (by rw [h, hv₀, Function.update_self]), h, hv₀]
    simp
  have ht : (s₀.tasks key).map core = (view s key).task := by
    show (view s₀ key).task = _
    rw [hv₀, Function.update_self]
  have ha₀ : s₀.maps.taskAttr.lookup key = (view s key).attr := by
    show (view s₀ key).attr = _
    rw [hv₀, Function.update_self]
  have hb₀ : s₀.maps.budgetTimer.lookup key = (view s key).budget := by
    show (view s₀ key).budget = _
    rw [hv₀, Function.update_self]
  unfold rmsCallbackPeriod
  simp only [hp₀, harg]
  rcases htk : s₀.tasks key with _ | t
  · refine ⟨_, .exit hp ?_, hexit s₀ rfl⟩
    intro c hc
    rw [← ht, htk] at hc; cases hc
  rw [htk] at ht
  simp only
  split
  · rename_i hpol
    refine ⟨_, .exit hp ?_, hexit _ (view_scxError _ _)⟩
    intro c hc hext
    rw [← ht, Option.map_some, Option.mem_some_iff] at hc
    subst hc
    exact absurd hext hpol
  rename_i hpol
  rw [ha₀, hb₀]
  rcases ha : (view s key).attr with _ | a
  · exact ⟨_, .exit hp fun _ _ _ => .inl ha, hexit s₀ rfl⟩
  rcases hb : (view s key).budget with _ | b
  · exact ⟨_, .exit hp fun _ _ _ => .inr hb, hexit s₀ rfl⟩
  refine ⟨_, .release ht.symm (not_not.mp hpol) ha hb hp, ?_⟩
  simp [hv₀, ha, hb, releaseView]

/-! ## Dispatch -/

/-- A migrated task whose period timer waits for its dispatch. -/
def Migrating (f : Features) (v : View) : Prop :=
  f.migration = true ∧ v.task ≠ none ∧ ∃ a, v.attr = some a ∧ a.isMigrate ≠ 0

/-- The view of a migrated task whose period timer has been started again. -/
def restartView (q : Pid) (a : TaskAttr) (expire remain : UInt64) (v : View) : View :=
  { v with attr := some { a with isMigrate := 0 }
           sched := v.sched.map fun _ => ⟨some expire, a.period, remain, expire, 1, periodCallback, q⟩ }

/-- What dispatches make of the view of `q`: nothing, and they leave it in the queues it is
    in while it is migrating, or they start its period timer again. -/
inductive DispatchStep (f : Features) (q : Pid) (s s' : St) : Prop
  | same : view s' q = view s q →
      (∀ c, q ∈ queued s.cpuQueues c → q ∈ queued s'.cpuQueues c ∨ ¬ Migrating f (view s q)) →
      DispatchStep f q s s'
  | restart {a : TaskAttr} {expire remain : UInt64} : f.migration = true → (view s q).attr = some a →
      a.isMigrate ≠ 0 → view s' q = restartView q a expire remain (view s q) → DispatchStep f q s s'

theorem DispatchStep.trans {f : Features} {q : Pid} {s₁ s₂ s₃ : St} (h : DispatchStep f q s₁ s₂)
    (h' : DispatchStep f q s₂ s₃) : DispatchStep f q s₁ s₃ := by
  cases h with
  | same hv hq =>
    cases h' with
    | same hv' hq' =>
      refine .same (hv'.trans hv) ?_
      intro c hc
      rcases hq c hc with h | h
      · exact hv ▸ hq' c h
      · exact .inr h
    | restart hm ha hi hv' => exact .restart hm (hv ▸ ha) hi (hv ▸ hv')
  | restart hm ha hi hv =>
    cases h' with
    | same hv' _ => exact .restart hm ha hi (hv'.trans hv)
    | restart _ ha' hi' _ =>
      rw [hv] at ha'
      cases ha'
      exact absurd rfl hi'

theorem view_restartMigrated (clk : Nat → UInt64) {pid : Pid} {a : TaskAttr} {s : St}
    (ha : (view s pid).attr = some a) :
    ∃ expire remain, view (restartMigrated clk pid a s) =
      Function.update (view s) pid (restartView pid a expire remain (view s pid)) := by
  unfold restartMigrated
  rcases hp : s.maps.schedTimer.lookup pid with _ | p
  · refine ⟨0, 0, ?_⟩
    have hp' : (setAttr pid (fun a => { a with isMigrate := 0 }) s).maps.schedTimer.lookup pid = none := hp
    simp [hp', restartView, ha, show (view s pid).sched = none from hp]
  · have hp' : (setAttr pid (fun a => { a with isMigrate := 0 }) s).maps.schedTimer.lookup pid = some p := hp
    simp only [hp', rmsTimerStart_eq, view_setSched, view_setAttr]
    obtain ⟨expire, he⟩ : ∃ expire, expire = clk 1 + if rmsTimerGetRemain (clk 0) p = 0 then a.period
      else rmsTimerGetRemain (clk 0) p := ⟨_, rfl⟩
    refine ⟨expire, expire - clk 3, ?_⟩
    simp [restartView, ha, show (view s pid).sched = some p from hp, he]

@[simp] theorem cpuQueues_dsqInsertVtime (d : Nat) (vtime : UInt64) (pid : Pid) (s : St) :
    (dsqInsertVtime d vtime pid s).cpuQueues = s.cpuQueues := by
  unfold dsqInsertVtime
  split
  · split <;> rfl
  · rfl

@[simp] theorem cpuQueues_checkCpu (cpu : Cpu) (s : St) : (checkCpu cpu s).cpuQueues = s.cpuQueues := by
  unfold checkCpu; split <;> rfl

@[simp] theorem cpuQueues_restartMigrated (clk : Nat → UInt64) (pid : Pid) (a : TaskAttr) (s : St) :
    (restartMigrated clk pid a s).cpuQueues = s.cpuQueues := by rw [restartMigrated_maps]

/-- One iteration pops one pid; if that task is migrating its period starts again. -/
theorem dispatchLoop_step (f : Features) (clk : Nat → UInt64) (cpu : Cpu) (i : Nat) {s : St}
    (hq : QueuesWF s.cpuQueues) :
    QueuesWF (dispatchLoop f clk cpu i s).2.cpuQueues ∧
      ∀ q, DispatchStep f q s (dispatchLoop f clk cpu i s).2 := by
  unfold dispatchLoop
  rcases hp : cpuQueuePop s.cpuQueues cpu with _ | ⟨pid, queues⟩
  · exact ⟨hq, fun q => .same rfl fun _ h => .inl h⟩
  obtain ⟨hwf, -, hcpu, hother⟩ := pop_queued hq hp
  -- what is queued is still queued, but for the pid that was popped
  have hkept : ∀ q c, (q = pid → ¬ Migrating f (view s q)) → q ∈ queued s.cpuQueues c →
      q ∈ queued queues c ∨ ¬ Migrating f (view s q) := by
    intro q c hn h
    by_cases hc : c = cpu
    · subst hc
      rw [hcpu] at h
      rcases List.mem_cons.mp h with rfl | h
      · exact .inr (hn rfl)
      · exact .inl h
    · exact .inl (hother c hc ▸ h)
  simp only
  rcases ht : s.tasks pid with _ | t
  · refine ⟨hwf, fun q => .same (by simp) fun c => hkept q c fun e hm => hm.2.1 ?_⟩
    subst e; simp [view, ht]
  rcases ha : s.maps.taskAttr.lookup pid with _ | a
  · refine ⟨hwf, fun q => .same (by simp) fun c => hkept q c ?_⟩
    intro e hm
    subst e
    obtain ⟨a, ha', -⟩ := hm.2.2
    rw [show (view s q).attr = none from ha] at ha'; cases ha'
  simp only
  split
  · rename_i hm
    obtain ⟨expire, remain, hv⟩ :=
      view_restartMigrated (fun j => clk (4 * i + j)) (s := { s with cpuQueues := queues })
      (show (view _ pid).attr = some a from ha)
    refine ⟨by simpa using hwf, ?_⟩
    intro q
    by_cases h : q = pid
    · subst h
      exact .restart hm.1 ha hm.2 (by simpa using congrFun hv q)
    · refine .same (by simpa [h] using congrFun hv q) ?_
      intro c
      simpa using hkept q c fun e => absurd e h
  · rename_i hm
    refine ⟨by simpa using hwf, fun q => .same (by simp) ?_⟩
    intro c
    simpa using hkept q c fun e hmig => by
      subst e
      obtain ⟨a', ha', hi⟩ := hmig.2.2
      rw [show (view s q).attr = some a from ha, Option.some.injEq] at ha'
      subst ha'
      exact hm ⟨hmig.1, hi⟩

theorem bpfLoop_inv {P : St → Prop} {callback : Nat → St → Bool × St}
    (h : ∀ i s, P s → P (callback i s).2) (n i : Nat) {s : St} (hs : P s) : P (bpfLoop callback n i s) := by
  induction n generalizing i s with
  | zero => exact hs
  | succ n ih =>
    rw [bpfLoop]
    split
    · exact h i s hs
    · exact ih (i + 1) (h i s hs)

theorem rmsDispatch_step (f : Features) (clk : Nat → UInt64) (cpu : Cpu) {s : St}
    (hq : QueuesWF s.cpuQueues) :
    QueuesWF (rmsDispatch f clk cpu s).cpuQueues ∧ ∀ q, DispatchStep f q s (rmsDispatch f clk cpu s) := by
  have hloop := bpfLoop_inv (P := fun s' => QueuesWF s'.cpuQueues ∧ ∀ q, DispatchStep f q s s')
    (fun i s' h => by
      obtain ⟨h1, h2⟩ := dispatchLoop_step f clk cpu i h.1
      exact ⟨h1, fun q => (h.2 q).trans (h2 q)⟩)
    maxTaskNr 0 ⟨hq, fun q => .same rfl fun _ h => .inl h⟩
  have hmove : ∀ s', (dsqMoveToLocal (cpuToDsq cpu) cpu (checkCpu cpu s')).cpuQueues = s'.cpuQueues := by
    intro s'
    unfold dsqMoveToLocal
    split <;> simp
  unfold rmsDispatch
  refine ⟨by rw [hmove]; exact hloop.1, fun q => (hloop.2 q).trans (.same (by simp) fun c h => .inl ?_)⟩
  rw [hmove]; exact h

end Ksight.Rms

/-
  Ksight.Rms.Budget — what a task runs between two releases.

  The budget of a task is one timer. `rms_running` starts it with what is left, the budget
  callback parks the task when it fires, `rms_yield` stops it, and the period callback
  fills it up. `Meter` adds to the state how long each task has run since its last release
  (or since it got its timers): time passes while it is between `rms_running` and
  `rms_stopping`. The law (`Exact`) is that this never passes the budget, and is the whole
  budget when the budget callback parks the task.

  `rms_stopping` does not stop the timer, so a preempted task is charged for the time it
  waits (`a_preempted_task_is_charged_for_waiting`). `exact` says when the law holds: while
  a task's budget timer runs and time passes the task is on its CPU, and the places that
  read or overwrite the timer find in it what is left of the budget (`Accounted`).
  What carries the proof is the account of each task (`Tally`): the time it has run and
  what its timer holds make up the budget.
-/

import Ksight.Rms.Places

namespace Ksight.Rms.Budget

open Ksight.Lib

structure Meter where
  s : St
  ran : Pid → Nat

/-- The period callback finds the task in SCHED_EXT with its entries. -/
def releases (s : St) (pid : Pid) : Bool :=
  (s.tasks pid).any (·.policy = schedExt) && (s.maps.taskAttr.lookup pid).isSome &&
    (s.maps.budgetTimer.lookup pid).isSome

def meter (e : Ev) (m : Meter) (s' : St) : Meter :=
  ⟨s', fun q =>
    match e with
    | .tick d => if posOf m.s q = some .on then m.ran q + d else m.ran q
    | .periodExpiry pid _ => if q = pid ∧ releases m.s pid then 0 else m.ran q
    | _ => if m.s.maps.budgetTimer.lookup q = none ∧ s'.maps.budgetTimer.lookup q ≠ none then 0 else m.ran q⟩

variable (cfg : Config)

def mstep (e : Ev) (m : Meter) : Option Meter := (step cfg e m.s).map (meter e m)

def minit : Meter := ⟨init, fun _ => 0⟩

def Ev.lags : Ev → List Nat
  | .setscheduler _ _ lags | .reap _ lags | .dispatch _ lags | .running _ lags | .stopping _ _ lags
  | .yield _ lags | .setCpumask _ _ lags | .budgetExpiry _ _ lags | .periodExpiry _ lags => lags
  | _ => []

/-- No timer of the map fires before `d` has passed. -/
def NotBefore (now d : Nat) (timers : BoundedMap Pid RmsTimer maxTaskNr) : Prop :=
  ∀ pid ∈ timers.keys, ∀ b ∈ timers.lookup pid, ∀ e ∈ b.t, now + d ≤ e.toNat

-- by the one value an option can hold, not by all values of its type
instance (t : Nat) (timer : RmsTimer) : Decidable (∀ e ∈ timer.t, t ≤ e.toNat) :=
  Option.decidableForallMem _

instance (now d : Nat) (timers : BoundedMap Pid RmsTimer maxTaskNr) : Decidable (NotBefore now d timers) :=
  inferInstanceAs (Decidable (∀ pid ∈ timers.keys, _))

/-- Handlers take no time, a CPU that is told to reschedule does, and timers fire when
    they are due. -/
def Prompt : Ev → Meter → Prop
  | .tick d, m =>
    m.s.resched = ∅ ∧ NotBefore m.s.now d m.s.maps.budgetTimer ∧ NotBefore m.s.now d m.s.maps.schedTimer
  | e, _ => Ev.lags e = []

instance (m : Meter) : (e : Ev) → Decidable (Prompt e m)
  | .tick _ => inferInstanceAs (Decidable (_ ∧ _ ∧ _))
  | .fork .. | .register .. | .setscheduler .. | .die .. | .reap .. | .selectCpu .. | .migrate ..
  | .enqueue .. | .dequeue .. | .dispatch .. | .running .. | .stopping .. | .yield .. | .setCpumask ..
  | .budgetExpiry .. | .periodExpiry .. => inferInstanceAs (Decidable (_ = []))

structure Exact (m : Meter) : Prop where
  atMost : ∀ pid, ∀ a ∈ m.s.maps.taskAttr.lookup pid, m.s.maps.budgetTimer.lookup pid ≠ none →
    m.ran pid ≤ a.budget.toNat
  parked : ∀ pid cpu lags, (act cfg (.budgetExpiry pid cpu lags) m.s).isSome →
    ∀ a ∈ m.s.maps.taskAttr.lookup pid, a.isYield = 0 → m.ran pid = a.budget.toNat

/-! ## The condition -/

/-- What `rms_running` starts the timer with. -/
def left (now : UInt64) (a : TaskAttr) (b : RmsTimer) : UInt64 :=
  if rmsTimerGetRemain now b = 0 then a.budget else rmsTimerGetRemain now b

/-- The timer runs and is to fire now. -/
def Due (now : UInt64) (b : RmsTimer) : Prop := b.pending ≠ 0 ∧ b.expireTime ≤ now

instance (now : UInt64) (b : RmsTimer) : Decidable (Due now b) := inferInstanceAs (Decidable (_ ∧ _))

/-- A report of `mask` cancels no budget timer of a released task, or leaves in it what
    was left. -/
def KeepsLeft (s : St) (q : Pid) (policy : Nat) (mask : Finset Cpu) : Prop :=
  policy = schedExt → keepsCpu s q mask = false → (view s q).sched ≠ none →
    ∀ a ∈ (view s q).attr, ∀ b ∈ (view s q).budget, a.isYield = 0 →
      ¬ Due (.ofNat s.now) b ∧ left (.ofNat s.now) a (rmsTimerCancel false (.ofNat s.now) b).1 =
        left (.ofNat s.now) a b

instance (s : St) (q : Pid) (policy : Nat) (mask : Finset Cpu) : Decidable (KeepsLeft s q policy mask) :=
  inferInstanceAs (Decidable (_ → _))

def Accounted : Ev → Meter → Prop
  /- A task whose budget timer runs is on its CPU. -/
  | .tick d, m => ∀ pid ∈ m.s.maps.budgetTimer.keys, ∀ b ∈ m.s.maps.budgetTimer.lookup pid, b.t ≠ none →
      d = 0 ∨ posOf m.s pid = some .on
  /- A task that runs has not been parked, its timer is not about to fire, and the time it
     is set to fits. -/
  | .running pid _, m => ∀ a ∈ m.s.maps.taskAttr.lookup pid, ∀ b ∈ m.s.maps.budgetTimer.lookup pid,
      a.isYield = 0 ∧ ¬ Due (.ofNat m.s.now) b ∧ m.s.now + (left (.ofNat m.s.now) a b).toNat < 2 ^ 64
  /- A release finds the timer stopped, or started at this instant. -/
  | .periodExpiry pid _, m => ∀ a ∈ m.s.maps.taskAttr.lookup pid, ∀ b ∈ m.s.maps.budgetTimer.lookup pid,
      b.pending = 0 ∨ b.expireTime.toNat = m.s.now + a.budget.toNat
  /- The CPU that is kicked is the one the task is on. -/
  | .budgetExpiry pid _ _, m => ∀ a ∈ m.s.maps.taskAttr.lookup pid, ∀ t ∈ m.s.tasks pid, t.pos = .on →
      t.cpu = a.cpu
  /- A task with timers does not register again. -/
  | .register pid _ _ _, m => m.s.maps.budgetTimer.lookup pid = none
  | .setCpumask pid cpumask _, m => ∀ t ∈ m.s.tasks pid, KeepsLeft m.s pid t.policy cpumask
  | .setscheduler pid policy _, m =>
    ∀ t ∈ m.s.tasks pid, t.policy ≠ schedExt → KeepsLeft m.s pid policy t.cpusPtr
  | _, _ => True

instance (m : Meter) : (e : Ev) → Decidable (Accounted e m)
  | .tick _ => inferInstanceAs (Decidable (∀ _ ∈ m.s.maps.budgetTimer.keys, _))
  | .running .. | .periodExpiry .. | .budgetExpiry .. =>
    inferInstanceAs (Decidable (∀ _ ∈ m.s.maps.taskAttr.lookup _, _))
  | .setCpumask .. | .setscheduler .. => inferInstanceAs (Decidable (∀ _ ∈ m.s.tasks _, _))
  | .register .. => inferInstanceAs (Decidable (_ = none))
  | .fork .. | .die .. | .reap .. | .selectCpu .. | .migrate .. | .enqueue .. | .dequeue .. | .dispatch ..
  | .stopping .. | .yield .. => .isTrue trivial

/-! ## Time and CPUs -/

/-- No time passes, no CPU changes its task, and none is told to go on. -/
structure Calm (s s' : St) : Prop where
  now : s'.now = s.now
  curr : s'.curr = s.curr
  resched : s.resched ⊆ s'.resched

theorem Calm.refl (s : St) : Calm s s := ⟨rfl, rfl, subset_rfl⟩

theorem Calm.trans {s₁ s₂ s₃ : St} (h : Calm s₁ s₂) (h' : Calm s₂ s₃) : Calm s₁ s₃ :=
  ⟨h'.now.trans h.now, h'.curr.trans h.curr, h.resched.trans h'.resched⟩

theorem calm_mapsOnly {s s' : St} (h : MapsOnly s s') : Calm s s' := by
  rw [h]; exact ⟨rfl, rfl, subset_rfl⟩

theorem calm_kickCpu (cpu : Cpu) (s : St) : Calm s (kickCpu cpu s) := by
  unfold kickCpu
  split
  · exact ⟨rfl, rfl, Finset.subset_insert _ _⟩
  · exact .refl s

theorem calm_checkCpu (cpu : Cpu) (s : St) : Calm s (checkCpu cpu s) := by
  unfold checkCpu; split <;> exact ⟨rfl, rfl, subset_rfl⟩

theorem calm_insertVtime (d : Nat) (vtime : UInt64) (pid : Pid) (s : St) :
    Calm s (dsqInsertVtime d vtime pid s) := by
  unfold dsqInsertVtime
  split
  · split <;> exact ⟨rfl, rfl, subset_rfl⟩
  · exact .refl s

theorem calm_enqueue (u : Pid) (curCpu : Cpu) (pid : Pid) (p : Task) (s : St) :
    Calm s (rmsEnqueue u curCpu pid p s) := by
  unfold rmsEnqueue
  split
  · unfold dsqInsertLocal
    split
    · split <;> exact ⟨rfl, rfl, subset_rfl⟩
    · exact .refl s
  split
  · exact .refl s
  split
  · have hins := fun d v => (calm_checkCpu p.cpu s).trans (calm_insertVtime d v pid _)
    simp only
    split
    · exact (hins _ _).trans (calm_kickCpu _ _)
    · exact hins _ _
  · exact .refl s

theorem calm_dispatchLoop (f : Features) (clk : Nat → UInt64) (cpu : Cpu) (i : Nat) (s : St) :
    Calm s (dispatchLoop f clk cpu i s).2 := by
  unfold dispatchLoop
  split
  · exact .refl s
  rename_i pid queues _
  have h : Calm s { s with cpuQueues := queues } := ⟨rfl, rfl, subset_rfl⟩
  simp only
  split
  · exact h
  split
  · exact h
  refine .trans ?_ ((calm_checkCpu cpu _).trans (calm_insertVtime ..))
  split
  · exact h.trans (calm_mapsOnly (restartMigrated_maps ..))
  · exact h

theorem calm_dispatch (f : Features) (clk : Nat → UInt64) (cpu : Cpu) (s : St) :
    Calm s (rmsDispatch f clk cpu s) := by
  have hloop : Calm s (bpfLoop (dispatchLoop f clk cpu) maxTaskNr 0 s) :=
    bpfLoop_inv (P := Calm s) (fun i s' h => h.trans (calm_dispatchLoop f clk cpu i s')) maxTaskNr 0 (.refl s)
  refine (hloop.trans (calm_checkCpu cpu _)).trans ?_
  unfold rmsDispatch dsqMoveToLocal
  split <;> exact ⟨rfl, rfl, subset_rfl⟩

theorem calm_callbackBudget {f : Features} (hf : f.budgetOverrun = false) (clk : Nat → UInt64)
    (key : Pid) (cpu : Cpu) (s : St) :
    Calm s (rmsCallbackBudget f clk key cpu s) := by
  unfold rmsCallbackBudget
  split
  · exact .refl s
  simp only [hf, Bool.false_eq_true, if_false]
  split
  · exact ⟨rfl, rfl, subset_rfl⟩
  · refine .trans (.trans ?_ (calm_kickCpu _ _)) ⟨rfl, rfl, subset_rfl⟩
    split <;> exact ⟨rfl, rfl, subset_rfl⟩

theorem calm_callbackPeriod (clk : Nat → UInt64) (key : Pid) (s : St) :
    Calm s (rmsCallbackPeriod clk key s) := by
  unfold rmsCallbackPeriod
  split
  · exact .refl s
  simp only
  split
  · exact ⟨rfl, rfl, subset_rfl⟩
  split
  · exact ⟨rfl, rfl, subset_rfl⟩
  split
  · refine .trans (.trans ?_ (calm_kickCpu _ _)) ⟨rfl, rfl, subset_rfl⟩
    exact ⟨rfl, rfl, subset_rfl⟩
  · exact ⟨rfl, rfl, subset_rfl⟩

theorem calm_setscheduler (clk : Nat → UInt64) (pid : Pid) (policy : Nat) (t : Task) (s : St) :
    Calm s (setscheduler cfg clk pid policy t s) := by
  unfold setscheduler
  simp only
  split
  · refine .trans ?_ (calm_mapsOnly (rmsSetCpumask_maps ..))
    exact ⟨rfl, rfl, subset_rfl⟩
  · split
    · refine .trans ?_ (calm_mapsOnly (rmsDisable_maps ..))
      exact ⟨rfl, rfl, subset_rfl⟩
    · exact ⟨rfl, rfl, subset_rfl⟩

/-- What a step other than `rms_running` of `q` and the passing of time leaves of `q`'s CPU. -/
structure Frame (q : Pid) (s s' : St) : Prop where
  now : s'.now = s.now
  curr : ∀ c, s'.curr c = some q → s.curr c = some q ∧ (c ∈ s.resched → c ∈ s'.resched)

theorem Calm.frame {s s' : St} (h : Calm s s') (q : Pid) : Frame q s s' :=
  ⟨h.now, fun _ hc => ⟨h.curr ▸ hc, fun hr => h.resched hr⟩⟩

variable {cfg}

/-- `rms_running` of the task itself is the one step that puts it on a CPU. -/
theorem frame_act (hf : cfg.features.budgetOverrun = false) {q : Pid} {e : Ev} {s s' : St}
    (hlags : Ev.lags e = []) (htick : ∀ d, e ≠ .tick d) (hrun : ∀ lags, e ≠ .running q lags)
    (h : act cfg e s = some s') : Frame q s s' := by
  cases e with
  | tick d => exact absurd rfl (htick d)
  | fork pid policy cpumask cpu =>
    simp only [act, Option.ite_none_right_eq_some, Option.some.injEq] at h
    obtain ⟨-, rfl⟩ := h
    refine Calm.frame ?_ q
    exact ⟨rfl, rfl, subset_rfl⟩
  | register | die | selectCpu | migrate | dequeue =>
    obtain ⟨t, -, -, rfl⟩ := onTask_eq_some.mp h
    refine Calm.frame ?_ q
    exact ⟨rfl, rfl, subset_rfl⟩
  | setscheduler pid policy lags =>
    obtain rfl : lags = [] := hlags
    obtain ⟨t, -, -, rfl⟩ := onTask_eq_some.mp h
    exact (calm_setscheduler ..).frame q
  | reap pid lags =>
    obtain rfl : lags = [] := hlags
    obtain ⟨t, -, -, rfl⟩ := onTask_eq_some.mp h
    refine Calm.frame (.trans (calm_mapsOnly (rmsDisable_maps (clkOf s.now []) pid t s)) ?_) q
    exact ⟨rfl, rfl, subset_rfl⟩
  | enqueue pid curCpu =>
    obtain ⟨t, -, -, rfl⟩ := onTask_eq_some.mp h
    refine Calm.frame (.trans ?_ (calm_enqueue ..)) q
    exact ⟨rfl, rfl, subset_rfl⟩
  | dispatch cpu lags =>
    obtain rfl : lags = [] := hlags
    simp only [act, Option.ite_none_right_eq_some, Option.some.injEq] at h
    obtain ⟨-, rfl⟩ := h
    exact (calm_dispatch ..).frame q
  | running pid lags =>
    obtain rfl : lags = [] := hlags
    obtain ⟨t, -, -, rfl⟩ := onTask_eq_some.mp h
    have hc := calm_mapsOnly (rmsRunning_maps cfg.features (clkOf s.now []) pid
      (setTask pid { t with pos := .on } { unqueue pid s with curr := Function.update s.curr t.cpu (some pid) }))
    refine ⟨hc.now, ?_⟩
    intro c hq
    have hq' : Function.update s.curr t.cpu (some pid) c = some q := (congrFun hc.curr c).symm.trans hq
    have hne : c ≠ t.cpu := by
      intro e
      subst e
      rw [Function.update_self, Option.some.injEq] at hq'
      exact hrun [] (hq' ▸ rfl)
    rw [Function.update_of_ne hne] at hq'
    exact ⟨hq', fun hr => hc.resched hr⟩
  | stopping pid runnable lags =>
    obtain rfl : lags = [] := hlags
    obtain ⟨t, -, -, rfl⟩ := onTask_eq_some.mp h
    have hc := calm_mapsOnly (rmsStopping_maps (clkOf s.now []) pid t runnable
      { setTask pid { t with pos := .off } s with
        curr := Function.update s.curr t.cpu none, resched := s.resched.erase t.cpu })
    refine ⟨hc.now, ?_⟩
    intro c hq
    have hq' : Function.update s.curr t.cpu none c = some q := (congrFun hc.curr c).symm.trans hq
    have hne : c ≠ t.cpu := by
      intro e
      subst e
      rw [Function.update_self] at hq'
      cases hq'
    rw [Function.update_of_ne hne] at hq'
    exact ⟨hq', fun hr => hc.resched (Finset.mem_erase.mpr ⟨hne, hr⟩)⟩
  | yield pid lags =>
    obtain rfl : lags = [] := hlags
    obtain ⟨t, -, -, rfl⟩ := onTask_eq_some.mp h
    refine Calm.frame (.trans ?_ (calm_mapsOnly (rmsYield_maps ..))) q
    exact ⟨rfl, rfl, Finset.subset_insert _ _⟩
  | setCpumask pid cpumask lags =>
    obtain rfl : lags = [] := hlags
    obtain ⟨t, -, -, rfl⟩ := onTask_eq_some.mp h
    refine Calm.frame (.trans ?_ (calm_mapsOnly (rmsSetCpumask_maps ..))) q
    exact ⟨rfl, rfl, subset_rfl⟩
  | budgetExpiry pid cpu lags =>
    obtain rfl : lags = [] := hlags
    obtain ⟨b, -, -, rfl⟩ := act_budgetExpiry h
    refine Calm.frame (.trans ?_ (calm_callbackBudget hf ..)) q
    exact ⟨rfl, rfl, subset_rfl⟩
  | periodExpiry pid lags =>
    obtain rfl : lags = [] := hlags
    obtain ⟨p, -, -, rfl⟩ := act_periodExpiry h
    refine Calm.frame (.trans ?_ (calm_callbackPeriod ..)) q
    exact ⟨rfl, rfl, subset_rfl⟩

theorem now_running {q : Pid} {s s' : St} (h : act cfg (.running q []) s = some s') : s'.now = s.now := by
  obtain ⟨t, -, -, rfl⟩ := onTask_eq_some.mp h
  exact (calm_mapsOnly (rmsRunning_maps cfg.features (clkOf s.now []) q (setTask q { t with pos := .on }
    { unqueue q s with curr := Function.update s.curr t.cpu (some q) }))).now

/-! ## The account of one task -/

structure Tally (s : St) (ran : Nat) (q : Pid) (v : View) : Prop where
  /-- What the timer is set to and what the task has run make up the budget. -/
  armed : ∀ a ∈ v.attr, ∀ b ∈ v.budget, ∀ e ∈ b.t, b.pending ≠ 0 ∧ b.expireTime = e ∧ s.now ≤ e.toNat ∧
    ran + e.toNat = a.budget.toNat + s.now
  idle : ∀ a ∈ v.attr, ∀ b ∈ v.budget, b.t = none → b.pending = 0 ∧ ran ≤ a.budget.toNat ∧
    (a.isYield = 0 → (if b.remainTime = 0 then a.budget else b.remainTime).toNat + ran = a.budget.toNat)
  /-- A task that is on a CPU with its timer stopped is about to leave it. -/
  leaving : ∀ a ∈ v.attr, ∀ b ∈ v.budget, b.t = none → ∀ c, s.curr c = some q → c ∈ s.resched

theorem Tally.of_none {s : St} {ran : Nat} {q : Pid} {v : View} (h : v.budget = none) : Tally s ran q v := by
  constructor <;> intro a _ b hb <;> rw [h] at hb <;> cases hb

theorem Tally.of_stopped {s : St} {ran : Nat} {q : Pid} {v : View} {a : TaskAttr} {b : RmsTimer}
    (ha : v.attr = some a) (hb : v.budget = some b) (hn : b.t = none) (hp : b.pending = 0)
    (hle : ran ≤ a.budget.toNat)
    (hleft : a.isYield = 0 →
      (if b.remainTime = 0 then a.budget else b.remainTime).toNat + ran = a.budget.toNat)
    (hleave : ∀ c, s.curr c = some q → c ∈ s.resched) : Tally s ran q v := by
  refine ⟨?_, ?_, fun _ _ _ _ _ => hleave⟩
  · intro a' _ b' hb' e he
    obtain rfl := Option.some.inj (hb.symm.trans hb')
    cases hn.symm.trans he
  · intro a' ha' b' hb' _
    obtain rfl := Option.some.inj (ha.symm.trans ha')
    obtain rfl := Option.some.inj (hb.symm.trans hb')
    exact ⟨hp, hle, hleft⟩

theorem Tally.of_armed {s : St} {ran : Nat} {q : Pid} {v : View} {a : TaskAttr} {b : RmsTimer} {e : UInt64}
    (ha : v.attr = some a) (hb : v.budget = some b) (he : b.t = some e) (hp : b.pending ≠ 0)
    (hexp : b.expireTime = e) (hle : s.now ≤ e.toNat) (hsum : ran + e.toNat = a.budget.toNat + s.now) :
    Tally s ran q v := by
  refine ⟨?_, ?_, ?_⟩
  · intro a' ha' b' hb' e' he'
    obtain rfl := Option.some.inj (ha.symm.trans ha')
    obtain rfl := Option.some.inj (hb.symm.trans hb')
    obtain rfl := Option.some.inj (he.symm.trans he')
    exact ⟨hp, hexp, hle, hsum⟩
  · intro a' _ b' hb' hn
    obtain rfl := Option.some.inj (hb.symm.trans hb')
    cases hn.symm.trans he
  · intro a' _ b' hb' hn
    obtain rfl := Option.some.inj (hb.symm.trans hb')
    cases hn.symm.trans he

theorem Tally.keep {s s' : St} {ran ran' : Nat} {q : Pid} {v v' : View} (ht : Tally s ran q v)
    (hf : Frame q s s') (ha : v'.attr = v.attr) (hb : v'.budget = v.budget)
    (hr : v.budget ≠ none → ran' = ran) : Tally s' ran' q v' := by
  rcases hbn : v.budget with _ | b₀
  · exact .of_none (hb.trans hbn)
  obtain rfl := hr (by simp [hbn])
  refine ⟨?_, ?_, ?_⟩
  · intro a hav b hbv e he
    rw [hf.now]
    exact ht.armed a (ha ▸ hav) b (hb ▸ hbv) e he
  · intro a hav b hbv hn
    exact ht.idle a (ha ▸ hav) b (hb ▸ hbv) hn
  · intro a hav b hbv hn c hc
    obtain ⟨h1, h2⟩ := hf.curr c hc
    exact h2 (ht.leaving a (ha ▸ hav) b (hb ▸ hbv) hn c h1)

theorem Tally.le {s : St} {ran : Nat} {q : Pid} {v : View} (ht : Tally s ran q v) {a : TaskAttr}
    {b : RmsTimer} (ha : v.attr = some a) (hb : v.budget = some b) : ran ≤ a.budget.toNat := by
  rcases hbt : b.t with _ | e
  · exact (ht.idle a ha b hb hbt).2.1
  · obtain ⟨-, -, h1, h2⟩ := ht.armed a ha b hb e hbt
    omega

/-- `rms_running` finds in the timer of a released task what is left of its budget, unless
    the timer is to fire now. -/
theorem Tally.left {s : St} {ran : Nat} {q : Pid} {v : View} (ht : Tally s ran q v)
    (hnow : s.now < 2 ^ 64) {a : TaskAttr} {b : RmsTimer} (ha : v.attr = some a)
    (hb : v.budget = some b) (hy : a.isYield = 0) (hd : ¬ Due (.ofNat s.now) b) :
    (left (.ofNat s.now) a b).toNat + ran = a.budget.toNat := by
  have hn : (UInt64.ofNat s.now).toNat = s.now := by simpa using Nat.mod_eq_of_lt hnow
  rcases hbt : b.t with _ | e
  · obtain ⟨hp, -, h⟩ := ht.idle a ha b hb hbt
    simpa [Budget.left, rmsTimerGetRemain, hp] using h hy
  · obtain ⟨hp, he, h1, h2⟩ := ht.armed a ha b hb e hbt
    subst he
    have hlt : UInt64.ofNat s.now < b.expireTime := UInt64.not_le.mp fun hle => hd ⟨hp, hle⟩
    have hlt' : s.now < b.expireTime.toNat := hn ▸ UInt64.lt_iff_toNat_lt.mp hlt
    have hsub : (b.expireTime - UInt64.ofNat s.now).toNat = b.expireTime.toNat - s.now := by
      rw [UInt64.toNat_sub_of_le _ _ (UInt64.le_of_lt hlt), hn]
    have hne : b.expireTime - UInt64.ofNat s.now ≠ 0 := fun h0 => by
      rw [h0] at hsub
      simp at hsub
      omega
    have hgt : b.expireTime > UInt64.ofNat s.now := hlt
    simp only [Budget.left, rmsTimerGetRemain, if_neg hp, if_pos hgt, if_neg hne, hsub]
    omega

theorem off_curr {s : St} (hp : Placed s) {q : Pid} {c : Core} (hc : (view s q).task = some c)
    (ho : c.on = false) (cpu : Cpu) : s.curr cpu ≠ some q := by
  intro h
  obtain ⟨t, ht, rfl⟩ := Option.map_eq_some_iff.mp hc
  have := (hp.running cpu q).mp h
  simp only [placeOf, ht, Option.map_some, Option.some.injEq, Prod.mk.injEq] at this
  simp [core, this.1] at ho

theorem clkOf_nil (now i : Nat) : clkOf now [] i = .ofNat now := by simp [clkOf]

theorem tally_cpumask {s s' : St} {ran ran' : Nat} {q : Pid} {mask : Finset Cpu} {c : Core} {v' : View}
    (hm : cfg.features.migration = false) (hnow : s.now < 2 ^ 64) (hf : Frame q s s')
    (hoff : ∀ cpu, s.curr cpu ≠ some q) (ht : Tally s ran q (view s q))
    (hr : (view s q).budget ≠ none → ran' = ran)
    (hnew : (view s q).budget = none → v'.budget ≠ none → ran' = 0) (hok : KeepsLeft s q c.policy mask)
    (h : CpumaskStep cfg.features (clkOf s.now []) q (keepsCpu s q mask)
      { view s q with task := some c } v') :
    Tally s' ran' q v' := by
  have hoff' : ∀ cpu, s'.curr cpu ≠ some q := fun cpu hc => hoff cpu (hf.curr cpu hc).1
  cases h with
  | same => exact ht.keep hf rfl rfl hr
  | init br sr _ ha hb _ =>
    rcases br with _ | _
    · exact .of_none rfl
    obtain rfl := hnew hb (by simp [firstInitView])
    exact .of_stopped ha rfl rfl rfl (Nat.zero_le _) (by simp) fun cpu hc => absurd hc (hoff' cpu)
  | cancel hext hb hs ha hk =>
    obtain ⟨b, hb⟩ := Option.ne_none_iff_exists'.mp hb
    obtain ⟨a, ha⟩ := Option.ne_none_iff_exists'.mp ha
    have hb : (view s q).budget = some b := hb
    have ha : (view s q).attr = some a := ha
    obtain rfl := hr (by simp [hb])
    have hbv : (cancelView cfg.features (clkOf s.now []) { view s q with task := some c }).budget =
        some (rmsTimerCancel false (.ofNat s.now) b).1 := by simp [cancelView, hb, clkOf_nil]
    have hav : (cancelView cfg.features (clkOf s.now []) { view s q with task := some c }).attr =
        some a := by simp [cancelView, hm, ha]
    refine .of_stopped hav hbv rfl rfl (ht.le ha hb) ?_ fun cpu hc => absurd hc (hoff' cpu)
    intro hy
    obtain ⟨hd, hleft⟩ := hok (hext c rfl) hk hs a ha b hb hy
    have := ht.left hnow ha hb hy hd
    rw [← hleft] at this
    simpa [Budget.left, rmsTimerGetRemain, rmsTimerCancel] using this

/-- `rms_running` sets the timer to when the budget will be used up. -/
theorem tally_running {s s' : St} {ran : Nat} {q : Pid} {t : Option Core}
    (hm : cfg.features.migration = false) (hnow : s.now < 2 ^ 64) (hnow' : s'.now = s.now)
    (ht : Tally s ran q (view s q))
    (hok : ∀ a ∈ (view s q).attr, ∀ b ∈ (view s q).budget,
      a.isYield = 0 ∧ ¬ Due (.ofNat s.now) b ∧ s.now + (left (.ofNat s.now) a b).toNat < 2 ^ 64) :
    Tally s' ran q (runningView cfg.features (clkOf s.now []) q { view s q with task := t }) := by
  rcases ha : (view s q).attr with _ | a
  · refine ⟨?_, ?_, ?_⟩ <;> intro a ha' <;> simp [runningView, ha] at ha'
  rcases hb : (view s q).budget with _ | b
  · exact .of_none (by simp [runningView, ha, hb])
  obtain ⟨hy, hd, hfit⟩ := hok a ha b hb
  have hleft := ht.left hnow ha hb hy hd
  have hexp : (UInt64.ofNat s.now + left (.ofNat s.now) a b).toNat =
      s.now + (left (.ofNat s.now) a b).toNat := by
    rw [UInt64.toNat_add, UInt64.toNat_ofNat_of_lt' hnow, Nat.mod_eq_of_lt hfit]
  have hv : runningView cfg.features (clkOf s.now []) q { view s q with task := t } =
      { view s q with
        task := t
        budget := some ⟨some (.ofNat s.now + left (.ofNat s.now) a b), 0,
          .ofNat s.now + left (.ofNat s.now) a b - .ofNat s.now, .ofNat s.now + left (.ofNat s.now) a b, 1,
          budgetCallback, q⟩ } := by
    simp only [runningView, ha, hb, hm, clkOf_nil, Bool.false_eq_true, false_and, if_false]
    rfl
  rw [hv]
  refine .of_armed ha rfl rfl (by simp) rfl ?_ ?_
  · rw [hexp, hnow']
    omega
  · rw [hexp, hnow']
    omega

theorem releases_eq (s : St) (q : Pid) : releases s q =
    ((view s q).task.any (·.policy = schedExt) && (view s q).attr.isSome && (view s q).budget.isSome) := by
  simp only [releases, view, Option.any_map]
  rfl

/-- A release starts the account again. -/
theorem tally_period {s s' : St} {ran : Nat} {q : Pid} {v' : View} (hf : Frame q s s')
    (ht : Tally s ran q (view s q))
    (hok : ∀ a ∈ (view s q).attr, ∀ b ∈ (view s q).budget,
      b.pending = 0 ∨ b.expireTime.toNat = s.now + a.budget.toNat)
    (h : PeriodStep (view s q) v') : Tally s' (if releases s q then 0 else ran) q v' := by
  have hrel := releases_eq s q
  generalize view s q = v at ht hok h hrel
  cases h with
  | @release c a b p hc hpol ha hb hp =>
    rw [hrel, hc, ha, hb, if_pos (by simp [hpol])]
    rcases hbt : b.t with _ | e
    · refine .of_stopped rfl rfl hbt (ht.idle a ha b hb hbt).1 (Nat.zero_le _) (fun _ => by simp) ?_
      intro cpu hcpu
      obtain ⟨h1, h2⟩ := hf.curr cpu hcpu
      exact h2 (ht.leaving a ha b hb hbt cpu h1)
    · obtain ⟨h1, h2, h3, h4⟩ := ht.armed a ha b hb e hbt
      have h5 := (hok a ha b hb).resolve_left h1
      rw [h2] at h5
      refine .of_armed rfl rfl hbt h1 h2 (hf.now ▸ h3) ?_
      rw [hf.now]
      simp only
      omega
  | exit hp hno =>
    have hfalse : releases s q = false := by
      rw [hrel]
      rcases hc : v.task with _ | c
      · rfl
      by_cases hpol : c.policy = schedExt
      · rcases hno c hc hpol with hn | hn <;> simp [hn]
      · simp [hpol]
    rw [hfalse]
    exact ht.keep hf rfl rfl fun _ => rfl

theorem tally_yield {s s' : St} {ran ran' : Nat} {q : Pid} {v : View} (clk : Nat → UInt64)
    (hf : Frame q s s') (ht : Tally s ran q v) (hr : v.budget ≠ none → ran' = ran)
    (hleave : ∀ a ∈ v.attr, ∀ c, s'.curr c = some q → c ∈ s'.resched) :
    Tally s' ran' q (yieldView clk v) := by
  unfold yieldView
  split
  · rename_i b a hb ha
    split
    · obtain rfl := hr (by simp [hb])
      have hle := ht.le ha hb
      exact .of_stopped rfl rfl rfl rfl hle (fun h => absurd h (by simp)) (hleave a ha)
    · exact ht.keep hf rfl rfl hr
  · exact ht.keep hf rfl rfl hr

theorem tally_budgetExpiry {s s' : St} {ran ran' : Nat} {q k : Pid} {v v' : View}
    (ho : cfg.features.budgetOverrun = false) (hf : Frame q s s') (hs : Sane q v) (ht : Tally s ran q v)
    (hr : v.budget ≠ none → ran' = ran)
    (hleave : q = k → ∀ a ∈ v.attr, ∀ c, s'.curr c = some q → c ∈ s'.resched)
    (h : BudgetStep cfg.features k q v v') : Tally s' ran' q v' := by
  cases h with
  | other _ => exact ht.keep hf rfl rfl hr
  | noAttr _ ha hb => exact absurd ha (hs.attr (.inl (by simp [hb])))
  | @spent a b hk ha hb _ =>
    obtain rfl := hr (by simp [hb])
    have hle := ht.le ha hb
    refine .of_stopped rfl rfl rfl rfl hle (fun h => absurd h ?_) (hleave hk a ha)
    by_cases hy : a.isYield = 0
    · simp [hy]
    · simp [hy]
  | overrun hov _ _ => rw [ho] at hov; cases hov

/-- The tasks a handler stops: their CPU is told to reschedule. -/
def Ev.halts (q : Pid) : Ev → Prop
  | .yield pid _ => pid = q
  | .budgetExpiry pid _ _ => pid = q
  | _ => False

theorem mem_kickCpu {cpu : Cpu} {s : St} (h : (kickCpu cpu s).curr cpu ≠ none) :
    cpu ∈ (kickCpu cpu s).resched := by
  unfold kickCpu at *
  split at h
  · rename_i hs
    rw [if_pos hs]
    exact Finset.mem_insert_self _ _
  · rename_i hs
    exact absurd (Option.isSome_iff_ne_none.mpr h) hs

theorem halts_act (ho : cfg.features.budgetOverrun = false) {e : Ev} {m : Meter} {s' : St} {q : Pid}
    (hb : Base m.s) (hp : Placed m.s) (hok : Accounted e m) (he : Ev.halts q e)
    (h : act cfg e m.s = some s') {a : TaskAttr} (ha : a ∈ (view m.s q).attr) {c : Cpu}
    (hc : s'.curr c = some q) : c ∈ s'.resched := by
  have hcpu : ∀ {t}, m.s.curr c = some q → m.s.tasks q = some t → t.pos = .on ∧ t.cpu = c := by
    intro t hcur ht
    simpa [placeOf, ht] using (hp.running c q).mp hcur
  cases e with
  | yield pid lags =>
    obtain rfl : pid = q := he
    obtain ⟨t, ht, -, rfl⟩ := onTask_eq_some.mp h
    have hcalm := calm_mapsOnly (rmsYield_maps cfg.userschedPid (clkOf m.s.now lags) pid t
      { m.s with resched := insert t.cpu m.s.resched })
    obtain ⟨-, rfl⟩ := hcpu ((congrFun hcalm.curr c).symm.trans hc) ht
    exact hcalm.resched (Finset.mem_insert_self _ _)
  | budgetExpiry pid cpu lags =>
    obtain rfl : pid = q := he
    obtain ⟨b, hbud, hexp, rfl⟩ := act_budgetExpiry h
    have hv := congrFun (view_fireBudget hbud) pid
    rw [Function.update_self] at hv
    have harg := ((hb.2 pid).budget b hbud).1 (armed_of_expired hexp)
    have hcur := calm_callbackBudget ho (clkOf m.s.now lags) pid cpu (fireBudget pid m.s)
    have hcur' : m.s.curr c = some pid := (congrFun hcur.curr c).symm.trans hc
    obtain ⟨t, ht⟩ : ∃ t, m.s.tasks pid = some t := by
      have := (hp.running c pid).mp hcur'
      rcases ht : m.s.tasks pid with _ | t
      · simp [placeOf, ht] at this
      · exact ⟨t, rfl⟩
    -- the CPU that is kicked is the task's own
    obtain ⟨hon, rfl⟩ := hcpu hcur' ht
    have hkick : t.cpu = a.cpu := hok a ha t ht hon
    rw [rmsCallbackBudget_some (b := { b with t := none }) (a := a) (by rw [hv]) harg
      (by rw [hv]; exact ha), hkick] at hc ⊢
    exact mem_kickCpu fun hn => by cases hn.symm.trans hc
  | _ => exact he.elim

/-- While time passes a task whose timer runs is on its CPU, and only such tasks are. -/
theorem tally_tick {m : Meter} {d : Nat} {s' : St} {q : Pid} (hp : Placed m.s)
    (ht : Tally m.s (m.ran q) q (view m.s q)) (hok : Accounted (.tick d) m) (hpr : Prompt (.tick d) m)
    (h : act cfg (.tick d) m.s = some s') :
    Tally s' ((meter (.tick d) m s').ran q) q (view s' q) := by
  simp only [act, Option.ite_none_right_eq_some, Option.some.injEq] at h
  obtain ⟨-, rfl⟩ := h
  obtain ⟨hres, hnb, -⟩ := hpr
  refine ⟨?_, ?_, fun a ha b hb hn c hc => ht.leaving a ha b hb hn c hc⟩
  · intro a ha b hb e he
    obtain ⟨h1, h2, h3, h4⟩ := ht.armed a ha b hb e he
    have hkey : q ∈ m.s.maps.budgetTimer.keys := BoundedMap.mem_keys.mpr ⟨b, hb⟩
    have hle := hnb q hkey b hb e he
    have hran : (meter (.tick d) m { m.s with now := m.s.now + d }).ran q = m.ran q + d := by
      rcases hok q hkey b hb (by rw [Option.mem_def.mp he]; simp) with rfl | hon
      · simp [meter]
      · simp [meter, hon]
    rw [hran]
    exact ⟨h1, h2, hle, by simp only; omega⟩
  · intro a ha b hb hn
    have hran : (meter (.tick d) m { m.s with now := m.s.now + d }).ran q = m.ran q := by
      apply if_neg
      intro hon
      obtain ⟨t, htk, hpos⟩ := Option.map_eq_some_iff.mp hon
      have hc := (hp.running t.cpu q).mpr (by simp [placeOf, htk, hpos])
      have := ht.leaving a ha b hb hn t.cpu hc
      rw [hres] at this
      exact absurd this (Finset.notMem_empty _)
    rw [hran]
    exact ht.idle a ha b hb hn

theorem lags_of_prompt {e : Ev} {m : Meter} (h : Prompt e m) (ht : ∀ d, e ≠ .tick d) : Ev.lags e = [] := by
  cases e with
  | tick d => exact absurd rfl (ht d)
  | _ => exact h

theorem tally_step (hm : cfg.features.migration = false) (ho : cfg.features.budgetOverrun = false)
    {m : Meter} {e : Ev} {s' : St} (q : Pid) (hnow : m.s.now < 2 ^ 64) (hb : Base m.s) (hp : Placed m.s)
    (ht : Tally m.s (m.ran q) q (view m.s q)) (hok : Accounted e m) (hpr : Prompt e m)
    (h : act cfg e m.s = some s') :
    Tally s' ((meter e m s').ran q) q (view s' q) := by
  by_cases htick : ∃ d, e = .tick d
  · obtain ⟨d, rfl⟩ := htick
    exact tally_tick hp ht hok hpr h
  have hlags := lags_of_prompt hpr fun d hd => htick ⟨d, hd⟩
  have hfr := fun hrun => frame_act ho (q := q) hlags (fun d hd => htick ⟨d, hd⟩) hrun h
  have hr : (∀ lags, e ≠ .periodExpiry q lags) → (view m.s q).budget ≠ none →
      (meter e m s').ran q = m.ran q := by
    intro hper hbud
    cases e with
    | tick d => exact absurd ⟨d, rfl⟩ htick
    | periodExpiry pid lags =>
      have hne : q ≠ pid := fun heq => hper lags (heq ▸ rfl)
      simp [meter, hne]
    | _ => exact if_neg fun hc => hbud hc.1
  have hhalt : Ev.halts q e → ∀ a ∈ (view m.s q).attr, ∀ c, s'.curr c = some q → c ∈ s'.resched :=
    fun he a ha c hc => halts_act ho hb hp hok he h ha hc
  cases (act_effect hb h).2 q with
  | dispatch hd =>
    cases hd with
    | same hv _ => rw [hv]; exact ht.keep (hfr (by simp)) rfl rfl (hr (by simp))
    | restart hmig => rw [hm] at hmig; cases hmig
  | other _ hv =>
    generalize hv' : view s' q = v' at hv
    have hnew : (∀ d, e ≠ .tick d) → (∀ pid lags, e ≠ .periodExpiry pid lags) →
        (view m.s q).budget = none → v'.budget ≠ none → (meter e m s').ran q = 0 := by
      intro h1 h2 h3 h4
      rw [← hv'] at h4
      cases e with
      | tick d => exact absurd rfl (h1 d)
      | periodExpiry pid lags => exact absurd rfl (h2 pid lags)
      | _ => exact if_pos ⟨h3, h4⟩
    cases hv with
    | same hnd => exact ht.keep (hfr fun l hl => hnd (hl ▸ rfl)) rfl rfl (hr fun l hl => hnd (hl ▸ rfl))
    | fork | repolicy | die => exact ht.keep (hfr (by simp)) rfl rfl (hr (by simp))
    | register => exact .of_none hok
    | @enter _ _ _ c hc _ ho' hne hcm =>
      obtain rfl : _ = [] := hlags
      obtain ⟨t, htk, rfl⟩ := Option.map_eq_some_iff.mp hc
      exact tally_cpumask (c := { core t with policy := schedExt }) hm hnow (hfr (by simp))
        (off_curr hp hc ho') ht
        (hr (by simp)) (hnew (by simp) (by simp)) (hok t htk hne) hcm
    | reap =>
      split
      · exact .of_none rfl
      · exact ht.keep (hfr (by simp)) rfl rfl (hr (by simp))
    | running =>
      obtain rfl : _ = [] := hlags
      by_cases hbud : (view m.s q).budget = none
      · exact .of_none (by simp [runningView, hbud])
      · rw [hr (by simp) hbud]
        exact tally_running hm hnow (now_running h) ht hok
    | stopping =>
      unfold stoppingView
      split
      · exact .of_none rfl
      · exact ht.keep (hfr (by simp)) rfl rfl (hr (by simp))
    | yield => exact tally_yield _ (hfr (by simp)) ht (hr (by simp)) (hhalt rfl)
    | @setCpumask mask _ _ _ c hc _ ho' hcm =>
      obtain rfl : _ = [] := hlags
      obtain ⟨t, htk, rfl⟩ := Option.map_eq_some_iff.mp hc
      exact tally_cpumask (c := { core t with cpusPtr := mask }) hm hnow (hfr (by simp))
        (off_curr hp hc ho') ht
        (hr (by simp)) (hnew (by simp) (by simp)) (hok t htk) hcm
    | budgetExpiry _ hbs =>
      exact tally_budgetExpiry ho (hfr (by simp)) (hb.2 q) ht (hr (by simp)) (fun hk => hhalt hk.symm) hbs
    | periodExpiry _ hps => simpa [meter] using tally_period (hfr (by simp)) ht hok hps

/-! ## The law -/

structure Inv (m : Meter) : Prop where
  base : Base m.s
  placed : Placed m.s
  clock : m.s.now < 2 ^ 64
  tally : ∀ q, Tally m.s (m.ran q) q (view m.s q)

theorem minit_inv : Inv minit :=
  ⟨base_init, placed_init, by simp [minit, init], fun _ => .of_none (by simp [view, minit, init, Maps.empty])⟩

theorem mstep_inv (hm : cfg.features.migration = false) (ho : cfg.features.budgetOverrun = false)
    {e : Ev} {m m' : Meter} (hi : Inv m) (hpr : Prompt e m) (hok : Accounted e m)
    (h : mstep cfg e m = some m') : Inv m' := by
  obtain ⟨s', hs, rfl⟩ := Option.map_eq_some_iff.mp h
  have hact := (act_of_step hs).2
  refine ⟨base_step hi.base hs, placed_step hi.base hi.placed hs, ?_,
    fun q => tally_step hm ho q hi.clock hi.base hi.placed (hi.tally q) hok hpr hact⟩
  show s'.now < 2 ^ 64
  by_cases htick : ∃ d, e = .tick d
  · obtain ⟨d, rfl⟩ := htick
    simp only [act, Option.ite_none_right_eq_some, Option.some.injEq] at hact
    obtain ⟨hlt, rfl⟩ := hact
    exact hlt
  · have hlags := lags_of_prompt hpr fun d hd => htick ⟨d, hd⟩
    by_cases hrun : ∃ pid lags, e = .running pid lags
    · obtain ⟨pid, lags, rfl⟩ := hrun
      obtain rfl : lags = [] := hlags
      exact (now_running hact).trans_lt hi.clock
    · have hf := frame_act ho (q := 0) hlags (fun d hd => htick ⟨d, hd⟩) (fun l hl => hrun ⟨0, l, hl⟩) hact
      exact hf.now.trans_lt hi.clock

/-- Where every handler finds in the budget timer what it should, no task runs for more
    than its budget between two releases, and one that is parked has run for all of it. -/
theorem exact (hm : cfg.features.migration = false) (ho : cfg.features.budgetOverrun = false) {m : Meter}
    (h : Run (mstep cfg) (fun e m => Prompt e m ∧ Accounted e m) minit m) : Exact cfg m := by
  have hi := h.inv minit_inv fun _ _ _ hi hok hs => mstep_inv hm ho hi hok.1 hok.2 hs
  constructor
  · intro pid a ha hb
    obtain ⟨b, hb⟩ := Option.ne_none_iff_exists'.mp hb
    exact (hi.tally pid).le ha hb
  · intro pid cpu lags hact a ha hy
    obtain ⟨s', hs⟩ := Option.isSome_iff_exists.mp hact
    obtain ⟨b, hb, ⟨-, e, he, hle⟩, -⟩ := act_budgetExpiry hs
    obtain ⟨-, -, h1, h2⟩ := (hi.tally pid).armed a ha b hb e he
    omega

/-- Task 7 registers on CPU 3 with a budget of 5 and a period of 10, is released and runs. -/
def released : List Ev :=
  enrolled 7 5 10 ++ [.tick 10, .periodExpiry 7 [], .enqueue 7 3, .dispatch 3 [], .running 7 []]

theorem exact_of_five :
    ∃ m, Run (mstep (config false)) (fun e m => Prompt e m ∧ Accounted e m) minit m ∧ m.ran 7 = 5 ∧
      (act (config false) (.budgetExpiry 7 3 []) m.s).isSome ∧ Exact (config false) m := by
  obtain ⟨m, hr, hm⟩ := run_of_execIf_any (mstep (config false)) (fun e m => Prompt e m ∧ Accounted e m) minit
    (released ++ [.tick 2, .stopping 7 true [], .enqueue 7 3, .dispatch 3 [], .running 7 [], .tick 3])
    (fun m => decide (m.ran 7 = 5 ∧ (act (config false) (.budgetExpiry 7 3 []) m.s).isSome))
    (by decide +kernel)
  obtain ⟨h1, h2⟩ := of_decide_eq_true hm
  exact ⟨m, hr, h1, h2, exact rfl rfl hr⟩

/-- Task 8 preempts task 7 for 2 ns. The budget timer of task 7 goes on: it fires when the
    task has run for 3 of its 5. -/
theorem a_preempted_task_is_charged_for_waiting :
    ∃ m, Run (mstep (config false)) Prompt minit m ∧ ¬ Exact (config false) m := by
  obtain ⟨m, hr, hm⟩ := run_of_execIf_any (mstep (config false)) Prompt minit
    (released ++ [.tick 2] ++ enrolled 8 2 6 ++ [.enqueue 8 0, .stopping 7 true [], .enqueue 7 3,
      .dispatch 3 [], .running 8 [], .tick 2, .budgetExpiry 8 3 [], .stopping 8 true [], .enqueue 8 3,
      .dispatch 3 [], .running 7 [], .tick 1])
    (fun m => decide (m.ran 7 = 3 ∧ (act (config false) (.budgetExpiry 7 3 []) m.s).isSome ∧
      (m.s.maps.taskAttr.lookup 7).any fun a => a.isYield = 0 ∧ a.budget = 5)) (by decide +kernel)
  obtain ⟨h1, h2, h3⟩ := of_decide_eq_true hm
  obtain ⟨a, ha, hab⟩ := (Option.any_eq_true _ _).mp h3
  obtain ⟨hy, hb⟩ := of_decide_eq_true hab
  refine ⟨m, hr, ?_⟩
  intro h
  have := h.parked 7 3 [] h2 a ha hy
  rw [h1, hb] at this
  exact absurd this (by decide)

end Ksight.Rms.Budget

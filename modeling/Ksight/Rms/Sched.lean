/-
  Ksight.Rms.Sched — the callbacks of the scheduler
  (src/process/sched_ext_rms/bpf/scx_rms.bpf.c).

  The state is what the callbacks read and write: the tasks as the kernel has them, the
  per-task maps, the CPUs' ready queues, the dispatch queues (DSQs) and the CPUs' local
  queues. A callback is a function of the state; `clk i` is the clock reading at its i-th
  place. `error` is the first `scx_bpf_error`, which makes the kernel unload the
  scheduler.

  What the callbacks use of the kernel:
  - `scx_bpf_dsq_insert_vtime` queues a task that the BPF scheduler holds (`Pos.held`:
    enqueued, in no DSQ yet) and is ignored for any other;
  - a DSQ is in the order of vtime, and a move to a local queue takes its first task;
  - a kick makes the CPU reschedule if it runs a task of the scheduler;
  - `bpf_task_from_pid` finds a task until it is reaped.

  `p->scx.slice` is left out: a yield sets it to 0, which makes the CPU reschedule.
-/

import Mathlib.Data.Finset.Insert
import Mathlib.Data.List.Sort
import Ksight.Rms.Queue

namespace Ksight.Rms

open Ksight.Lib

structure Features where
  migration : Bool
  budgetOverrun : Bool

inductive Pos where
  /-- Not runnable, or in the kernel's hands between two callbacks. -/
  | off
  /-- Enqueued and left to the BPF scheduler. -/
  | held
  /-- In a DSQ or a local queue. -/
  | queued
  /-- Running on its CPU. -/
  | on
  deriving DecidableEq

structure Task where
  policy : Nat
  state : Nat
  cpusPtr : Finset Cpu
  cpu : Cpu
  pos : Pos
  deriving DecidableEq

/-- Where `scx_bpf_error` is called. -/
inductive Site where
  | callbackBudget
  | callbackPeriod
  | yield
  | setCpumask
  | cpuToDsq
  deriving DecidableEq

structure St where
  now : Nat
  tasks : Pid → Option Task
  maps : Maps
  cpuQueues : CpuQueues
  dsq : Nat → List (UInt64 × Pid)
  localDsq : Cpu → List Pid
  curr : Cpu → Option Pid
  /-- The CPUs that have been told to reschedule. -/
  resched : Finset Cpu
  error : Option Site

def init : St :=
  ⟨0, fun _ => none, .empty, fun _ => zeroQueue, fun _ => [], fun _ => [], fun _ => none, ∅, none⟩

/-! ## Kernel helpers -/

def scxError (site : Site) (s : St) : St := { s with error := s.error <|> some site }

def kickCpu (cpu : Cpu) (s : St) : St :=
  if (s.curr cpu).isSome then { s with resched := insert cpu s.resched } else s

def setTask (pid : Pid) (t : Task) (s : St) : St := { s with tasks := Function.update s.tasks pid (some t) }

def setAttr (pid : Pid) (f : TaskAttr → TaskAttr) (s : St) : St :=
  { s with maps := { s.maps with taskAttr := s.maps.taskAttr.modify pid f } }

def setBudget (pid : Pid) (f : RmsTimer → RmsTimer) (s : St) : St :=
  { s with maps := { s.maps with budgetTimer := s.maps.budgetTimer.modify pid f } }

def setSched (pid : Pid) (f : RmsTimer → RmsTimer) (s : St) : St :=
  { s with maps := { s.maps with schedTimer := s.maps.schedTimer.modify pid f } }

/-- Before the first entry with a larger vtime. -/
def insertVtime (x : UInt64 × Pid) (entries : List (UInt64 × Pid)) : List (UInt64 × Pid) :=
  entries.orderedInsert (fun x y => x.1 < y.1) x

/-- `scx_bpf_dsq_insert_vtime`. The limit on the inserts of one dispatch, `ops.dispatch_max_batch`
    (32 by default), is left out. -/
def dsqInsertVtime (dsqId : Nat) (vtime : UInt64) (pid : Pid) (s : St) : St :=
  match s.tasks pid with
  | some t =>
    if t.pos = .held then
      { setTask pid { t with pos := .queued } s with
        dsq := Function.update s.dsq dsqId (insertVtime (vtime, pid) (s.dsq dsqId)) }
    else s
  | none => s

/-- `scx_bpf_dsq_insert` into SCX_DSQ_LOCAL. -/
def dsqInsertLocal (pid : Pid) (s : St) : St :=
  match s.tasks pid with
  | some t =>
    if t.pos = .held then
      { setTask pid { t with pos := .queued } s with
        localDsq := Function.update s.localDsq t.cpu (s.localDsq t.cpu ++ [pid]) }
    else s
  | none => s

def dsqMoveToLocal (dsqId : Nat) (cpu : Cpu) (s : St) : St :=
  match s.dsq dsqId with
  | [] => s
  | (_, pid) :: rest =>
    { s with
      dsq := Function.update s.dsq dsqId rest
      localDsq := Function.update s.localDsq cpu (s.localDsq cpu ++ [pid])
      tasks := Function.update s.tasks pid ((s.tasks pid).map fun t => { t with cpu := cpu }) }

/-- The kernel takes a task out of the queue it is in. -/
def unqueue (pid : Pid) (s : St) : St :=
  { s with
    dsq := fun d => (s.dsq d).filter (·.2 ≠ pid)
    localDsq := fun c => (s.localDsq c).filter (· ≠ pid) }

/-! ## Timer callbacks -/

/-- FEATURE_BUDGET_OVERRUN: the task running on the CPU has its own budget stopped. -/
def overrun (ctx : TimerCtx) (clk : Nat → UInt64) (cpu : Cpu) (s : St) : St :=
  match s.curr cpu with
  | none => s
  | some current =>
    match (s.tasks current).filter (·.policy = schedExt), s.maps.budgetTimer.lookup current with
    | some _, some b =>
      let own := ctx == some (.budget, current)
      let s := if (rmsTimerCancel own (clk 0) b).2 ≠ 0 then scxError .callbackBudget s else s
      setBudget current (fun b => rmsTimerSetRemain (rmsTimerCancel own (clk 0) b).1 (clk 1) .abs) s
    | _, _ => s

/-- The timer of `key` in `budget_timer_hmap` has expired on `cpu`. -/
def rmsCallbackBudget (f : Features) (clk : Nat → UInt64) (key : Pid) (cpu : Cpu) (s : St) : St :=
  match s.maps.budgetTimer.lookup key with
  | none => s
  | some timer =>
    let pid := timer.arg
    match s.maps.taskAttr.lookup pid with
    | none => scxError .callbackBudget s
    | some attr =>
      let s := setBudget key (fun timer => { timer with remainTime := attr.budget }) s
      let s :=
        if attr.isYield = 0 then setAttr pid (fun a => { a with isYield := 1 }) s
        else if f.budgetOverrun then overrun (some (.budget, key)) clk cpu s
        else s
      let s := kickCpu attr.cpu s
      setBudget key (fun timer => refreshTimer { timer with pending := 0 }) s

/-- The timer of `key` in `sched_timer_hmap` has expired. -/
def rmsCallbackPeriod (clk : Nat → UInt64) (key : Pid) (s : St) : St :=
  match s.maps.schedTimer.lookup key with
  | none => s
  | some timer =>
    let pid := timer.arg
    let exited (s : St) : St := { s with maps := exitRmsTask (some (.sched, key)) clk pid s.maps }
    match s.tasks pid with
    | none => exited s
    | some t =>
      if t.policy ≠ schedExt then exited (scxError .callbackPeriod s)
      else
        match s.maps.taskAttr.lookup pid, s.maps.budgetTimer.lookup pid with
        | some attr, some _ =>
          let s := setAttr pid (fun a => { a with isYield := 0 }) s
          let s := { s with cpuQueues := (cpuQueuePush s.cpuQueues attr.cpu pid).2 }
          let s := kickCpu attr.cpu s
          let s := setBudget pid (fun b => { b with remainTime := attr.budget }) s
          setSched key (fun timer => refreshTimer { timer with pending := 0 }) s
        | _, _ => exited s

/-! ## The scheduler's operations -/

def sharedDsq : Nat := 32

def cpuToDsq (cpu : Cpu) : Nat := if hasQueue cpu then cpu.toNat else sharedDsq

/-- The error `cpu_to_dsq` reports. -/
def checkCpu (cpu : Cpu) (s : St) : St := if hasQueue cpu then s else scxError .cpuToDsq s

/-- `anyCpu` is what `scx_bpf_pick_any_cpu` picks. -/
def rmsSelectCpu (p : Task) (prevCpu anyCpu : Cpu) : Cpu := if prevCpu ∈ p.cpusPtr then prevCpu else anyCpu

def rmsEnqueue (userschedPid : Pid) (curCpu : Cpu) (pid : Pid) (p : Task) (s : St) : St :=
  if pid = userschedPid then dsqInsertLocal pid s
  else
    match s.maps.taskAttr.lookup pid with
    | none => s
    | some attr =>
      if attr.isYield = 0 then
        let s := dsqInsertVtime (cpuToDsq p.cpu) attr.period pid (checkCpu p.cpu s)
        if p.cpu ≠ curCpu then kickCpu p.cpu s else s
      else s

/-- FEATURE_MIGRATION: the period timer is started again with what remained of it. -/
def restartMigrated (clk : Nat → UInt64) (pid : Pid) (attr : TaskAttr) (s : St) : St :=
  let s := setAttr pid (fun a => { a with isMigrate := 0 }) s
  match s.maps.schedTimer.lookup pid with
  | none => s
  | some timer =>
    let remain := rmsTimerGetRemain (clk 0) timer
    let remain := if remain = 0 then attr.period else remain
    setSched pid (fun timer =>
      rmsTimerStart false (clk 2) (clk 3) timer (clk 1 + remain) attr.period periodCallback pid) s

/-- The result is whether the loop ends. Each iteration reads the clock four times. -/
def dispatchLoop (f : Features) (clk : Nat → UInt64) (cpu : Cpu) (index : Nat) (s : St) : Bool × St :=
  match cpuQueuePop s.cpuQueues cpu with
  | none => (true, s)
  | some (pid, queues) =>
    let s := { s with cpuQueues := queues }
    match s.tasks pid with
    | none => (true, s)
    | some _ =>
      match s.maps.taskAttr.lookup pid with
      | none => (true, s)
      | some attr =>
        let s :=
          if f.migration ∧ attr.isMigrate ≠ 0 then restartMigrated (fun i => clk (4 * index + i)) pid attr s
          else s
        (false, dsqInsertVtime (cpuToDsq cpu) attr.period pid (checkCpu cpu s))

/-- `bpf_loop`: `n` more iterations, the next one with index `i`. -/
def bpfLoop (callback : Nat → St → Bool × St) : Nat → Nat → St → St
  | 0, _, s => s
  | n + 1, i, s => if (callback i s).1 then (callback i s).2 else bpfLoop callback n (i + 1) (callback i s).2

def rmsDispatch (f : Features) (clk : Nat → UInt64) (cpu : Cpu) (s : St) : St :=
  dsqMoveToLocal (cpuToDsq cpu) cpu (checkCpu cpu (bpfLoop (dispatchLoop f clk cpu) maxTaskNr 0 s))

def rmsRunning (f : Features) (clk : Nat → UInt64) (pid : Pid) (s : St) : St :=
  match s.maps.taskAttr.lookup pid with
  | none => s
  | some attr =>
    if f.migration ∧ attr.isMigrate ≠ 0 then s
    else
      match s.maps.budgetTimer.lookup pid with
      | none => s
      | some b =>
        let remain := rmsTimerGetRemain (clk 0) b
        let remain := if remain = 0 then attr.budget else remain
        setBudget pid (fun b => rmsTimerStart false (clk 2) (clk 3) b (clk 1 + remain) 0 budgetCallback pid) s

def rmsStopping (clk : Nat → UInt64) (pid : Pid) (p : Task) (runnable : Bool) (s : St) : St :=
  if !runnable ∧ p.state = taskDead then { s with maps := exitRmsTask none clk pid s.maps } else s

def rmsYield (userschedPid : Pid) (clk : Nat → UInt64) (pid : Pid) (p : Task) (s : St) : St :=
  if pid = userschedPid then s
  else
    match s.maps.budgetTimer.lookup pid, s.maps.taskAttr.lookup pid with
    | some b, some _ =>
      if p.policy = schedExt then
        let s := setAttr pid (fun a => { a with isYield := 1 }) s
        let s := if (rmsTimerCancel false (clk 0) b).2 ≠ 0 then scxError .yield s else s
        setBudget pid (fun b => rmsTimerSetRemain (rmsTimerCancel false (clk 0) b).1 (clk 1) .abs) s
      else s
    | _, _ => s

/-- The first `set_cpumask` of a registered task makes its timers and starts its period. -/
def firstInit (clk : Nat → UInt64) (pid : Pid) (attr : TaskAttr) (s : St) : St :=
  let budget := (s.maps.budgetTimer.updateNoExist pid emptyTimer).getD s.maps.budgetTimer
  let sched := (s.maps.schedTimer.updateNoExist pid emptyTimer).getD s.maps.schedTimer
  let s := { s with maps := { s.maps with budgetTimer := budget, schedTimer := sched } }
  let s := setBudget pid (fun b => { rmsTimerInit b with remainTime := attr.budget }) s
  setSched pid (fun p =>
    rmsTimerStart false (clk 1) (clk 1) (rmsTimerInit p)
      (clk 0 + attr.period) attr.period periodCallback pid) s

def rmsSetCpumask (f : Features) (userschedPid : Pid) (clk : Nat → UInt64) (pid : Pid) (p : Task)
    (cpumask : Finset Cpu) (s : St) : St :=
  if pid = userschedPid then s
  else if p.policy ≠ schedExt then s
  else
    match s.maps.budgetTimer.lookup pid, s.maps.schedTimer.lookup pid, s.maps.taskAttr.lookup pid with
    | none, none, some attr => firstInit clk pid attr s
    | some b, some ps, some _ =>
      if p.cpu ∈ cpumask then s
      else
        let s := if (rmsTimerCancel false (clk 0) ps).2 ≠ 0 then scxError .setCpumask s else s
        let s := setSched pid (fun ps => (rmsTimerCancel false (clk 0) ps).1) s
        let s := if (rmsTimerCancel false (clk 1) b).2 ≠ 0 then scxError .setCpumask s else s
        let s := setBudget pid (fun b => (rmsTimerCancel false (clk 1) b).1) s
        if f.migration then setAttr pid (fun a => { a with isMigrate := 1 }) s else s
    | _, _, _ => s

def rmsDisable (clk : Nat → UInt64) (pid : Pid) (p : Task) (s : St) : St :=
  if p.policy = schedExt then { s with maps := exitRmsTask none clk pid s.maps } else s

/-! ## What a callback leaves alone -/

/-- Nothing but the maps differs. -/
def MapsOnly (s s' : St) : Prop := s' = { s with maps := s'.maps }

theorem MapsOnly.cpuQueues {s s' : St} (h : MapsOnly s s') : s'.cpuQueues = s.cpuQueues := by rw [h]

theorem MapsOnly.error {s s' : St} (h : MapsOnly s s') : s'.error = s.error := by rw [h]

theorem rmsRunning_maps (f : Features) (clk : Nat → UInt64) (pid : Pid) (s : St) :
    MapsOnly s (rmsRunning f clk pid s) := by
  unfold rmsRunning
  split
  · rfl
  · split
    · rfl
    · split <;> rfl

theorem rmsStopping_maps (clk : Nat → UInt64) (pid : Pid) (p : Task) (runnable : Bool) (s : St) :
    MapsOnly s (rmsStopping clk pid p runnable s) := by
  unfold rmsStopping; split <;> rfl

theorem rmsYield_maps (u : Pid) (clk : Nat → UInt64) (pid : Pid) (p : Task) (s : St) :
    MapsOnly s (rmsYield u clk pid p s) := by
  unfold rmsYield
  split
  · rfl
  · split
    · split
      · simp only [rmsTimerCancel_free, ne_eq, not_true_eq_false, if_false]; rfl
      · rfl
    · rfl

theorem rmsSetCpumask_maps (f : Features) (u : Pid) (clk : Nat → UInt64) (pid : Pid) (p : Task)
    (cpumask : Finset Cpu) (s : St) : MapsOnly s (rmsSetCpumask f u clk pid p cpumask s) := by
  unfold rmsSetCpumask
  split
  · rfl
  split
  · rfl
  split
  · rfl
  · split
    · rfl
    · simp only [rmsTimerCancel_free, ne_eq, not_true_eq_false, if_false]
      cases f.migration <;> rfl
  · rfl

theorem rmsDisable_maps (clk : Nat → UInt64) (pid : Pid) (p : Task) (s : St) :
    MapsOnly s (rmsDisable clk pid p s) := by
  unfold rmsDisable; split <;> rfl

theorem restartMigrated_maps (clk : Nat → UInt64) (pid : Pid) (a : TaskAttr) (s : St) :
    MapsOnly s (restartMigrated clk pid a s) := by
  unfold restartMigrated
  simp only
  split <;> rfl

/-- No task, DSQ or CPU differs. -/
structure Quiet (s s' : St) : Prop where
  now : s'.now = s.now
  tasks : s'.tasks = s.tasks
  dsq : s'.dsq = s.dsq
  localDsq : s'.localDsq = s.localDsq
  curr : s'.curr = s.curr

theorem Quiet.refl (s : St) : Quiet s s := ⟨rfl, rfl, rfl, rfl, rfl⟩

theorem Quiet.trans {s₁ s₂ s₃ : St} (h : Quiet s₁ s₂) (h' : Quiet s₂ s₃) : Quiet s₁ s₃ :=
  ⟨h'.now.trans h.now, h'.tasks.trans h.tasks, h'.dsq.trans h.dsq, h'.localDsq.trans h.localDsq,
    h'.curr.trans h.curr⟩

theorem setBudget_quiet (pid : Pid) (f : RmsTimer → RmsTimer) (s : St) : Quiet s (setBudget pid f s) :=
  ⟨rfl, rfl, rfl, rfl, rfl⟩

theorem setSched_quiet (pid : Pid) (f : RmsTimer → RmsTimer) (s : St) : Quiet s (setSched pid f s) :=
  ⟨rfl, rfl, rfl, rfl, rfl⟩

theorem MapsOnly.quiet {s s' : St} (h : MapsOnly s s') : Quiet s s' := by
  rw [h]; exact ⟨rfl, rfl, rfl, rfl, rfl⟩

theorem kickCpu_quiet (cpu : Cpu) (s : St) : Quiet s (kickCpu cpu s) := by
  unfold kickCpu; split <;> exact ⟨rfl, rfl, rfl, rfl, rfl⟩

theorem checkCpu_quiet (cpu : Cpu) (s : St) : Quiet s (checkCpu cpu s) := by
  unfold checkCpu; split <;> exact ⟨rfl, rfl, rfl, rfl, rfl⟩

/-- Nothing but the maps, the CPUs to reschedule and the error differs. -/
def TimerOnly (s s' : St) : Prop := s' = { s with maps := s'.maps, resched := s'.resched, error := s'.error }

theorem overrun_timer (ctx : TimerCtx) (clk : Nat → UInt64) (cpu : Cpu) (s : St) :
    TimerOnly s (overrun ctx clk cpu s) := by
  unfold overrun
  split
  · rfl
  · split
    · simp only; split <;> rfl
    · rfl

theorem rmsCallbackBudget_timer (f : Features) (clk : Nat → UInt64) (key : Pid) (cpu : Cpu) (s : St) :
    TimerOnly s (rmsCallbackBudget f clk key cpu s) := by
  have hkick : ∀ c s₁, TimerOnly s s₁ → TimerOnly s (kickCpu c s₁) := by
    intro c s₁ h
    unfold kickCpu
    split
    · rw [h]; rfl
    · exact h
  unfold rmsCallbackBudget
  split
  · rfl
  simp only
  split
  · rfl
  · refine (show ∀ s₁, TimerOnly s s₁ → TimerOnly s (setBudget key _ s₁) from fun s₁ h => ?_) _ (hkick _ _ ?_)
    · rw [h]; rfl
    · split
      · rfl
      · split
        · rename_i attr _ _ _
          have h := overrun_timer (some (.budget, key)) clk cpu
            (setBudget key (fun timer => { timer with remainTime := attr.budget }) s)
          rw [h]; rfl
        · rfl

theorem rmsCallbackBudget_quiet (f : Features) (clk : Nat → UInt64) (key : Pid) (cpu : Cpu) (s : St) :
    Quiet s (rmsCallbackBudget f clk key cpu s) := by
  rw [rmsCallbackBudget_timer]; exact ⟨rfl, rfl, rfl, rfl, rfl⟩

theorem rmsCallbackPeriod_quiet (clk : Nat → UInt64) (key : Pid) (s : St) :
    Quiet s (rmsCallbackPeriod clk key s) := by
  unfold rmsCallbackPeriod
  split
  · exact .refl s
  simp only
  split
  · exact ⟨rfl, rfl, rfl, rfl, rfl⟩
  · split
    · exact ⟨rfl, rfl, rfl, rfl, rfl⟩
    · split
      · refine .trans (.trans (.trans ?_ (kickCpu_quiet _ _)) (setBudget_quiet _ _ _)) (setSched_quiet _ _ _)
        exact ⟨rfl, rfl, rfl, rfl, rfl⟩
      · exact ⟨rfl, rfl, rfl, rfl, rfl⟩

end Ksight.Rms

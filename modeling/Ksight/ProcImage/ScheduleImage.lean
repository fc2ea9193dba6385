/-
  Ksight.ProcImage.ScheduleImage — the probes on the scheduler
  (src/process/proc_image/bpf/schedule_image.bpf.c).

  `proc_schedule` has an entry for a task, and one for the idle task of each CPU. A
  handler that sees a task become runnable sets the `enter_time` of its entry
  (`noteRunnable`); a switch adds the time since then to the entry of the task that comes
  in, if it has one (`delayOf`, `addDelay`). The last section says what each handler does to the `enter_time`
  of an entry.
-/

import Ksight.Lib.BoundedMap

namespace Ksight.ProcImage.ScheduleImage

open Ksight.Lib

structure ProcId where
  pid : Int32
  cpuId : Int32
  deriving DecidableEq

structure ScheduleEvent where
  pid : Int32
  prio : Int32
  count : Int32
  enterTime : UInt64
  sumDelay : UInt64
  maxDelay : UInt64
  minDelay : UInt64
  deriving DecidableEq

structure SumSchedule where
  sumCount : UInt64
  sumDelay : UInt64
  maxDelay : UInt64
  minDelay : UInt64
  deriving DecidableEq

/-- The constants that proc_image sets before it loads the probes. -/
structure Config where
  targetPid : Int32
  targetCpuId : Int32
  targetTgid : Int32

def Config.default : Config := ⟨-1, -1, -1⟩

def maxEntries : Nat := 10240

/-- `targetSchedule` and `sysSchedule` are arrays of one element, which a lookup always
    finds. -/
structure Maps where
  procSchedule : BoundedMap ProcId ScheduleEvent maxEntries
  targetSchedule : ScheduleEvent
  enableAdd : BoundedMap ProcId Bool maxEntries
  tgSchedule : BoundedMap Int32 ScheduleEvent 1024
  sysSchedule : SumSchedule

def Maps.empty : Maps := ⟨.empty, ⟨0, 0, 0, 0, 0, 0, 0⟩, .empty, .empty, ⟨0, 0, 0, 0⟩⟩

def procId (pid cpu : Int32) : ProcId := ⟨pid, if pid = 0 then cpu else 0⟩

/-- The part that three handlers share. The count of a new entry is 1, and `enableAdd`
    keeps the first delay from counting again. -/
def noteRunnable (pd : ProcId) (currentTime : UInt64) (m : Maps) : Maps :=
  match m.procSchedule.lookup pd with
  | none =>
    { m with
      enableAdd := (m.enableAdd.update pd false).getD m.enableAdd
      procSchedule := (m.procSchedule.update pd ⟨pd.pid, 0, 1, currentTime, 0, 0, 0⟩).getD m.procSchedule }
  | some _ => { m with procSchedule := m.procSchedule.modify pd fun e => { e with enterTime := currentTime } }

def schedWakeup (pid cpu : Int32) (currentTime : UInt64) : Maps → Maps := noteRunnable (procId pid cpu) currentTime

def schedWakeupNew (pid cpu : Int32) (currentTime : UInt64) : Maps → Maps := noteRunnable (procId pid cpu) currentTime

/-- A context switch as its tracepoint sees it. -/
structure Switch where
  preempt : Bool
  prevPid : Int32
  prevState : UInt32
  nextPid : Int32
  nextTgid : Int32
  nextPrio : Int32
  cpu : Int32
  currentTime : UInt64

def taskRunning : UInt32 := 0

def Switch.prev (s : Switch) : ProcId := procId s.prevPid s.cpu

def Switch.next (s : Switch) : ProcId := procId s.nextPid s.cpu

def notePrev (s : Switch) (m : Maps) : Maps :=
  if s.prevState = taskRunning then noteRunnable s.prev s.currentTime m else m

/-- The `this_delay` of a switch; `none` where the handler returns before it. -/
def delayOf (s : Switch) (m : Maps) : Option UInt64 :=
  match m.procSchedule.lookup s.next, m.enableAdd.lookup s.next with
  | some e, some _ => some (s.currentTime - e.enterTime)
  | _, _ => none

def maxOf (max delay : UInt64) : UInt64 := if delay > max then delay else max

/-- A minimum of 0 stands for none. -/
def minOf (min delay : UInt64) : UInt64 := if min = 0 ∨ delay < min then delay else min

def ScheduleEvent.add (e : ScheduleEvent) (count : Bool) (prio : Int32) (delay : UInt64) : ScheduleEvent :=
  { e with
    count := if count then e.count + 1 else e.count
    prio := prio
    sumDelay := e.sumDelay + delay
    maxDelay := maxOf e.maxDelay delay
    minDelay := minOf e.minDelay delay }

def SumSchedule.add (s : SumSchedule) (delay : UInt64) : SumSchedule :=
  ⟨s.sumCount + 1, s.sumDelay + delay, maxOf s.maxDelay delay, minOf s.minDelay delay⟩

/-- The task that `-p` names; a pid of 0 is the idle task of one CPU. -/
def Config.isTarget (c : Config) (pid cpu : Int32) : Bool :=
  c.targetPid ≠ -1 && ((c.targetPid ≠ 0 && pid = c.targetPid) ||
    (c.targetPid = 0 && pid = c.targetPid && cpu = c.targetCpuId))

variable (c : Config)

def addDelay (s : Switch) (delay : UInt64) (m : Maps) : Maps :=
  match m.procSchedule.lookup s.next, m.enableAdd.lookup s.next with
  | some e, some eAdd =>
    let e := e.add eAdd s.nextPrio delay
    { procSchedule := m.procSchedule.modify s.next fun _ => e
      enableAdd := m.enableAdd.modify s.next fun _ => true
      targetSchedule := if c.isTarget s.nextPid s.cpu then e else m.targetSchedule
      tgSchedule :=
        if s.nextTgid = c.targetTgid then (m.tgSchedule.update s.nextPid e).getD m.tgSchedule else m.tgSchedule
      sysSchedule := m.sysSchedule.add delay }
  | _, _ => m

def schedSwitch (s : Switch) (m : Maps) : Maps :=
  let m := notePrev s m
  match delayOf s m with
  | none => m
  | some delay => addDelay c s delay m

/-- The exit of the task `pid` of the group `tgid`; a count of 0 tells the user side that
    the target is gone. -/
def schedProcessExit (pid tgid cpu : Int32) (m : Maps) : Maps :=
  { m with
    procSchedule := m.procSchedule.delete (procId pid cpu)
    enableAdd := m.enableAdd.delete (procId pid cpu)
    targetSchedule := if c.isTarget pid cpu then { m.targetSchedule with count := 0 } else m.targetSchedule
    tgSchedule := if tgid = c.targetTgid then m.tgSchedule.delete pid else m.tgSchedule }

/-! ## The time of an entry -/

def Maps.enterTime (m : Maps) (pd : ProcId) : Option UInt64 := (m.procSchedule.lookup pd).map ScheduleEvent.enterTime

theorem noteRunnable_enterTime {m : Maps} {pd : ProcId} (h : m.procSchedule.HasRoom pd) (currentTime : UInt64)
    (k : ProcId) :
    (noteRunnable pd currentTime m).enterTime k = if k = pd then some currentTime else m.enterTime k := by
  unfold noteRunnable Maps.enterTime
  rcases hl : m.procSchedule.lookup pd with _ | e
  · simp only [BoundedMap.lookup_getD_update_room h]
    split <;> rfl
  · simp only [BoundedMap.lookup_modify, hl, Option.map_some]
    split <;> rfl

theorem notePrev_enterTime {s : Switch} {m : Maps} (h : m.procSchedule.HasRoom s.prev) (k : ProcId) :
    (notePrev s m).enterTime k =
      if s.prevState = taskRunning ∧ k = s.prev then some s.currentTime else m.enterTime k := by
  unfold notePrev
  by_cases hs : s.prevState = taskRunning
  · simp only [hs, if_true, true_and]
    exact noteRunnable_enterTime h s.currentTime k
  · simp only [hs, if_false, false_and]

/-- A delay changes no entry's time. -/
theorem addDelay_enterTime (s : Switch) (delay : UInt64) (m : Maps) (k : ProcId) :
    (addDelay c s delay m).enterTime k = m.enterTime k := by
  unfold addDelay Maps.enterTime
  split
  · rename_i e eAdd he _
    simp only
    rw [BoundedMap.lookup_modify]
    split
    · subst k; rw [he]; rfl
    · rfl
  · rfl

theorem schedSwitch_enterTime (s : Switch) (m : Maps) (k : ProcId) :
    (schedSwitch c s m).enterTime k = (notePrev s m).enterTime k := by
  unfold schedSwitch
  dsimp only
  split
  · rfl
  · exact addDelay_enterTime c s _ _ k

/-- The delay of a switch is the time since the `enter_time` of the task that comes in. -/
theorem delayOf_enterTime {s : Switch} {m : Maps} {delay : UInt64} (h : delayOf s m = some delay) :
    ∃ t, m.enterTime s.next = some t ∧ delay = s.currentTime - t := by
  unfold delayOf at h
  split at h
  · rename_i e eAdd he _
    cases h
    exact ⟨e.enterTime, by rw [Maps.enterTime, he]; rfl, rfl⟩
  · cases h

theorem schedProcessExit_enterTime (pid tgid cpu : Int32) (m : Maps) (k : ProcId) :
    (schedProcessExit c pid tgid cpu m).enterTime k = if k = procId pid cpu then none else m.enterTime k := by
  unfold schedProcessExit Maps.enterTime
  rw [BoundedMap.lookup_delete]
  split <;> rfl

end Ksight.ProcImage.ScheduleImage

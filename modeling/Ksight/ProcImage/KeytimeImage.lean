/-
  Ksight.ProcImage.KeytimeImage — the probes on the creation and the exit of children
  (src/process/proc_image/bpf/keytime_image.bpf.c, include/keytime_image.h).

  `child_create` enters a child in the map `child`, with its parent, and submits the enter
  event; `child_exit` submits the exit event of the thread that runs it and deletes its
  entry. The probes that call them have each a filter of their own. A thread that fork or
  pthread_create makes is entered by a probe that runs in the parent, one that vfork makes
  by a probe that runs in the child.
-/

import Ksight.Lib.BoundedMap
import Ksight.ProcImage.Current

namespace Ksight.ProcImage.KeytimeImage

open Ksight.Lib

structure ChildInfo where
  type : Int32
  ppid : Int32
  deriving DecidableEq

/-- `info` has the elements that the probe fills. -/
structure KeytimeEvent where
  type : Int32
  pid : Int32
  enableCharInfo : Bool
  infoCount : Int32
  info : List UInt64
  deriving DecidableEq

def maxEntries : Nat := 10240

structure Maps where
  child : BoundedMap Int32 ChildInfo maxEntries
  pthreadCreateEnable : BoundedMap Int32 Bool maxEntries
  keytimeRb : List KeytimeEvent

def Maps.empty : Maps := ⟨.empty, .empty, []⟩

/-- A `pid_t` in an element of `info`. -/
def infoOf (pid : Int32) : UInt64 := pid.toInt64.toUInt64

/-- The event of a child: its parent, and the child in `info`. -/
def childEvent (type pid child : Int32) : KeytimeEvent := ⟨type, pid, false, 1, [infoOf child]⟩

def childCreate (type childPid pid : Int32) (cur : Current) (m : Maps) : Maps :=
  match m.child.update childPid ⟨type, pid⟩ with
  | none => m
  | some n =>
    { m with
      child := n
      keytimeRb := if cur.reserve then m.keytimeRb ++ [childEvent type pid childPid] else m.keytimeRb }

def childExit (cur : Current) (m : Maps) : Maps :=
  match m.child.lookup cur.pid with
  | none => m
  | some info =>
    if cur.reserve then
      { m with
        child := m.child.delete cur.pid
        keytimeRb := m.keytimeRb ++ [childEvent (info.type + 1) info.ppid cur.pid] }
    else m

variable (f : Filter)

def forkExit (cur : Current) (ret : Int32) (m : Maps) : Maps :=
  if cur.tgid ≠ f.ignoreTgid ∧ ret ≠ 0 ∧ (cur.pid = f.targetPid ∨ f.targetPid = -1) then
    childCreate 4 ret cur.pid cur m
  else m

/-- `ppid` is the `real_parent` of the thread; the result of vfork is not read. -/
def vforkExit (cur : Current) (ppid : Int32) (m : Maps) : Maps :=
  if cur.tgid ≠ f.ignoreTgid ∧ (ppid = f.targetPid ∨ f.targetPid = -1) then childCreate 6 cur.pid ppid cur m else m

def pthreadCreateEnter (cur : Current) (m : Maps) : Maps :=
  if cur.tgid ≠ f.ignoreTgid then
    { m with pthreadCreateEnable := (m.pthreadCreateEnable.update cur.pid true).getD m.pthreadCreateEnable }
  else m

def pthreadCreateExit (cur : Current) (m : Maps) : Maps :=
  if cur.tgid ≠ f.ignoreTgid then { m with pthreadCreateEnable := m.pthreadCreateEnable.delete cur.pid } else m

/-- The second comparison is with the thread, where the others compare `target_pid`. -/
def sysExitClone3 (cur : Current) (ret : Int32) (m : Maps) : Maps :=
  if cur.tgid ≠ f.ignoreTgid ∧ (cur.pid = f.targetPid ∨ cur.pid = -1) then
    match m.pthreadCreateEnable.lookup cur.pid with
    | some true => if ret ≤ 0 then m else childCreate 8 ret cur.pid cur m
    | _ => m
  else m

/-- The two tracepoints of an exit differ in the system call they are on. -/
def noteExit (cur : Current) (status : UInt64) (m : Maps) : Maps :=
  if cur.tgid ≠ f.ignoreTgid then
    if f.targetPid = -1 ∨ cur.pid = f.targetPid then
      if cur.reserve then
        childExit cur { m with keytimeRb := m.keytimeRb ++ [⟨3, cur.pid, false, 1, [status]⟩] }
      else m
    else childExit cur m
  else m

def sysEnterExitGroup := noteExit

def sysEnterExit := noteExit

/-! ## What they do when nothing is full -/

variable {f}

theorem infoOf_inj {a b : Int32} (h : infoOf a = infoOf b) : a = b := by
  have := congrArg (fun i : UInt64 => i.toInt64.toInt32) h
  simpa [infoOf] using this

theorem childCreate_spec {cur : Current} (hr : cur.reserve = true) {m : Maps} {childPid : Int32}
    (h : m.child.HasRoom childPid) (type pid : Int32) :
    (∀ c, (childCreate type childPid pid cur m).child.lookup c =
        if c = childPid then some ⟨type, pid⟩ else m.child.lookup c) ∧
      (childCreate type childPid pid cur m).pthreadCreateEnable = m.pthreadCreateEnable ∧
      (childCreate type childPid pid cur m).keytimeRb = m.keytimeRb ++ [childEvent type pid childPid] := by
  obtain ⟨n, hn, hl⟩ := BoundedMap.update_room h (⟨type, pid⟩ : ChildInfo)
  unfold childCreate
  rw [hn]
  exact ⟨hl, rfl, if_pos hr⟩

variable (f) in
theorem pthreadCreateEnter_spec (cur : Current) {m : Maps} (h : m.pthreadCreateEnable.HasRoom cur.pid) :
    (pthreadCreateEnter f cur m).child = m.child ∧ (pthreadCreateEnter f cur m).keytimeRb = m.keytimeRb ∧
      (∀ u, u ≠ cur.pid →
        (pthreadCreateEnter f cur m).pthreadCreateEnable.lookup u = m.pthreadCreateEnable.lookup u) ∧
      (cur.tgid ≠ f.ignoreTgid → (pthreadCreateEnter f cur m).pthreadCreateEnable.lookup cur.pid = some true) := by
  have hl := BoundedMap.lookup_getD_update_room h true
  unfold pthreadCreateEnter
  split
  · refine ⟨rfl, rfl, fun u hu => ?_, fun _ => ?_⟩
    · exact (hl u).trans (if_neg hu)
    · exact (hl cur.pid).trans (if_pos rfl)
  · next hg => exact ⟨rfl, rfl, fun _ _ => rfl, fun h => absurd h hg⟩

variable (f) in
theorem pthreadCreateExit_spec (cur : Current) (m : Maps) :
    (pthreadCreateExit f cur m).child = m.child ∧ (pthreadCreateExit f cur m).keytimeRb = m.keytimeRb ∧
      ∀ u, u ≠ cur.pid →
        (pthreadCreateExit f cur m).pthreadCreateEnable.lookup u = m.pthreadCreateEnable.lookup u := by
  unfold pthreadCreateExit
  split
  · exact ⟨rfl, rfl, fun u hu => (BoundedMap.lookup_delete ..).trans (if_neg hu)⟩
  · exact ⟨rfl, rfl, fun _ _ => rfl⟩

theorem sysExitClone3_enabled (cur : Current) {m : Maps} (hg : cur.tgid ≠ f.ignoreTgid)
    (hp : cur.pid = f.targetPid) (h : m.pthreadCreateEnable.lookup cur.pid = some true) (ret : Int32) :
    sysExitClone3 f cur ret m = if ret ≤ 0 then m else childCreate 8 ret cur.pid cur m := by
  unfold sysExitClone3
  rw [if_pos ⟨hg, .inl hp⟩, h]

/-- An exit reports what the entry of the thread says, and deletes it. A thread whose
    process is ignored has none. -/
theorem noteExit_spec {cur : Current} (hr : cur.reserve = true) {m : Maps}
    (hignored : cur.tgid = f.ignoreTgid → m.child.lookup cur.pid = none) (status : UInt64) :
    (∀ c, (noteExit f cur status m).child.lookup c = if c = cur.pid then none else m.child.lookup c) ∧
      (noteExit f cur status m).pthreadCreateEnable = m.pthreadCreateEnable ∧
      ∃ own, (∀ e ∈ own, e.type = 3) ∧ (noteExit f cur status m).keytimeRb = m.keytimeRb ++ own ++
        ((m.child.lookup cur.pid).map fun info => childEvent (info.type + 1) info.ppid cur.pid).toList := by
  have hexit : ∀ n : Maps, n.child = m.child → n.pthreadCreateEnable = m.pthreadCreateEnable →
      (∀ c, (childExit cur n).child.lookup c = if c = cur.pid then none else m.child.lookup c) ∧
      (childExit cur n).pthreadCreateEnable = m.pthreadCreateEnable ∧
      (childExit cur n).keytimeRb = n.keytimeRb ++
        ((m.child.lookup cur.pid).map fun info => childEvent (info.type + 1) info.ppid cur.pid).toList := by
    intro n hc hp
    unfold childExit
    rw [hc, hr]
    rcases hl : m.child.lookup cur.pid with _ | info
    · refine ⟨fun c => ?_, hp, (List.append_nil _).symm⟩
      rw [hc]
      split
      · subst c; exact hl
      · rfl
    · exact ⟨fun c => by rw [← BoundedMap.lookup_delete]; rfl, hp, rfl⟩
  by_cases ht : cur.tgid = f.ignoreTgid
  · have hsame : noteExit f cur status m = m := if_neg (not_not_intro ht)
    rw [hsame, hignored ht]
    refine ⟨fun c => ?_, rfl, [], fun e he => (by cases he), by simp⟩
    split
    · subst c; exact hignored ht
    · rfl
  unfold noteExit
  rw [if_pos ht]
  split
  · obtain ⟨hl, hp, hrb⟩ := hexit { m with keytimeRb := m.keytimeRb ++ [⟨3, cur.pid, false, 1, [status]⟩] } rfl rfl
    refine ⟨hl, hp, [⟨3, cur.pid, false, 1, [status]⟩], ?_, hrb⟩
    intro e he
    rw [List.mem_singleton.mp he]
  · obtain ⟨hl, hp, hrb⟩ := hexit m rfl rfl
    exact ⟨hl, hp, [], fun e he => (by cases he), by rw [hrb, List.append_nil]⟩

end Ksight.ProcImage.KeytimeImage

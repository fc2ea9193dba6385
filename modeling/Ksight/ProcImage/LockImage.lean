/-
  Ksight.ProcImage.LockImage — the probes on the lock functions of pthread
  (src/process/proc_image/bpf/lock_image.bpf.c, include/lock_image.h).

  The entry probe of a function notes its argument in `proc_lock` or `proc_unlock` under
  the thread and the kind of lock, the return probe takes it from there. A rwlock is
  released by one function whichever way it is held, so the return probes of rdlock and
  wrlock note the way in `locktype`, under the address, and that of unlock reads it.
-/

import Ksight.Lib.BoundedMap
import Ksight.ProcImage.Current

namespace Ksight.ProcImage.LockImage

open Ksight.Lib

structure ProcFlag where
  pid : Int32
  flag : Int32
  deriving DecidableEq

/-- `ret` is `none` where the probe leaves the field unset. -/
structure LockEvent where
  lockStatus : Int32
  pid : Int32
  ret : Option Int32
  lockPtr : UInt64
  time : UInt64
  deriving DecidableEq

def maxEntries : Nat := 10240

structure Maps where
  procLock : BoundedMap ProcFlag UInt64 maxEntries
  procUnlock : BoundedMap ProcFlag UInt64 maxEntries
  locktype : BoundedMap UInt64 Int32 maxEntries
  lockRb : List LockEvent

def Maps.empty : Maps := ⟨.empty, .empty, .empty, []⟩

/-- `bpf_ringbuf_reserve` and `bpf_ringbuf_submit`. -/
def Maps.submit (m : Maps) (cur : Current) (e : LockEvent) : Maps :=
  if cur.reserve then { m with lockRb := m.lockRb ++ [e] } else m

variable (ignoreTgid : Int32)

def recordLockEnter (lockStatus flag : Int32) (cur : Current) (lock : UInt64) (m : Maps) : Maps :=
  if cur.tgid = ignoreTgid then m
  else
    match m.procLock.update ⟨cur.pid, flag⟩ lock with
    | none => m
    | some procLock => { m with procLock := procLock }.submit cur ⟨lockStatus, cur.pid, none, lock, cur.ktime⟩

/-- The note of the way a rwlock is held; `none` where the map has no room for it. -/
def noteLocktype (lockStatus ret : Int32) (lockPtr : UInt64) (m : Maps) : Option Maps :=
  if (lockStatus = 5 ∨ lockStatus = 8) ∧ ret = 0 then
    (m.locktype.update lockPtr (if lockStatus = 5 then 1 else 2)).map fun n => { m with locktype := n }
  else some m

def recordLockExit (lockStatus flag : Int32) (cur : Current) (ret : Int32) (m : Maps) : Maps :=
  if cur.tgid = ignoreTgid then m
  else
    match m.procLock.lookup ⟨cur.pid, flag⟩ with
    | none => m
    | some lockPtr =>
      let m := { m with procLock := m.procLock.delete ⟨cur.pid, flag⟩ }
      match noteLocktype lockStatus ret lockPtr m with
      | none => m
      | some m => m.submit cur ⟨lockStatus, cur.pid, some ret, lockPtr, cur.ktime⟩

def recordUnlockEnter (flag : Int32) (cur : Current) (lock : UInt64) (m : Maps) : Maps :=
  if cur.tgid = ignoreTgid then m
  else
    match m.procUnlock.update ⟨cur.pid, flag⟩ lock with
    | none => m
    | some procUnlock => { m with procUnlock := procUnlock }

/-- The status of an unlock: that of the probe, or by the note if the probe passes 0. -/
def unlockStatus (lockStatus type : Int32) : Int32 :=
  if type = 1 then 6 else if type = 2 then 9 else lockStatus

def recordUnlockExit (lockStatus flag : Int32) (cur : Current) (m : Maps) : Maps :=
  if cur.tgid = ignoreTgid then m
  else
    match m.procUnlock.lookup ⟨cur.pid, flag⟩ with
    | none => m
    | some lockPtr =>
      let m := { m with procUnlock := m.procUnlock.delete ⟨cur.pid, flag⟩ }
      if lockStatus = 0 then
        match m.locktype.lookup lockPtr with
        | none => m
        | some type =>
          { m with locktype := m.locktype.delete lockPtr }.submit cur
            ⟨unlockStatus lockStatus type, cur.pid, none, lockPtr, cur.ktime⟩
      else m.submit cur ⟨lockStatus, cur.pid, none, lockPtr, cur.ktime⟩

/-! ## What the four functions do in a traced process -/

section
variable {ignoreTgid : Int32} (cur : Current) (ht : cur.tgid ≠ ignoreTgid) (hr : cur.reserve = true)
include ht hr

theorem recordLockEnter_spec {flag : Int32} {m : Maps} (h : m.procLock.HasRoom ⟨cur.pid, flag⟩)
    (lockStatus : Int32) (lock : UInt64) :
    ∃ procLock, recordLockEnter ignoreTgid lockStatus flag cur lock m =
        { m with
          procLock := procLock
          lockRb := m.lockRb ++ [⟨lockStatus, cur.pid, none, lock, cur.ktime⟩] } ∧
      procLock.lookup ⟨cur.pid, flag⟩ = some lock ∧
      ∀ k, k ≠ ⟨cur.pid, flag⟩ → procLock.lookup k = m.procLock.lookup k := by
  obtain ⟨n, hn, hl⟩ := BoundedMap.update_room h lock
  refine ⟨n, ?_, by rw [hl, if_pos rfl], fun k hk => by rw [hl, if_neg hk]⟩
  unfold recordLockEnter Maps.submit
  rw [if_neg ht, hn, hr]
  rfl

theorem recordLockExit_spec {flag : Int32} {m : Maps} {lockPtr : UInt64}
    (h : m.procLock.lookup ⟨cur.pid, flag⟩ = some lockPtr) (hroom : m.locktype.HasRoom lockPtr)
    (lockStatus ret : Int32) :
    ∃ locktype, recordLockExit ignoreTgid lockStatus flag cur ret m =
        { m with
          procLock := m.procLock.delete ⟨cur.pid, flag⟩
          locktype := locktype
          lockRb := m.lockRb ++ [⟨lockStatus, cur.pid, some ret, lockPtr, cur.ktime⟩] } ∧
      ∀ a, locktype.lookup a =
        if a = lockPtr ∧ (lockStatus = 5 ∨ lockStatus = 8) ∧ ret = 0 then some (if lockStatus = 5 then 1 else 2)
        else m.locktype.lookup a := by
  unfold recordLockExit noteLocktype Maps.submit
  by_cases hs : (lockStatus = 5 ∨ lockStatus = 8) ∧ ret = 0
  · obtain ⟨n, hn, hl⟩ := BoundedMap.update_room hroom (if lockStatus = 5 then (1 : Int32) else 2)
    refine ⟨n, ?_, fun a => by rw [hl]; simp only [hs, and_true]⟩
    simp only [if_neg ht, h, hs, and_self, if_true, hn, Option.map_some, hr]
  · refine ⟨m.locktype, ?_, fun a => by simp only [hs, and_false, if_false]⟩
    simp only [if_neg ht, h, hs, if_false, hr, if_true]

omit hr in
theorem recordUnlockEnter_spec {flag : Int32} {m : Maps} (h : m.procUnlock.HasRoom ⟨cur.pid, flag⟩)
    (lock : UInt64) :
    ∃ procUnlock, recordUnlockEnter ignoreTgid flag cur lock m = { m with procUnlock := procUnlock } ∧
      procUnlock.lookup ⟨cur.pid, flag⟩ = some lock ∧
      ∀ k, k ≠ ⟨cur.pid, flag⟩ → procUnlock.lookup k = m.procUnlock.lookup k := by
  obtain ⟨n, hn, hl⟩ := BoundedMap.update_room h lock
  refine ⟨n, ?_, by rw [hl, if_pos rfl], fun k hk => by rw [hl, if_neg hk]⟩
  unfold recordUnlockEnter
  rw [if_neg ht, hn]

/-- The unlock of a mutex has its own status. -/
theorem recordUnlockExit_status {flag lockStatus : Int32} {m : Maps} {lockPtr : UInt64}
    (h : m.procUnlock.lookup ⟨cur.pid, flag⟩ = some lockPtr) (hs : lockStatus ≠ 0) :
    recordUnlockExit ignoreTgid lockStatus flag cur m =
      { m with
        procUnlock := m.procUnlock.delete ⟨cur.pid, flag⟩
        lockRb := m.lockRb ++ [⟨lockStatus, cur.pid, none, lockPtr, cur.ktime⟩] } := by
  unfold recordUnlockExit Maps.submit
  simp only [if_neg ht, h, if_neg hs, hr, if_true]

/-- That of a rwlock takes it from the note. -/
theorem recordUnlockExit_note {flag type : Int32} {m : Maps} {lockPtr : UInt64}
    (h : m.procUnlock.lookup ⟨cur.pid, flag⟩ = some lockPtr) (hn : m.locktype.lookup lockPtr = some type) :
    recordUnlockExit ignoreTgid 0 flag cur m =
      { m with
        procUnlock := m.procUnlock.delete ⟨cur.pid, flag⟩
        locktype := m.locktype.delete lockPtr
        lockRb := m.lockRb ++ [⟨unlockStatus 0 type, cur.pid, none, lockPtr, cur.ktime⟩] } := by
  unfold recordUnlockExit Maps.submit
  simp only [if_neg ht, h, hn, hr, if_true]

omit hr in
/-- Without a note it is silent. -/
theorem recordUnlockExit_silent {flag : Int32} {m : Maps} {lockPtr : UInt64}
    (h : m.procUnlock.lookup ⟨cur.pid, flag⟩ = some lockPtr) (hn : m.locktype.lookup lockPtr = none) :
    recordUnlockExit ignoreTgid 0 flag cur m = { m with procUnlock := m.procUnlock.delete ⟨cur.pid, flag⟩ } := by
  unfold recordUnlockExit
  simp only [if_neg ht, h, hn, if_true]

end

/-! ## The probes -/

def pthreadMutexLockEnter := recordLockEnter ignoreTgid 1 1
def pthreadMutexLockExit := recordLockExit ignoreTgid 2 1
def pthreadMutexTrylockEnter := recordLockEnter ignoreTgid 1 1
def pthreadMutexTrylockExit := recordLockExit ignoreTgid 2 1
def pthreadMutexUnlockEnter := recordUnlockEnter ignoreTgid 1
def pthreadMutexUnlockExit := recordUnlockExit ignoreTgid 3 1

def pthreadRwlockRdlockEnter := recordLockEnter ignoreTgid 4 2
def pthreadRwlockRdlockExit := recordLockExit ignoreTgid 5 2
def pthreadRwlockTryrdlockEnter := recordLockEnter ignoreTgid 4 2
def pthreadRwlockTryrdlockExit := recordLockExit ignoreTgid 5 2
def pthreadRwlockWrlockEnter := recordLockEnter ignoreTgid 7 2
def pthreadRwlockWrlockExit := recordLockExit ignoreTgid 8 2
def pthreadRwlockTrywrlockEnter := recordLockEnter ignoreTgid 7 2
def pthreadRwlockTrywrlockExit := recordLockExit ignoreTgid 8 2
def pthreadRwlockUnlockEnter := recordUnlockEnter ignoreTgid 2
def pthreadRwlockUnlockExit := recordUnlockExit ignoreTgid 0 2

inductive LockFn where
  | mutexLock
  | mutexTrylock
  | rdlock
  | tryrdlock
  | wrlock
  | trywrlock
  deriving DecidableEq

inductive UnlockFn where
  | mutex
  | rwlock
  deriving DecidableEq

def LockFn.enter : LockFn → Current → UInt64 → Maps → Maps
  | .mutexLock => pthreadMutexLockEnter ignoreTgid
  | .mutexTrylock => pthreadMutexTrylockEnter ignoreTgid
  | .rdlock => pthreadRwlockRdlockEnter ignoreTgid
  | .tryrdlock => pthreadRwlockTryrdlockEnter ignoreTgid
  | .wrlock => pthreadRwlockWrlockEnter ignoreTgid
  | .trywrlock => pthreadRwlockTrywrlockEnter ignoreTgid

def LockFn.exit : LockFn → Current → Int32 → Maps → Maps
  | .mutexLock => pthreadMutexLockExit ignoreTgid
  | .mutexTrylock => pthreadMutexTrylockExit ignoreTgid
  | .rdlock => pthreadRwlockRdlockExit ignoreTgid
  | .tryrdlock => pthreadRwlockTryrdlockExit ignoreTgid
  | .wrlock => pthreadRwlockWrlockExit ignoreTgid
  | .trywrlock => pthreadRwlockTrywrlockExit ignoreTgid

def UnlockFn.enter : UnlockFn → Current → UInt64 → Maps → Maps
  | .mutex => pthreadMutexUnlockEnter ignoreTgid
  | .rwlock => pthreadRwlockUnlockEnter ignoreTgid

def UnlockFn.exit : UnlockFn → Current → Maps → Maps
  | .mutex => pthreadMutexUnlockExit ignoreTgid
  | .rwlock => pthreadRwlockUnlockExit ignoreTgid

end Ksight.ProcImage.LockImage

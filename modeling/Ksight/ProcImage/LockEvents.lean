/-
  Ksight.ProcImage.LockEvents — the events of rwlocks against the operations on them
  (src/process/proc_image/bpf/lock_image.bpf.c).

  Threads of any processes call the lock, try-lock and unlock functions of pthread, their
  entry and return probes in any order. A rwlock is a process and an address; a thread
  holds it from the return of its lock call to the entry of its unlock call.

  The law (`Mirrored`): the events of acquisitions and releases are the acquisitions and
  releases of the traced processes, in order, each with its thread, address and mode.
  `events_mirror_locks`: it holds in every run in which an unlock returns while the note
  of its address is its own (`OwnNote`): the last return there, in whatever process, was
  of an acquisition in the mode that the unlock gives up. `foreign_note_breaks_the_mirror`:
  the first unlock of which this is not true breaks it. Two readers of one lock are enough
  (`second_reader_is_silent`), two processes with locks at equal addresses
  (`equal_addresses_mix`), and a release with the next acquisition before its return.
-/

import Mathlib.Logic.Function.Basic
import Ksight.Lib.Run
import Ksight.ProcImage.LockImage

namespace Ksight.ProcImage.LockImage

open Ksight.Lib

inductive Mode where
  | read
  | write
  deriving DecidableEq

/-- The value of `locktype`, and the statuses of lock and unlock events. -/
def Mode.type : Mode → Int32
  | .read => 1
  | .write => 2

def Mode.lockStatus : Mode → Int32
  | .read => 5
  | .write => 8

def Mode.unlockStatus : Mode → Int32
  | .read => 6
  | .write => 9

theorem Mode.unlockStatus_inj {a b : Mode} (h : a.unlockStatus = b.unlockStatus) : a = b := by
  cases a <;> cases b <;> first | rfl | exact absurd h (by decide)

/-- The way a successful call holds a rwlock. -/
def LockFn.mode : LockFn → Option Mode
  | .mutexLock | .mutexTrylock => none
  | .rdlock | .tryrdlock => some .read
  | .wrlock | .trywrlock => some .write

def LockFn.flag (fn : LockFn) : Int32 := if fn.mode = none then 1 else 2

def UnlockFn.flag : UnlockFn → Int32
  | .mutex => 1
  | .rwlock => 2

structure Hold where
  pid : Int32
  lockPtr : UInt64
  mode : Mode
  deriving DecidableEq

/-- A successful operation on a rwlock, with the status of the event it is to have. -/
structure Op where
  pid : Int32
  lockPtr : UInt64
  lockStatus : Int32
  deriving DecidableEq

/-- The call a thread is in; an unlock with the mode it gives up, if it held the rwlock. -/
inductive Call where
  | lock (fn : LockFn) (lockPtr : UInt64)
  | unlock (fn : UnlockFn) (lockPtr : UInt64) (held : Option Mode)

structure St where
  maps : Maps
  call : Int32 → Option Call
  holds : List Hold
  /-- The operations of traced processes that have returned. -/
  ops : List Op

def init : St := ⟨.empty, fun _ => none, [], []⟩

inductive Ev where
  | lockEnter (t : Int32) (fn : LockFn) (lockPtr ktime : UInt64)
  | lockExit (t ret : Int32) (ktime : UInt64)
  | unlockEnter (t : Int32) (fn : UnlockFn) (lockPtr ktime : UInt64)
  | unlockExit (t : Int32) (ktime : UInt64)

variable (ignoreTgid : Int32) (tgid : Int32 → Int32)

def current (t : Int32) (ktime : UInt64) : Current := ⟨t, tgid t, ktime, true⟩

/-- A rwlock that the thread may hold in the mode, next to those who hold it now. -/
def St.Available (st : St) (t : Int32) (lockPtr : UInt64) (mode : Mode) : Prop :=
  ∀ h ∈ st.holds, tgid h.pid = tgid t → h.lockPtr = lockPtr → mode = .read ∧ h.mode = .read

instance (st : St) (t : Int32) (lockPtr : UInt64) (mode : Mode) : Decidable (st.Available tgid t lockPtr mode) :=
  inferInstanceAs (Decidable (∀ _ ∈ _, _))

def St.held (st : St) (t : Int32) (lockPtr : UInt64) : Option Mode :=
  (st.holds.find? fun h => h.pid = t ∧ h.lockPtr = lockPtr).map Hold.mode

/-- The mode a lock call that returns `ret` has got, if any. -/
def acquired (fn : LockFn) (ret : Int32) : Option Mode := if ret = 0 then fn.mode else none

/-- The processes traced are all but `ignore_tgid`. -/
def St.record (st : St) (t : Int32) (op : Option Op) : List Op :=
  if tgid t = ignoreTgid then st.ops else st.ops ++ op.toList

def step : Ev → St → Option St
  | .lockEnter t fn lockPtr ktime, st =>
    if (st.call t).isNone ∧ st.maps.procLock.HasRoom ⟨t, fn.flag⟩ then
      some { st with
        maps := fn.enter ignoreTgid (current tgid t ktime) lockPtr st.maps
        call := Function.update st.call t (some (.lock fn lockPtr)) }
    else none
  | .lockExit t ret ktime, st =>
    match st.call t with
    | some (.lock fn lockPtr) =>
      if (∀ mode ∈ acquired fn ret, st.Available tgid t lockPtr mode) ∧ st.maps.locktype.HasRoom lockPtr then
        some { st with
          maps := fn.exit ignoreTgid (current tgid t ktime) ret st.maps
          call := Function.update st.call t none
          holds := st.holds ++ ((acquired fn ret).map fun mode => ⟨t, lockPtr, mode⟩).toList
          ops := st.record ignoreTgid tgid t ((acquired fn ret).map fun mode => ⟨t, lockPtr, mode.lockStatus⟩) }
      else none
    | _ => none
  | .unlockEnter t fn lockPtr ktime, st =>
    if (st.call t).isNone ∧ st.maps.procUnlock.HasRoom ⟨t, fn.flag⟩ then
      let held := if fn = .rwlock then st.held t lockPtr else none
      some { st with
        maps := fn.enter ignoreTgid (current tgid t ktime) lockPtr st.maps
        call := Function.update st.call t (some (.unlock fn lockPtr held))
        holds := if fn = .rwlock then st.holds.eraseP fun h => h.pid = t ∧ h.lockPtr = lockPtr else st.holds }
    else none
  | .unlockExit t ktime, st =>
    match st.call t with
    | some (.unlock fn lockPtr held) =>
      some { st with
        maps := fn.exit ignoreTgid (current tgid t ktime) st.maps
        call := Function.update st.call t none
        ops := st.record ignoreTgid tgid t (held.map fun mode => ⟨t, lockPtr, mode.unlockStatus⟩) }
    | _ => none

/-! ## The law -/

/-- The operation an event is about; a 0 is the status of an unlock without a mode. -/
def LockEvent.op (e : LockEvent) : Option Op :=
  if (e.lockStatus ∈ [5, 8] ∧ e.ret = some 0) ∨ e.lockStatus ∈ [0, 6, 9] then
    some ⟨e.pid, e.lockPtr, e.lockStatus⟩
  else none

def Mirrored (st : St) : Prop := st.maps.lockRb.filterMap LockEvent.op = st.ops

instance (st : St) : Decidable (Mirrored st) := inferInstanceAs (Decidable (_ = _))

def Op.acquired (op : Op) : Option Mode :=
  if op.lockStatus = 5 then some .read else if op.lockStatus = 8 then some .write else none

/-- The mode of the last operation at an address, if it is an acquisition. -/
def latest (ops : List Op) (lockPtr : UInt64) : Option Mode :=
  (ops.filter fun op => op.lockPtr = lockPtr).getLast?.bind Op.acquired

/-- The last operation at the address of an unlock, of any traced process, is an
    acquisition in the mode it gives up; and no acquisition if it gives up none. -/
def St.Noted (st : St) : Option Call → Prop
  | some (.unlock .rwlock lockPtr held) => latest st.ops lockPtr = held
  | _ => True

/-- The condition: the unlock of a rwlock returns while the note there is its own. -/
def OwnNote : Ev → St → Prop
  | .unlockExit t _, st => tgid t ≠ ignoreTgid → st.Noted (st.call t)
  | _, _ => True

instance (st : St) : ∀ call, Decidable (st.Noted call)
  | some (.unlock .rwlock _ _) => inferInstanceAs (Decidable (_ = _))
  | some (.unlock .mutex _ _) | some (.lock ..) | none => inferInstanceAs (Decidable True)

instance : ∀ (e : Ev) (st : St), Decidable (OwnNote ignoreTgid tgid e st)
  | .unlockExit .., _ => inferInstanceAs (Decidable (_ → _))
  | .lockEnter .., _ | .lockExit .., _ | .unlockEnter .., _ => inferInstanceAs (Decidable True)


/-! ## The note of an address -/

/-- The note a call in progress left under its thread. -/
def Pending (m : Maps) (t : Int32) : Option Call → Prop
  | some (.lock fn lockPtr) => m.procLock.lookup ⟨t, fn.flag⟩ = some lockPtr
  | some (.unlock fn lockPtr held) =>
    m.procUnlock.lookup ⟨t, fn.flag⟩ = some lockPtr ∧ (fn = .mutex → held = none)
  | none => True

structure Inv (st : St) : Prop where
  pending : ∀ t, tgid t ≠ ignoreTgid → Pending st.maps t (st.call t)
  /-- `locktype` is the last acquisition at each address. -/
  noted : ∀ a, st.maps.locktype.lookup a = (latest st.ops a).map Mode.type
  mirrored : Mirrored st

theorem init_inv : Inv ignoreTgid tgid init := ⟨fun _ _ => trivial, fun _ => rfl, rfl⟩

variable {ignoreTgid : Int32} {tgid : Int32 → Int32}

theorem latest_snoc (ops : List Op) (op : Op) (a : UInt64) :
    latest (ops ++ [op]) a = if a = op.lockPtr then op.acquired else latest ops a := by
  unfold latest
  by_cases h : a = op.lockPtr
  · simp [h, List.filter_append]
  · have h' : op.lockPtr ≠ a := fun e => h e.symm
    simp [h, h', List.filter_append]

/-- The calls of the other threads keep their notes when only those of `t` change. -/
theorem pending_update {st : St} {m : Maps} {t : Int32} {call : Option Call} (hi : Inv ignoreTgid tgid st)
    (hlock : ∀ k : ProcFlag, k.pid ≠ t → m.procLock.lookup k = st.maps.procLock.lookup k)
    (hunlock : ∀ k : ProcFlag, k.pid ≠ t → m.procUnlock.lookup k = st.maps.procUnlock.lookup k)
    (ht : tgid t ≠ ignoreTgid → Pending m t call) :
    ∀ u, tgid u ≠ ignoreTgid → Pending m u (Function.update st.call t call u) := by
  intro u hu
  by_cases e : u = t
  · subst e
    rw [Function.update_self]
    exact ht hu
  · have hp := hi.pending u hu
    rw [Function.update_of_ne e]
    rcases hc : st.call u with _ | ⟨fn, a⟩ | ⟨fn, a, held⟩
    · trivial
    · rw [hc] at hp
      exact (hlock _ e).trans hp
    · rw [hc] at hp
      exact ⟨(hunlock _ e).trans hp.1, hp.2⟩

/-! ## The probes by function -/

def LockFn.reqStatus (fn : LockFn) : Int32 :=
  match fn.mode with
  | none => 1
  | some .read => 4
  | some .write => 7

def LockFn.status (fn : LockFn) : Int32 :=
  match fn.mode with
  | none => 2
  | some mode => mode.lockStatus

theorem LockFn.enter_eq (fn : LockFn) : fn.enter ignoreTgid = recordLockEnter ignoreTgid fn.reqStatus fn.flag := by
  cases fn <;> rfl

theorem LockFn.exit_eq (fn : LockFn) : fn.exit ignoreTgid = recordLockExit ignoreTgid fn.status fn.flag := by
  cases fn <;> rfl

theorem UnlockFn.enter_eq (fn : UnlockFn) : fn.enter ignoreTgid = recordUnlockEnter ignoreTgid fn.flag := by
  cases fn <;> rfl

theorem acquired_none {fn : LockFn} {ret : Int32} (h : acquired fn ret = none) :
    ¬ ((fn.status = 5 ∨ fn.status = 8) ∧ ret = 0) := by
  rintro ⟨hs, rfl⟩
  have hmode : fn.mode = none := h
  rw [LockFn.status, hmode] at hs
  revert hs
  decide

theorem acquired_some {fn : LockFn} {ret : Int32} {mode : Mode} (h : acquired fn ret = some mode) :
    fn.status = mode.lockStatus ∧ ret = 0 := by
  unfold acquired at h
  split at h
  · rename_i hret
    exact ⟨by rw [LockFn.status, h], hret⟩
  · cases h

/-- A request is no operation yet. -/
theorem op_request (fn : LockFn) (pid : Int32) (lockPtr time : UInt64) :
    LockEvent.op ⟨fn.reqStatus, pid, none, lockPtr, time⟩ = none := by
  cases fn <;> rfl

theorem op_lockExit (fn : LockFn) (pid ret : Int32) (lockPtr time : UInt64) :
    LockEvent.op ⟨fn.status, pid, some ret, lockPtr, time⟩ =
      (acquired fn ret).map fun mode => ⟨pid, lockPtr, mode.lockStatus⟩ := by
  unfold LockEvent.op acquired
  by_cases h : ret = 0
  · subst h
    cases fn <;> rfl
  · cases fn <;> simp [h, LockFn.status, LockFn.mode, Mode.lockStatus]

theorem op_unlock (mode : Mode) (pid : Int32) (lockPtr time : UInt64) :
    LockEvent.op ⟨unlockStatus 0 mode.type, pid, none, lockPtr, time⟩ =
      some ⟨pid, lockPtr, mode.unlockStatus⟩ := by
  cases mode <;> rfl

theorem acquired_lockStatus (mode : Mode) (t : Int32) (lockPtr : UInt64) :
    Op.acquired ⟨t, lockPtr, mode.lockStatus⟩ = some mode := by
  cases mode <;> rfl

theorem acquired_unlockStatus (mode : Mode) (t : Int32) (lockPtr : UInt64) :
    Op.acquired ⟨t, lockPtr, mode.unlockStatus⟩ = none := by
  cases mode <;> rfl

/-! ## One step -/

theorem lockEnter_inv {st : St} {t : Int32} {fn : LockFn} (hi : Inv ignoreTgid tgid st)
    (hroom : st.maps.procLock.HasRoom ⟨t, fn.flag⟩) (lockPtr ktime : UInt64) :
    Inv ignoreTgid tgid { st with
      maps := fn.enter ignoreTgid (current tgid t ktime) lockPtr st.maps
      call := Function.update st.call t (some (.lock fn lockPtr)) } := by
  rw [LockFn.enter_eq]
  by_cases ht : tgid t = ignoreTgid
  · have hm : recordLockEnter ignoreTgid fn.reqStatus fn.flag (current tgid t ktime) lockPtr st.maps = st.maps :=
      if_pos ht
    rw [hm]
    exact ⟨pending_update hi (fun _ _ => rfl) (fun _ _ => rfl) (absurd ht), hi.noted, hi.mirrored⟩
  · obtain ⟨n, hm, hself, hne⟩ := recordLockEnter_spec (current tgid t ktime) ht rfl hroom fn.reqStatus lockPtr
    rw [hm]
    have hother : ∀ k : ProcFlag, k.pid ≠ t → n.lookup k = st.maps.procLock.lookup k :=
      fun k hk => hne k fun e => hk (by rw [e]; rfl)
    refine ⟨pending_update hi hother (fun _ _ => rfl) (fun _ => hself), hi.noted, ?_⟩
    have := hi.mirrored
    unfold Mirrored at this ⊢
    rw [List.filterMap_append, this]
    simp only [List.filterMap_cons, op_request, List.filterMap_nil, List.append_nil]

theorem lockExit_inv {st : St} {t : Int32} {fn : LockFn} {lockPtr : UInt64} (hi : Inv ignoreTgid tgid st)
    (hcall : st.call t = some (.lock fn lockPtr)) (hroom : st.maps.locktype.HasRoom lockPtr) (ret : Int32)
    (ktime : UInt64) (holds : List Hold) :
    Inv ignoreTgid tgid {
      maps := fn.exit ignoreTgid (current tgid t ktime) ret st.maps
      call := Function.update st.call t none
      holds := holds
      ops := st.record ignoreTgid tgid t ((acquired fn ret).map fun mode => ⟨t, lockPtr, mode.lockStatus⟩) } := by
  rw [LockFn.exit_eq]
  by_cases ht : tgid t = ignoreTgid
  · have hm : recordLockExit ignoreTgid fn.status fn.flag (current tgid t ktime) ret st.maps = st.maps := if_pos ht
    rw [hm, St.record, if_pos ht]
    exact ⟨pending_update hi (fun _ _ => rfl) (fun _ _ => rfl) (absurd ht), hi.noted, hi.mirrored⟩
  · have hp := hi.pending t ht
    rw [hcall] at hp
    obtain ⟨n, hm, hl⟩ := recordLockExit_spec (current tgid t ktime) ht rfl hp hroom fn.status ret
    rw [hm, St.record, if_neg ht]
    have hother : ∀ k : ProcFlag, k.pid ≠ t →
        (st.maps.procLock.delete ⟨t, fn.flag⟩).lookup k = st.maps.procLock.lookup k :=
      fun k hk => BoundedMap.lookup_delete_ne _ fun e => hk (by rw [e])
    refine ⟨pending_update hi hother (fun _ _ => rfl) (fun _ => trivial), ?_, ?_⟩
    · intro a
      show n.lookup a = (latest (st.ops ++ _) a).map Mode.type
      rw [hl, hi.noted]
      rcases hacq : acquired fn ret with _ | mode
      · rw [if_neg fun h => acquired_none hacq h.2]
        simp
      · obtain ⟨hstatus, hret⟩ := acquired_some hacq
        rw [Option.map_some, Option.toList_some, latest_snoc, acquired_lockStatus, hstatus]
        by_cases ha : a = lockPtr
        · rw [if_pos ha]
          cases mode <;> simp [ha, hret, Mode.lockStatus, Mode.type]
        · rw [if_neg ha, if_neg fun h => ha h.1]
    · have := hi.mirrored
      unfold Mirrored at this ⊢
      rw [List.filterMap_append, this]
      congr 1
      show List.filterMap LockEvent.op [⟨fn.status, t, some ret, lockPtr, ktime⟩] = _
      rw [List.filterMap_cons, op_lockExit]
      cases acquired fn ret <;> rfl

theorem unlockEnter_inv {st : St} {t : Int32} {fn : UnlockFn} {held : Option Mode} (hi : Inv ignoreTgid tgid st)
    (hroom : st.maps.procUnlock.HasRoom ⟨t, fn.flag⟩) (lockPtr ktime : UInt64) (hheld : fn = .mutex → held = none)
    (holds : List Hold) :
    Inv ignoreTgid tgid { st with
      maps := fn.enter ignoreTgid (current tgid t ktime) lockPtr st.maps
      call := Function.update st.call t (some (.unlock fn lockPtr held))
      holds := holds } := by
  rw [UnlockFn.enter_eq]
  by_cases ht : tgid t = ignoreTgid
  · have hm : recordUnlockEnter ignoreTgid fn.flag (current tgid t ktime) lockPtr st.maps = st.maps := if_pos ht
    rw [hm]
    exact ⟨pending_update hi (fun _ _ => rfl) (fun _ _ => rfl) (absurd ht), hi.noted, hi.mirrored⟩
  · obtain ⟨n, hm, hself, hne⟩ := recordUnlockEnter_spec (current tgid t ktime) ht hroom lockPtr
    rw [hm]
    have hother : ∀ k : ProcFlag, k.pid ≠ t → n.lookup k = st.maps.procUnlock.lookup k :=
      fun k hk => hne k fun e => hk (by rw [e]; rfl)
    exact ⟨pending_update hi (fun _ _ => rfl) hother (fun _ => ⟨hself, hheld⟩), hi.noted, hi.mirrored⟩

theorem unlockExit_inv {st : St} {t : Int32} {fn : UnlockFn} {lockPtr : UInt64} {held : Option Mode}
    (hi : Inv ignoreTgid tgid st) (hcall : st.call t = some (.unlock fn lockPtr held))
    (hn : tgid t ≠ ignoreTgid → st.Noted (some (.unlock fn lockPtr held))) (ktime : UInt64) :
    Inv ignoreTgid tgid { st with
      maps := fn.exit ignoreTgid (current tgid t ktime) st.maps
      call := Function.update st.call t none
      ops := st.record ignoreTgid tgid t (held.map fun mode => ⟨t, lockPtr, mode.unlockStatus⟩) } := by
  by_cases ht : tgid t = ignoreTgid
  · have hm : fn.exit ignoreTgid (current tgid t ktime) st.maps = st.maps := by
      cases fn <;> exact if_pos ht
    rw [hm, St.record, if_pos ht]
    exact ⟨pending_update hi (fun _ _ => rfl) (fun _ _ => rfl) (absurd ht), hi.noted, hi.mirrored⟩
  have hp := hi.pending t ht
  rw [hcall] at hp
  have hother : ∀ k : ProcFlag, k.pid ≠ t →
      (st.maps.procUnlock.delete ⟨t, fn.flag⟩).lookup k = st.maps.procUnlock.lookup k :=
    fun k hk => BoundedMap.lookup_delete_ne _ fun e => hk (by rw [e])
  have hmirrored := hi.mirrored
  unfold Mirrored at hmirrored
  have hnoted : ∀ a, st.maps.locktype.lookup a = (latest (st.ops ++ []) a).map Mode.type := by
    intro a
    rw [List.append_nil]
    exact hi.noted a
  rw [St.record, if_neg ht]
  cases fn with
  | mutex =>
    have hm := recordUnlockExit_status (current tgid t ktime) ht rfl hp.1 (by decide : (3 : Int32) ≠ 0)
    change UnlockFn.mutex.exit ignoreTgid (current tgid t ktime) st.maps = _ at hm
    rw [hm, hp.2 rfl]
    refine ⟨pending_update hi (fun _ _ => rfl) hother (fun _ => trivial), hnoted, ?_⟩
    unfold Mirrored
    rw [List.filterMap_append, hmirrored]
    rfl
  | rwlock =>
    have hnote : st.maps.locktype.lookup lockPtr = held.map Mode.type := by
      rw [hi.noted, show latest st.ops lockPtr = held from hn ht]
    cases held with
    | none =>
      have hm := recordUnlockExit_silent (current tgid t ktime) ht hp.1 hnote
      change UnlockFn.rwlock.exit ignoreTgid (current tgid t ktime) st.maps = _ at hm
      rw [hm]
      refine ⟨pending_update hi (fun _ _ => rfl) hother (fun _ => trivial), hnoted, ?_⟩
      show st.maps.lockRb.filterMap LockEvent.op = st.ops ++ []
      rw [hmirrored, List.append_nil]
    | some mode =>
      have hm := recordUnlockExit_note (current tgid t ktime) ht rfl hp.1 hnote
      change UnlockFn.rwlock.exit ignoreTgid (current tgid t ktime) st.maps = _ at hm
      rw [hm]
      refine ⟨pending_update hi (fun _ _ => rfl) hother (fun _ => trivial), ?_, ?_⟩
      · intro a
        show (st.maps.locktype.delete lockPtr).lookup a = _
        rw [BoundedMap.lookup_delete, hi.noted, Option.map_some, Option.toList_some, latest_snoc,
          acquired_unlockStatus]
        split <;> rfl
      · unfold Mirrored
        rw [List.filterMap_append, hmirrored]
        exact congrArg (st.ops ++ ·) (List.filterMap_cons_some (op_unlock mode t lockPtr ktime))

theorem step_inv {e : Ev} {st st' : St} (hi : Inv ignoreTgid tgid st) (hn : OwnNote ignoreTgid tgid e st)
    (h : step ignoreTgid tgid e st = some st') :
    Inv ignoreTgid tgid st' := by
  cases e with
  | lockEnter t fn lockPtr ktime =>
    simp only [step, Option.ite_none_right_eq_some, Option.some.injEq] at h
    obtain ⟨⟨-, hroom⟩, rfl⟩ := h
    exact lockEnter_inv hi hroom lockPtr ktime
  | lockExit t ret ktime =>
    simp only [step] at h
    split at h
    · rename_i fn lockPtr hcall
      simp only [Option.ite_none_right_eq_some, Option.some.injEq] at h
      obtain ⟨⟨-, hroom⟩, rfl⟩ := h
      exact lockExit_inv hi hcall hroom ret ktime _
    · cases h
  | unlockEnter t fn lockPtr ktime =>
    simp only [step, Option.ite_none_right_eq_some, Option.some.injEq] at h
    obtain ⟨⟨-, hroom⟩, rfl⟩ := h
    refine unlockEnter_inv hi hroom lockPtr ktime ?_ _
    rintro rfl
    rfl
  | unlockExit t ktime =>
    simp only [step] at h
    split at h
    · rename_i fn lockPtr held hcall
      cases h
      exact unlockExit_inv hi hcall (fun ht => hcall ▸ hn ht) ktime
    · cases h

variable (ignoreTgid tgid)

/-- In a run whose unlocks return with their own notes, every acquisition and every
    release of a rwlock has its one event, in order. -/
theorem events_mirror_locks {st : St} (h : Run (step ignoreTgid tgid) (OwnNote ignoreTgid tgid) init st) :
    Mirrored st :=
  (h.inv (init_inv ignoreTgid tgid) fun _ _ _ hi hn hs => step_inv hi hn hs).mirrored

/-- The first unlock that finds another note, or none, is missing or wrong from then on. -/
theorem foreign_note_breaks_the_mirror {e : Ev} {st st' : St} (hi : Inv ignoreTgid tgid st)
    (hn : ¬ OwnNote ignoreTgid tgid e st) (h : step ignoreTgid tgid e st = some st') :
    ¬ Mirrored st' := by
  cases e with
  | lockEnter | lockExit | unlockEnter => exact absurd trivial hn
  | unlockExit t ktime =>
    obtain ⟨ht, hnoted⟩ := Classical.not_imp.mp hn
    simp only [step] at h
    split at h
    · rename_i fn lockPtr held hcall
      cases h
      rw [hcall] at hnoted
      have hp := hi.pending t ht
      rw [hcall] at hp
      have hmirrored := hi.mirrored
      unfold Mirrored at hmirrored ⊢
      cases fn with
      | mutex => exact absurd trivial hnoted
      | rwlock =>
        rw [St.record, if_neg ht]
        rcases hl : latest st.ops lockPtr with _ | noted
        · have hm := recordUnlockExit_silent (current tgid t ktime) ht hp.1 (by rw [hi.noted, hl]; rfl)
          change UnlockFn.rwlock.exit ignoreTgid (current tgid t ktime) st.maps = _ at hm
          rw [hm]
          intro hmir
          rw [hmirrored, List.self_eq_append_right] at hmir
          cases held with
          | none => exact hnoted hl
          | some mode => cases hmir
        · have hm := recordUnlockExit_note (current tgid t ktime) ht rfl hp.1 (by rw [hi.noted, hl]; rfl)
          change UnlockFn.rwlock.exit ignoreTgid (current tgid t ktime) st.maps = _ at hm
          rw [hm]
          intro hmir
          rw [List.filterMap_append, hmirrored] at hmir
          have hev := List.filterMap_cons_some (op_unlock noted t lockPtr ktime) (l := [])
          have heq := hev.symm.trans (List.append_cancel_left hmir)
          cases held with
          | none => cases heq
          | some mode =>
            have hstatus : noted.unlockStatus = mode.unlockStatus := congrArg Op.lockStatus (List.cons.inj heq).1
            exact hnoted (hl.trans (congrArg some (Mode.unlockStatus_inj hstatus)))
    · cases h

/-! ## Threads 1 and 2 -/

def oneProcess (_ : Int32) : Int32 := 1

/-- Each thread a process of its own. -/
def ownProcess (t : Int32) : Int32 := t

def lock (t : Int32) (fn : LockFn) : List Ev := [.lockEnter t fn 64 0, .lockExit t 0 0]

def unlock (t : Int32) : List Ev := [.unlockEnter t .rwlock 64 0, .unlockExit t 0]

/-- A writer, a reader, and the other thread's failed attempt to write meanwhile. -/
theorem writer_then_reader :
    ∃ st, Run (step (-1) oneProcess) (OwnNote (-1) oneProcess) init st ∧
      st.ops = [⟨1, 64, 8⟩, ⟨1, 64, 9⟩, ⟨2, 64, 5⟩, ⟨2, 64, 6⟩] ∧ Mirrored st := by
  obtain ⟨st, hr, hs⟩ := run_of_execIf_any (step (-1) oneProcess) (OwnNote (-1) oneProcess) init
    (lock 1 .wrlock ++ unlock 1 ++ lock 2 .rdlock ++ [.lockEnter 1 .trywrlock 64 0, .lockExit 1 16 0] ++ unlock 2)
    (fun st => decide (st.ops = [⟨1, 64, 8⟩, ⟨1, 64, 9⟩, ⟨2, 64, 5⟩, ⟨2, 64, 6⟩])) (by decide +kernel)
  exact ⟨st, hr, of_decide_eq_true hs, events_mirror_locks (-1) oneProcess hr⟩

/-- Two readers: the first unlock deletes the note of both, the second has no event. -/
theorem second_reader_is_silent :
    ∃ st, Run (step (-1) oneProcess) anyEvent init st ∧
      st.ops = [⟨1, 64, 5⟩, ⟨2, 64, 5⟩, ⟨1, 64, 6⟩, ⟨2, 64, 6⟩] ∧ ¬ Mirrored st := by
  obtain ⟨st, hr, hs⟩ := run_of_exec_any (step (-1) oneProcess) init
    (lock 1 .rdlock ++ lock 2 .rdlock ++ unlock 1 ++ unlock 2)
    (fun st => decide (st.ops = [⟨1, 64, 5⟩, ⟨2, 64, 5⟩, ⟨1, 64, 6⟩, ⟨2, 64, 6⟩] ∧ ¬ Mirrored st))
    (by decide +kernel)
  obtain ⟨hops, hm⟩ := of_decide_eq_true hs
  exact ⟨st, hr, hops, hm⟩

/-- Locks of two processes at one address: the reader's unlock is reported as a writer's. -/
theorem equal_addresses_mix :
    ∃ st, Run (step (-1) ownProcess) anyEvent init st ∧
      st.ops = [⟨1, 64, 5⟩, ⟨2, 64, 8⟩, ⟨1, 64, 6⟩] ∧ ¬ Mirrored st := by
  obtain ⟨st, hr, hs⟩ := run_of_exec_any (step (-1) ownProcess) init
    (lock 1 .rdlock ++ lock 2 .wrlock ++ unlock 1)
    (fun st => decide (st.ops = [⟨1, 64, 5⟩, ⟨2, 64, 8⟩, ⟨1, 64, 6⟩] ∧ ¬ Mirrored st)) (by decide +kernel)
  obtain ⟨hops, hm⟩ := of_decide_eq_true hs
  exact ⟨st, hr, hops, hm⟩

end Ksight.ProcImage.LockImage

/-
  Ksight.Ipcwatcher.Shm — the shared file mappings of any threads
  (src/ipc/ipcwatcher/bpf/shm.bpf.c, include/shm_data.h).

  The entry probe of `mmap` notes the arguments of a shared file mapping under the ids of
  its thread; the exit probe submits what it finds there and deletes it. A thread makes
  one call at a time; it may be killed in it, which runs no exit probe, and its ids be
  used again.

  The law (`Paired`): an exit submits an event if and only if its call is a shared file
  mapping that succeeded, and the event is that of the call. `paired_iff`: the law holds at
  the end of a run if and only if every step met the condition (`Accounted`). The exit
  probe reads no result, so a failed mapping is reported (`failed_call_is_reported`); what
  a killed thread noted is kept by the next entry with its ids, and so reported for it
  (`killed_call_is_reported`).
-/

import Mathlib.Logic.Function.Basic
import Ksight.Lib.BoundedMap
import Ksight.Lib.Run

namespace Ksight.Ipcwatcher.Shm

open Ksight.Lib

def mapShared : UInt64 := 0x01

def mapAnonymous : UInt64 := 0x20

structure MmapTempKey where
  pid : UInt32
  tid : UInt32
  deriving DecidableEq

structure ShmMmapEnterData where
  pid : UInt32
  tid : UInt32
  len : UInt64
  prot : UInt64
  flags : UInt64
  fd : UInt64
  off : UInt64
  deriving DecidableEq

structure ShmTransferBasicData where
  timestamp : UInt64
  pid : UInt32
  len : UInt64
  prot : UInt64
  flags : UInt64
  fd : UInt64
  off : UInt64
  mmapAddr : UInt64
  deriving DecidableEq

/-- The map is declared with a pointer to its key, which has the same eight bytes. -/
abbrev ShmTempMap := BoundedMap MmapTempKey ShmMmapEnterData 1024

/-- What the entry probe reads of `ctx->args`. -/
structure MmapArgs where
  len : UInt64
  prot : UInt64
  flags : UInt64
  fd : UInt64
  off : UInt64

def MmapArgs.enterData (a : MmapArgs) (key : MmapTempKey) : ShmMmapEnterData :=
  ⟨key.pid, key.tid, a.len, a.prot, a.flags, a.fd, a.off⟩

def handleSyscallEnterMmap (key : MmapTempKey) (args : MmapArgs) (m : ShmTempMap) : ShmTempMap :=
  if args.flags &&& mapShared = 0 then m
  else if args.flags &&& mapAnonymous ≠ 0 then m
  else
    match m.lookupOrTryInit key (args.enterData key) with
    | some (_, m) => m
    | none => m

/-- `ret` is the result of the call, `ktime` the reading of the clock. -/
def handleSyscallExitMmap (key : MmapTempKey) (ktime ret : UInt64) (reserved : Bool) (m : ShmTempMap) :
    Option ShmTransferBasicData × ShmTempMap :=
  match m.lookup key with
  | none => (none, m)
  | some data =>
    if reserved then
      (some ⟨ktime / 1000, data.pid, data.len, data.prot, data.flags, data.fd, data.off, ret⟩, m.delete key)
    else (none, m.delete key)

/-- MAP_SHARED is set and MAP_ANONYMOUS clear. -/
def MmapArgs.isSharedFile (a : MmapArgs) : Bool := a.flags &&& mapShared ≠ 0 && a.flags &&& mapAnonymous = 0

/-- The result is one of the kernel's error numbers, -4095 to -1. -/
def isErr (ret : UInt64) : Bool := decide (2 ^ 64 - 4095 ≤ ret.toNat)

/-- The event of a call that returned `ret`. -/
def eventOf (data : ShmMmapEnterData) (ktime ret : UInt64) : ShmTransferBasicData :=
  ⟨ktime / 1000, data.pid, data.len, data.prot, data.flags, data.fd, data.off, ret⟩

/-- The entry of this call will be in the map: there is room for it, and no other one in its
    place. -/
def Notes (key : MmapTempKey) (args : MmapArgs) (m : ShmTempMap) : Prop :=
  m.lookup key = some (args.enterData key) ∨ m.lookup key = none ∧ m.HasRoom key

instance (key : MmapTempKey) (args : MmapArgs) (m : ShmTempMap) : Decidable (Notes key args m) :=
  inferInstanceAs (Decidable (_ ∨ _ ∧ _))

/-! ## What the probes do to one entry -/

theorem enter_other {args : MmapArgs} (h : args.isSharedFile = false) (key : MmapTempKey) (m : ShmTempMap) :
    handleSyscallEnterMmap key args m = m := by
  unfold handleSyscallEnterMmap
  by_cases hs : args.flags &&& mapShared = 0
  · rw [if_pos hs]
  · have ha : args.flags &&& mapAnonymous ≠ 0 := by simpa [MmapArgs.isSharedFile, hs] using h
    rw [if_neg hs, if_pos ha]

/-- The entry probe of a shared file mapping leaves its own data, or what was there. -/
theorem enter_sharedFile {args : MmapArgs} (h : args.isSharedFile = true) (key : MmapTempKey)
    (m : ShmTempMap) :
    ((handleSyscallEnterMmap key args m).lookup key = some (args.enterData key) ↔ Notes key args m) ∧
      (∀ data ∈ (handleSyscallEnterMmap key args m).lookup key,
        data = args.enterData key ∨ data ∈ m.lookup key) ∧
      ∀ k, k ≠ key → (handleSyscallEnterMmap key args m).lookup k = m.lookup k := by
  simp only [MmapArgs.isSharedFile, Bool.and_eq_true, decide_eq_true_eq] at h
  unfold handleSyscallEnterMmap Notes
  rw [if_neg h.1, if_neg (not_not.mpr h.2)]
  unfold BoundedMap.lookupOrTryInit
  rcases hl : m.lookup key with _ | data
  · by_cases hr : m.HasRoom key
    · obtain ⟨n, hu, hn⟩ := BoundedMap.update_room hr (args.enterData key)
      simp only [hu, Option.map_some]
      refine ⟨by simp [hn, hr], by simp [hn], fun k hk => ?_⟩
      rw [hn, if_neg hk]
    · have hu : m.update key (args.enterData key) = none := dif_neg hr
      simp [hu, hl, hr]
  · simp [hl]

/-- The exit probe submits the entry and deletes it. -/
theorem exit_spec (key : MmapTempKey) (ktime ret : UInt64) (m : ShmTempMap) :
    (handleSyscallExitMmap key ktime ret true m).1 = (m.lookup key).map (eventOf · ktime ret) ∧
      (handleSyscallExitMmap key ktime ret true m).2.lookup key = none ∧
      ∀ k, k ≠ key → (handleSyscallExitMmap key ktime ret true m).2.lookup k = m.lookup k := by
  unfold handleSyscallExitMmap
  rcases hl : m.lookup key with _ | data
  · simp [hl]
  · exact ⟨rfl, m.lookup_delete_self key, fun k hk => BoundedMap.lookup_delete_ne _ hk⟩

/-! ## Threads -/

/-- A call in progress; `noted` says that its entry probe found what `Notes` asks for. -/
structure Call where
  args : MmapArgs
  noted : Bool

/-- What an exit submitted, and what its call asks for. -/
structure Exit where
  emitted : Option ShmTransferBasicData
  due : Option ShmTransferBasicData
  deriving DecidableEq

structure St where
  shmTempMap : ShmTempMap
  calls : MmapTempKey → Option Call
  exits : List Exit

def init : St := ⟨.empty, fun _ => none, []⟩

inductive Ev where
  | sysEnter (key : MmapTempKey) (args : MmapArgs)
  | sysExit (key : MmapTempKey) (ktime ret : UInt64)
  /-- The thread is killed; its ids may be used again. -/
  | kill (key : MmapTempKey)

/-- A shared file mapping that succeeds. -/
def Call.isReportable (c : Call) (ret : UInt64) : Bool := c.args.isSharedFile && !isErr ret

/-- The call that returns `ret`, if it asks for an event. -/
def St.reportable (st : St) (key : MmapTempKey) (ret : UInt64) : Option Call :=
  (st.calls key).filter (·.isReportable ret)

/-- The event due at an exit. A call whose entry was not traced has none. -/
def St.due (st : St) (key : MmapTempKey) (ktime ret : UInt64) : Option ShmTransferBasicData :=
  (st.reportable key ret).map fun c => eventOf (c.args.enterData key) ktime ret

/-- The ring buffer never fills. -/
def step : Ev → St → Option St
  | .sysEnter key args, st =>
    if st.calls key = none then
      some { st with
        shmTempMap := handleSyscallEnterMmap key args st.shmTempMap
        calls := Function.update st.calls key (some ⟨args, decide (Notes key args st.shmTempMap)⟩) }
    else none
  | .sysExit key ktime ret, st =>
    let r := handleSyscallExitMmap key ktime ret true st.shmTempMap
    some {
      shmTempMap := r.2
      calls := Function.update st.calls key none
      exits := st.exits ++ [⟨r.1, st.due key ktime ret⟩] }
  | .kill key, st => some { st with calls := Function.update st.calls key none }

/-! ## The law -/

def Paired (st : St) : Prop := ∀ x ∈ st.exits, x.emitted = x.due

/-- The condition: a shared file mapping that succeeds was noted when it was entered; any
    other exit finds no entry of its thread. -/
def Accounted : Ev → St → Prop
  | .sysExit key _ ret, st =>
    (∀ c ∈ st.reportable key ret, c.noted = true) ∧
      (st.reportable key ret = none → st.shmTempMap.lookup key = none)
  | _, _ => True

instance : ∀ (e : Ev) (st : St), Decidable (Accounted e st)
  | .sysEnter .., _ => inferInstanceAs (Decidable True)
  | .kill _, _ => inferInstanceAs (Decidable True)
  | .sysExit .., _ => inferInstanceAs (Decidable (_ ∧ _))

structure Inv (st : St) : Prop where
  /-- A shared file mapping in progress has its own entry if and only if it was noted. -/
  kept : ∀ key, ∀ c ∈ st.calls key, c.args.isSharedFile = true →
    (st.shmTempMap.lookup key = some (c.args.enterData key) ↔ c.noted = true)
  /-- An entry is one of a thread with these ids. -/
  tid : ∀ key, ∀ data ∈ st.shmTempMap.lookup key, data.tid = key.tid

theorem init_inv : Inv init where
  kept _ _ hc := by cases hc
  tid _ _ hd := by simp [init] at hd

theorem sysEnter_inv {st : St} (hi : Inv st) (key : MmapTempKey) (args : MmapArgs) :
    Inv { st with
      shmTempMap := handleSyscallEnterMmap key args st.shmTempMap
      calls := Function.update st.calls key (some ⟨args, decide (Notes key args st.shmTempMap)⟩) } := by
  rcases hf : args.isSharedFile with _ | _
  · rw [enter_other hf]
    refine ⟨fun k c hc hs => ?_, hi.tid⟩
    by_cases e : k = key
    · subst e
      obtain rfl : (⟨args, _⟩ : Call) = c := by simpa using hc
      simp [hf] at hs
    · exact hi.kept k c (by simpa [e] using hc) hs
  · obtain ⟨hself, htid, hne⟩ := enter_sharedFile hf key st.shmTempMap
    constructor
    · intro k c hc hs
      by_cases e : k = key
      · subst e
        obtain rfl : (⟨args, decide (Notes k args st.shmTempMap)⟩ : Call) = c := by simpa using hc
        simpa using hself
      · show (handleSyscallEnterMmap key args st.shmTempMap).lookup k = _ ↔ _
        rw [hne k e]
        exact hi.kept k c (by simpa [e] using hc) hs
    · intro k data hd
      by_cases e : k = key
      · subst e
        rcases htid data hd with rfl | h
        · rfl
        · exact hi.tid k data h
      · exact hi.tid k data (hne k e ▸ hd)

theorem sysExit_inv {st : St} (hi : Inv st) (key : MmapTempKey) (ktime ret : UInt64) (exits : List Exit) :
    Inv ⟨(handleSyscallExitMmap key ktime ret true st.shmTempMap).2, Function.update st.calls key none,
      exits⟩ := by
  obtain ⟨-, hself, hne⟩ := exit_spec key ktime ret st.shmTempMap
  constructor
  · intro k c hc hs
    by_cases e : k = key
    · subst e
      simp at hc
    · show (handleSyscallExitMmap key ktime ret true st.shmTempMap).2.lookup k = _ ↔ _
      rw [hne k e]
      exact hi.kept k c (by simpa [e] using hc) hs
  · intro k data hd
    by_cases e : k = key
    · subst e
      simp [hself] at hd
    · exact hi.tid k data (hne k e ▸ hd)

theorem kill_inv {st : St} (hi : Inv st) (key : MmapTempKey) :
    Inv { st with calls := Function.update st.calls key none } := by
  refine ⟨fun k c hc hs => ?_, hi.tid⟩
  by_cases e : k = key
  · subst e
    simp at hc
  · exact hi.kept k c (by simpa [e] using hc) hs

theorem step_inv {e : Ev} {st st' : St} (hi : Inv st) (h : step e st = some st') : Inv st' := by
  cases e with
  | sysEnter key args =>
    simp only [step, Option.ite_none_right_eq_some, Option.some.injEq] at h
    obtain ⟨-, rfl⟩ := h
    exact sysEnter_inv hi key args
  | sysExit key ktime ret =>
    cases h
    exact sysExit_inv hi key ktime ret _
  | kill key =>
    cases h
    exact kill_inv hi key

theorem eventOf_inj {d d' : ShmMmapEnterData} (ht : d.tid = d'.tid) {ktime ret : UInt64}
    (h : eventOf d ktime ret = eventOf d' ktime ret) : d = d' := by
  cases d
  cases d'
  simp only [eventOf, ShmTransferBasicData.mk.injEq] at h
  simp_all

/-- What the exit of a call submits is due if and only if the step meets the condition. -/
theorem exit_due_iff {st : St} (hi : Inv st) (key : MmapTempKey) (ktime ret : UInt64) :
    (handleSyscallExitMmap key ktime ret true st.shmTempMap).1 = st.due key ktime ret ↔
      Accounted (.sysExit key ktime ret) st := by
  rw [(exit_spec key ktime ret st.shmTempMap).1]
  unfold St.due
  simp only [Accounted]
  rcases hr : st.reportable key ret with _ | c
  · simp
  · obtain ⟨hc, hrep⟩ := Option.filter_eq_some_iff.mp hr
    have hs : c.args.isSharedFile = true := by
      simp only [Call.isReportable, Bool.and_eq_true] at hrep
      exact hrep.1
    have hkept := hi.kept key c hc hs
    simp only [Option.map_some, Option.mem_def, Option.some.injEq, forall_eq', reduceCtorEq, false_implies,
      and_true]
    rw [← hkept, Option.map_eq_some_iff]
    constructor
    · intro h
      obtain ⟨data, hd, he⟩ := h
      rw [hd, eventOf_inj (hi.tid key data hd) he]
    · intro h
      exact ⟨_, h, rfl⟩

theorem step_paired {e : Ev} {st st' : St} (hi : Inv st) (h : step e st = some st') :
    Paired st' ↔ Paired st ∧ Accounted e st := by
  cases e with
  | sysEnter key args =>
    simp only [step, Option.ite_none_right_eq_some, Option.some.injEq] at h
    obtain ⟨-, rfl⟩ := h
    simp [Paired, Accounted]
  | sysExit key ktime ret =>
    cases h
    rw [← exit_due_iff hi key ktime ret]
    simp [Paired, or_imp, forall_and]
  | kill key =>
    cases h
    simp [Paired, Accounted]

/-- The exits of a run submit what is due, and nothing else, if and only if each step of
    the run met the condition. -/
theorem paired_iff {es : List Ev} {st : St} (h : exec step es init = some st) :
    Paired st ↔ execIf step Accounted es init = some st :=
  holds_iff_of_step (fun _ _ _ => step_inv) (fun _ _ _ => step_paired) init_inv (by simp [Paired, init]) h

/-! ## Threads 7 and 8 of process 7 -/

def thread (tid : UInt32) : MmapTempKey := ⟨7, tid⟩

/-- A mapping of a page of file 3. -/
def mapping (flags : UInt64) : MmapArgs := ⟨4096, 3, flags, 3, 0⟩

/-- Two shared mappings that overlap, with a private one between their exits. -/
def overlapping : List Ev :=
  [.sysEnter (thread 7) (mapping 1), .sysEnter (thread 8) (mapping 1), .sysExit (thread 7) 1000 0x7000,
    .sysEnter (thread 7) (mapping 2), .sysExit (thread 7) 2000 0x8000, .sysExit (thread 8) 3000 0x9000]

theorem overlapping_calls_are_paired :
    ∃ st, exec step overlapping init = some st ∧
      st.exits.filterMap Exit.emitted =
        [⟨1, 7, 4096, 3, 1, 3, 0, 0x7000⟩, ⟨3, 7, 4096, 3, 1, 3, 0, 0x9000⟩] ∧ Paired st := by
  obtain ⟨st, hexec, hif, hs⟩ := execIf_any step Accounted init overlapping
    (fun st => decide (st.exits.filterMap Exit.emitted =
      [⟨1, 7, 4096, 3, 1, 3, 0, 0x7000⟩, ⟨3, 7, 4096, 3, 1, 3, 0, 0x9000⟩])) (by decide +kernel)
  exact ⟨st, hexec, of_decide_eq_true hs, (paired_iff hexec).mpr hif⟩

/-- A call that fails with EBADF has an event, whose address is -9. -/
theorem failed_call_is_reported : ∃ st, Run step anyEvent init st ∧ ¬ Paired st := by
  obtain ⟨st, hr, hs⟩ := run_of_exec_any step init
    [.sysEnter (thread 7) (mapping 1), .sysExit (thread 7) 1000 (-9)]
    (fun st => decide (st.exits = [⟨some ⟨1, 7, 4096, 3, 1, 3, 0, -9⟩, none⟩])) (by decide +kernel)
  refine ⟨st, hr, fun hp => ?_⟩
  have := hp _ (of_decide_eq_true hs ▸ List.mem_singleton_self _)
  cases this

/-- A thread is killed in its call; the private mapping of the next thread with its ids is
    reported with the arguments of that call. -/
theorem killed_call_is_reported : ∃ st, Run step anyEvent init st ∧ ¬ Paired st := by
  obtain ⟨st, hr, hs⟩ := run_of_exec_any step init
    [.sysEnter (thread 7) (mapping 1), .kill (thread 7), .sysEnter (thread 7) (mapping 2),
      .sysExit (thread 7) 2000 0x8000]
    (fun st => decide (st.exits = [⟨some ⟨2, 7, 4096, 3, 1, 3, 0, 0x8000⟩, none⟩])) (by decide +kernel)
  refine ⟨st, hr, fun hp => ?_⟩
  have := hp _ (of_decide_eq_true hs ▸ List.mem_singleton_self _)
  cases this

end Ksight.Ipcwatcher.Shm

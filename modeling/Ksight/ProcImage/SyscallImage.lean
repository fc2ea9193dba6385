/-
  Ksight.ProcImage.SyscallImage — the probes on system calls
  (src/process/proc_image/bpf/syscall_image.bpf.c, src/proc_image.c: `parse_arg`).

  The calls of a thread are gathered in its entry of `proc_syscall`, and submitted as one
  record when the entry has `syscalls` of them, the number that option -s gives.
-/

import Ksight.Lib.BoundedMap
import Ksight.ProcImage.Current

namespace Ksight.ProcImage.SyscallImage

open Ksight.Lib

abbrev maxSyscallCount : Nat := 50

structure SyscallSeq where
  pid : Int32
  enterTime : UInt64
  sumDelay : UInt64
  maxDelay : UInt64
  count : Int
  recordSyscall : Vector Int32 maxSyscallCount

/-- A submitted record: the fields that sys_exit fills, and of the array the elements. -/
structure Batch where
  pid : Int32
  sumDelay : UInt64
  maxDelay : UInt64
  count : Int
  recordSyscall : List Int32
  deriving DecidableEq

def maxEntries : Nat := 10240

structure Maps where
  procSyscall : BoundedMap Int32 SyscallSeq maxEntries
  syscallRb : List Batch

def Maps.empty : Maps := ⟨.empty, []⟩

/-- Option -s: the check of `parse_arg`, which exits with the usage, and the assignment of
    the `long` to an `int`. -/
def parseSyscalls (syscalls : Int) : Option Int :=
  if syscalls ≤ 0 ∧ syscalls > 50 then none else some (syscalls.bmod (2 ^ 32))

/-- The entry of a first call. -/
def SyscallSeq.first (pid id : Int32) (now : UInt64) : SyscallSeq :=
  ⟨pid, now, 0, 0, 1, (Vector.replicate maxSyscallCount 0).setIfInBounds 0 id⟩

/-- A call of a batch that is not complete; the last comparison is one of addresses. -/
def SyscallSeq.next (e : SyscallSeq) (id : Int32) (now : UInt64) : SyscallSeq :=
  let e := { e with enterTime := now }
  let last : Int := maxSyscallCount - 1
  if e.count ≤ last ∧ e.count > 0 ∧ e.count ≤ last then
    { e with recordSyscall := e.recordSyscall.setIfInBounds e.count.toNat id, count := e.count + 1 }
  else e

def SyscallSeq.delay (e : SyscallSeq) (thisDelay : UInt64) : SyscallSeq :=
  { e with
    sumDelay := e.sumDelay + thisDelay
    maxDelay := if thisDelay > e.maxDelay then thisDelay else e.maxDelay }

/-- The elements that the loop of sys_exit copies. -/
def SyscallSeq.listed (e : SyscallSeq) : List Int32 := e.recordSyscall.toList.take e.count.toNat

def SyscallSeq.batch (e : SyscallSeq) : Batch := ⟨e.pid, e.sumDelay, e.maxDelay, e.count, e.listed⟩

/-! ## One entry -/

@[simp] theorem listed_first (pid id : Int32) (now : UInt64) : (SyscallSeq.first pid id now).listed = [id] := rfl

@[simp] theorem listed_delay (e : SyscallSeq) (d : UInt64) : (e.delay d).listed = e.listed := rfl

/-- The condition on the count under which the number of a call is written. -/
theorem next_eq {e : SyscallSeq} (h0 : 0 < e.count) (h : e.count < maxSyscallCount) (id : Int32) (now : UInt64) :
    e.next id now =
      { e with
        enterTime := now
        recordSyscall := e.recordSyscall.setIfInBounds e.count.toNat id
        count := e.count + 1 } := by
  have hle : e.count ≤ (maxSyscallCount : Int) - 1 := by omega
  exact if_pos ⟨hle, h0, hle⟩

theorem listed_next {e : SyscallSeq} (h0 : 0 < e.count) (h : e.count < maxSyscallCount) (id : Int32) (now : UInt64) :
    (e.next id now).listed = e.listed ++ [id] := by
  have hlen : e.count.toNat < e.recordSyscall.toList.length := by
    rw [Vector.length_toList]
    omega
  rw [next_eq h0 h, SyscallSeq.listed, SyscallSeq.listed, Int.toNat_add h0.le Int.one_nonneg,
    Int.toNat_one, Vector.toList_setIfInBounds, List.take_add_one, List.take_set_of_le (Nat.le_refl _),
    List.getElem?_set_self hlen]
  rfl

theorem pid_next (e : SyscallSeq) (id : Int32) (now : UInt64) : (e.next id now).pid = e.pid := by
  unfold SyscallSeq.next
  dsimp only
  split <;> rfl

/-- Past the end of the array only the time is written. -/
theorem listed_next_full {e : SyscallSeq} (h : maxSyscallCount ≤ e.count) (id : Int32) (now : UInt64) :
    (e.next id now).listed = e.listed := by
  have hn : ¬ (e.count ≤ (maxSyscallCount : Int) - 1 ∧ e.count > 0 ∧ e.count ≤ (maxSyscallCount : Int) - 1) := by
    omega
  rw [SyscallSeq.next, if_neg hn]
  rfl

/-- A call adds one number at most. -/
theorem length_listed_next (e : SyscallSeq) (id : Int32) (now : UInt64) :
    (e.next id now).listed.length ≤ e.listed.length + 1 := by
  unfold SyscallSeq.next
  dsimp only
  split
  · simp only [SyscallSeq.listed, List.length_take, Vector.length_toList]
    omega
  · exact Nat.le_succ _

variable (f : Filter) (syscalls : Int)

def sysEnter (cur : Current) (id : Int32) (m : Maps) : Maps :=
  if f.traces cur.pid cur.tgid then
    match m.procSyscall.lookup cur.pid with
    | none =>
      { m with procSyscall := (m.procSyscall.update cur.pid (.first cur.pid id cur.ktime)).getD m.procSyscall }
    | some e =>
      if e.count < syscalls then { m with procSyscall := m.procSyscall.modify cur.pid (·.next id cur.ktime) } else m
  else m

def sysExit (cur : Current) (m : Maps) : Maps :=
  if f.traces cur.pid cur.tgid then
    match m.procSyscall.lookup cur.pid with
    | none => m
    | some e =>
      let e := e.delay (cur.ktime - e.enterTime)
      if e.count < syscalls then { m with procSyscall := m.procSyscall.modify cur.pid fun _ => e }
      else if cur.reserve then
        { procSyscall := m.procSyscall.delete cur.pid, syscallRb := m.syscallRb ++ [e.batch] }
      else { m with procSyscall := m.procSyscall.modify cur.pid fun _ => e }
  else m

/-! ## What a probe does -/

/-- A call is not noticed, is the first of an entry, or the next one. -/
theorem sysEnter_cases (cur : Current) (id : Int32) (m : Maps) :
    (sysEnter f syscalls cur id m = m ∧ (f.traces cur.pid cur.tgid = false ∨
        (m.procSyscall.lookup cur.pid = none ∧ ¬ m.procSyscall.HasRoom cur.pid) ∨
        ∃ e, m.procSyscall.lookup cur.pid = some e ∧ syscalls ≤ e.count)) ∨
      ((sysEnter f syscalls cur id m).syscallRb = m.syscallRb ∧ ∃ e',
        (∀ k, (sysEnter f syscalls cur id m).procSyscall.lookup k =
          if k = cur.pid then some e' else m.procSyscall.lookup k) ∧
        ((m.procSyscall.lookup cur.pid = none ∧ m.procSyscall.HasRoom cur.pid ∧
            e' = .first cur.pid id cur.ktime) ∨
          ∃ e, m.procSyscall.lookup cur.pid = some e ∧ e.count < syscalls ∧ e' = e.next id cur.ktime)) := by
  unfold sysEnter
  by_cases ht : f.traces cur.pid cur.tgid = true
  · rw [if_pos ht]
    rcases hl : m.procSyscall.lookup cur.pid with _ | e
    · by_cases hroom : m.procSyscall.HasRoom cur.pid
      · obtain ⟨n, hn, hnl⟩ := BoundedMap.update_room hroom (.first cur.pid id cur.ktime)
        simp only [hn, Option.getD_some]
        exact .inr ⟨trivial, _, hnl, .inl ⟨trivial, hroom, rfl⟩⟩
      · have hn : m.procSyscall.update cur.pid (.first cur.pid id cur.ktime) = none := dif_neg hroom
        simp only [hn, Option.getD_none]
        exact .inl ⟨trivial, .inr (.inl ⟨trivial, hroom⟩)⟩
    · by_cases hc : e.count < syscalls
      · simp only [if_pos hc]
        refine .inr ⟨trivial, e.next id cur.ktime, fun k => ?_, .inr ⟨e, rfl, hc, rfl⟩⟩
        rw [BoundedMap.lookup_modify, hl]
        rfl
      · simp only [if_neg hc]
        exact .inl ⟨trivial, .inr (.inr ⟨e, rfl, not_lt.mp hc⟩)⟩
  · rw [if_neg ht]
    exact .inl ⟨rfl, .inl (Bool.not_eq_true _ ▸ ht)⟩

/-- A return is not noticed, adds its delay to the entry, or submits the entry with it. -/
theorem sysExit_cases (cur : Current) (m : Maps) :
    (sysExit f syscalls cur m = m ∧
        (f.traces cur.pid cur.tgid = false ∨ m.procSyscall.lookup cur.pid = none)) ∨
      ∃ e e', m.procSyscall.lookup cur.pid = some e ∧ e' = e.delay (cur.ktime - e.enterTime) ∧
        (((e.count < syscalls ∨ cur.reserve = false) ∧
            (sysExit f syscalls cur m).syscallRb = m.syscallRb ∧
            (∀ k, (sysExit f syscalls cur m).procSyscall.lookup k =
              if k = cur.pid then some e' else m.procSyscall.lookup k)) ∨
          (syscalls ≤ e.count ∧ cur.reserve = true ∧
            (sysExit f syscalls cur m).syscallRb = m.syscallRb ++ [e'.batch] ∧
            ∀ k, (sysExit f syscalls cur m).procSyscall.lookup k =
              if k = cur.pid then none else m.procSyscall.lookup k)) := by
  unfold sysExit
  by_cases ht : f.traces cur.pid cur.tgid = true
  · rw [if_pos ht]
    rcases hl : m.procSyscall.lookup cur.pid with _ | e
    · exact .inl ⟨rfl, .inr rfl⟩
    · refine .inr ⟨e, _, rfl, rfl, ?_⟩
      have hmodify : ∀ k, (m.procSyscall.modify cur.pid fun _ => e.delay (cur.ktime - e.enterTime)).lookup k =
          if k = cur.pid then some (e.delay (cur.ktime - e.enterTime)) else m.procSyscall.lookup k := by
        intro k
        rw [BoundedMap.lookup_modify, hl]
        rfl
      by_cases hc : (e.delay (cur.ktime - e.enterTime)).count < syscalls
      · simp only [if_pos hc]
        exact .inl ⟨.inl hc, trivial, hmodify⟩
      · by_cases hr : cur.reserve = true
        · simp only [if_neg hc, if_pos hr]
          exact .inr ⟨not_lt.mp hc, hr, trivial, BoundedMap.lookup_delete _ _⟩
        · simp only [if_neg hc, if_neg hr]
          exact .inl ⟨.inr (Bool.eq_false_iff.mpr hr), trivial, hmodify⟩
  · rw [if_neg ht]
    exact .inl ⟨rfl, .inl (Bool.not_eq_true _ ▸ ht)⟩

end Ksight.ProcImage.SyscallImage

/-
  Ksight.ProcImage.SyscallBatch — the batches of a thread's system calls
  (src/process/proc_image/bpf/syscall_image.bpf.c).

  Threads enter and leave system calls, each in turn, in any order with the others. The
  law for a traced thread (`Faithful`): the numbers of its batches and those of its entry
  are the numbers of its calls, every batch has `syscalls` of them, and its delays are the
  sum and the maximum of those of the calls it lists.

  `faithful_iff`: the law holds at the end of a run if and only if every step met the
  condition (`Gathers`). A call must find the map with room or the entry with fewer than
  `syscalls` calls, and fewer than the 50 of the array; a batch must not be submitted when
  `syscalls` is not positive. So a reservation that fails loses the next call
  (`failed_reserve_loses_a_call`). The check of `parse_arg` excludes no value
  (`parseSyscalls_accepts`), and outside 1 to 50 the law fails with no such help: with more
  at the 51st call, with less at the first batch (`batch_of_none_has_one`).
-/

import Mathlib.Algebra.Ring.Nat
import Mathlib.Data.List.Forall2
import Mathlib.Logic.Function.Basic
import Ksight.Lib.Run
import Ksight.ProcImage.SyscallImage

namespace Ksight.ProcImage.SyscallImage

open Ksight.Lib

theorem parseSyscalls_accepts (syscalls : Int) : parseSyscalls syscalls = some (syscalls.bmod (2 ^ 32)) :=
  if_neg (by omega)

/-- A system call that has returned. -/
structure Call where
  id : Int32
  enter : UInt64
  exit : UInt64
  deriving DecidableEq

def Call.delay (c : Call) : Nat := c.exit.toNat - c.enter.toNat

structure St where
  maps : Maps
  clock : UInt64
  calls : Int32 → List Call
  /-- The call each thread is in, and when it entered it. -/
  inCall : Int32 → Option (Int32 × UInt64)

def init : St := ⟨.empty, 0, fun _ => [], fun _ => none⟩

inductive Ev where
  | sysEnter (pid id : Int32) (now : UInt64)
  | sysExit (pid : Int32) (now : UInt64) (reserve : Bool)

def Ev.pid : Ev → Int32
  | .sysEnter pid _ _ => pid
  | .sysExit pid _ _ => pid

variable (f : Filter) (syscalls : Int) (tgid : Int32 → Int32)

def step : Ev → St → Option St
  | .sysEnter pid id now, st =>
    if (st.inCall pid).isNone ∧ st.clock ≤ now then
      some { st with
        maps := sysEnter f syscalls ⟨pid, tgid pid, now, true⟩ id st.maps
        clock := now
        inCall := Function.update st.inCall pid (some (id, now)) }
    else none
  | .sysExit pid now reserve, st =>
    match st.inCall pid with
    | some (id, enter) =>
      if st.clock ≤ now then
        some { st with
          maps := sysExit f syscalls ⟨pid, tgid pid, now, reserve⟩ st.maps
          clock := now
          calls := Function.update st.calls pid (st.calls pid ++ [⟨id, enter, now⟩])
          inCall := Function.update st.inCall pid none }
      else none
    | none => none

/-! ## The law -/

def St.batches (st : St) (pid : Int32) : List Batch := st.maps.syscallRb.filter fun b => b.pid = pid

/-- The numbers in the entry of a thread. -/
def St.pending (st : St) (pid : Int32) : List Int32 := ((st.maps.procSyscall.lookup pid).map SyscallSeq.listed).getD []

/-- The numbers reported for a thread, and those of its calls. -/
def St.recorded (st : St) (pid : Int32) : List Int32 :=
  (st.batches pid).flatMap Batch.recordSyscall ++ st.pending pid

def St.entered (st : St) (pid : Int32) : List Int32 := ((st.inCall pid).map Prod.fst).toList

def St.ids (st : St) (pid : Int32) : List Int32 := (st.calls pid).map Call.id ++ st.entered pid

def totalDelay (calls : List Call) : Nat := (calls.map Call.delay).sum

def longestDelay (calls : List Call) : Nat := (calls.map Call.delay).foldl max 0

/-- A batch lists these calls, and has their delays. -/
structure Batch.Lists (b : Batch) (calls : List Call) : Prop where
  ids : b.recordSyscall = calls.map Call.id
  sum : b.sumDelay.toNat = totalDelay calls
  max : b.maxDelay.toNat = longestDelay calls

structure Faithful (st : St) (pid : Int32) : Prop where
  recorded : st.recorded pid = st.ids pid
  count : ∀ b ∈ st.batches pid, b.count = syscalls ∧ b.recordSyscall.length = b.count
  /-- The batches list the calls of the thread from the first one on. -/
  delays : ∃ chunks rest, st.calls pid = chunks.flatten ++ rest ∧ List.Forall₂ Batch.Lists (st.batches pid) chunks

/-- The condition on the steps of one thread. -/
def Gathers (pid : Int32) : Ev → St → Prop
  | .sysEnter p _ _, st => p = pid →
    (st.maps.procSyscall.lookup pid = none ∧ st.maps.procSyscall.HasRoom pid) ∨
      ∃ e ∈ st.maps.procSyscall.lookup pid, e.count < syscalls ∧ e.count < maxSyscallCount
  | .sysExit p _ reserve, _ => p = pid → syscalls ≤ 0 → reserve = false

instance (pid : Int32) : ∀ (e : Ev) (st : St), Decidable (Gathers syscalls pid e st)
  | .sysEnter .., _ => inferInstanceAs (Decidable (_ → _ ∨ _))
  | .sysExit .., _ => inferInstanceAs (Decidable (_ → _))

/-! ## The calls of an entry -/

/-- The entry of a thread lists the calls `rest` that have returned and the one it is in. -/
structure Gathered (inCall : Option (Int32 × UInt64)) (e : SyscallSeq) (rest : List Call) : Prop where
  listed : e.listed = rest.map Call.id ++ (inCall.map Prod.fst).toList
  count : e.count = e.listed.length
  pos : 0 < e.count
  limit : 0 < syscalls → e.count ≤ syscalls
  sum : e.sumDelay.toNat = totalDelay rest
  max : e.maxDelay.toNat = longestDelay rest
  enter : ∀ id t, inCall = some (id, t) → e.enterTime = t

variable {syscalls}

theorem totalDelay_snoc (calls : List Call) (c : Call) : totalDelay (calls ++ [c]) = totalDelay calls + c.delay := by
  simp [totalDelay]

theorem longestDelay_snoc (calls : List Call) (c : Call) :
    longestDelay (calls ++ [c]) = max (longestDelay calls) c.delay := by
  simp [longestDelay]

/-- A thread's calls take no longer than the time that passes. -/
theorem totalDelay_next {calls : List Call} (id : Int32) {enter now : UInt64} (h : totalDelay calls ≤ enter.toNat)
    (hle : enter ≤ now) : totalDelay (calls ++ [⟨id, enter, now⟩]) ≤ now.toNat := by
  have hle' : enter.toNat ≤ now.toNat := hle
  rw [totalDelay_snoc]
  simp only [Call.delay]
  omega

theorem totalDelay_append (a b : List Call) : totalDelay (a ++ b) = totalDelay a + totalDelay b := by
  simp [totalDelay]

theorem gathered_first (pid id : Int32) (now : UInt64) :
    Gathered syscalls (some (id, now)) (.first pid id now) [] where
  listed := rfl
  count := rfl
  pos := Int.one_pos
  limit h := h
  sum := rfl
  max := rfl
  enter _ _ h := by cases h; rfl

theorem gathered_next {e : SyscallSeq} {rest : List Call} (hg : Gathered syscalls none e rest)
    (hlt : e.count < syscalls) (hroom : e.count < maxSyscallCount) (id : Int32) (now : UInt64) :
    Gathered syscalls (some (id, now)) (e.next id now) rest := by
  have hl := listed_next hg.pos hroom id now
  have heq := next_eq hg.pos hroom id now
  have hcount : (e.next id now).count = e.count + 1 := by rw [heq]
  refine ⟨?_, ?_, ?_, fun _ => ?_, ?_, ?_, ?_⟩
  · rw [hl, hg.listed]
    simp
  · rw [hcount, hl, hg.count]
    simp
  · have := hg.pos
    omega
  · omega
  · rw [heq]
    exact hg.sum
  · rw [heq]
    exact hg.max
  · intro id' t h
    cases h
    rw [heq]

theorem gathered_delay {e : SyscallSeq} {rest : List Call} {id : Int32} {enter now : UInt64}
    (hg : Gathered syscalls (some (id, enter)) e rest) (hle : enter ≤ now) (hrest : totalDelay rest ≤ enter.toNat) :
    Gathered syscalls none (e.delay (now - e.enterTime)) (rest ++ [⟨id, enter, now⟩]) := by
  have hd : (now - e.enterTime).toNat = Call.delay ⟨id, enter, now⟩ := by
    rw [hg.enter id enter rfl]
    exact UInt64.toNat_sub_of_le _ _ hle
  have hnow := now.toNat_lt
  have hle' : enter.toNat ≤ now.toNat := hle
  refine ⟨?_, hg.count, hg.pos, hg.limit, ?_, ?_, fun _ _ h => by cases h⟩
  · rw [listed_delay, hg.listed]
    simp
  · show (e.sumDelay + (now - e.enterTime)).toNat = _
    rw [UInt64.toNat_add, hd, hg.sum, totalDelay_snoc, Nat.mod_eq_of_lt]
    simp only [Call.delay]
    omega
  · rw [longestDelay_snoc, ← hg.max, ← hd]
    show (if now - e.enterTime > e.maxDelay then now - e.enterTime else e.maxDelay).toNat = _
    split
    · rename_i h
      exact (Nat.max_eq_right (Nat.le_of_lt h)).symm
    · rename_i h
      exact (Nat.max_eq_left (Nat.le_of_not_lt h)).symm

theorem gathered_lists {e : SyscallSeq} {rest : List Call} (hg : Gathered syscalls none e rest) :
    e.batch.Lists rest where
  ids := by
    rw [SyscallSeq.batch, hg.listed]
    simp
  sum := hg.sum
  max := hg.max

theorem flatMap_record {bs : List Batch} {chunks : List (List Call)} (h : List.Forall₂ Batch.Lists bs chunks) :
    bs.flatMap Batch.recordSyscall = chunks.flatten.map Call.id := by
  induction h with
  | nil => rfl
  | cons hb _ ih => rw [List.flatMap_cons, List.flatten_cons, List.map_append, hb.ids, ih]

/-! ## The batches of a thread -/

variable (syscalls)

/-- The calls of the thread are those of its batches, in order, and `rest` is in its entry. -/
structure Split (pid : Int32) (st : St) (chunks : List (List Call)) (rest : List Call) : Prop where
  calls : st.calls pid = chunks.flatten ++ rest
  batches : List.Forall₂ Batch.Lists (st.batches pid) chunks
  count : ∀ b ∈ st.batches pid, b.count = syscalls ∧ b.recordSyscall.length = b.count
  absent : st.maps.procSyscall.lookup pid = none → rest = [] ∧ st.inCall pid = none
  present : ∀ e, st.maps.procSyscall.lookup pid = some e → Gathered syscalls (st.inCall pid) e rest
  entered : ∀ id t, st.inCall pid = some (id, t) → t ≤ st.clock
  /-- The calls of one thread do not overlap, so their delays fit the clock. -/
  elapsed : totalDelay (st.calls pid) ≤ ((st.inCall pid).elim st.clock Prod.snd).toNat

/-- An entry has the pid it is under. -/
def Keyed (st : St) : Prop := ∀ p e, st.maps.procSyscall.lookup p = some e → e.pid = p

def Inv (pid : Int32) (st : St) : Prop := Keyed st ∧ ∃ chunks rest, Split syscalls pid st chunks rest

theorem init_inv (pid : Int32) : Inv syscalls pid init := by
  refine ⟨fun p e h => (by cases h), [], [], ⟨rfl, .nil, fun b hb => (by cases hb), fun _ => ⟨rfl, rfl⟩,
    fun e h => (by cases h), fun id t h => (by cases h), Nat.zero_le _⟩⟩

variable {syscalls}

theorem inv_faithful {pid : Int32} {st : St} (hi : Inv syscalls pid st) : Faithful syscalls st pid := by
  obtain ⟨-, chunks, rest, hs⟩ := hi
  refine ⟨?_, hs.count, chunks, rest, hs.calls, hs.batches⟩
  unfold St.recorded St.ids St.pending St.entered
  rw [flatMap_record hs.batches, hs.calls, List.map_append, List.append_assoc]
  congr 1
  rcases hl : st.maps.procSyscall.lookup pid with _ | e
  · obtain ⟨hr, hc⟩ := hs.absent hl
    rw [hr, hc]
    rfl
  · exact (hs.present e hl).listed

/-- Nothing of the thread has changed. -/
structure Unchanged (pid : Int32) (st st' : St) : Prop where
  entry : st'.maps.procSyscall.lookup pid = st.maps.procSyscall.lookup pid
  batches : st'.batches pid = st.batches pid
  calls : st'.calls pid = st.calls pid
  inCall : st'.inCall pid = st.inCall pid
  clock : st.clock ≤ st'.clock

theorem split_unchanged {pid : Int32} {st st' : St} {chunks : List (List Call)} {rest : List Call}
    (hs : Split syscalls pid st chunks rest) (h : Unchanged pid st st') :
    Split syscalls pid st' chunks rest where
  calls := h.calls ▸ hs.calls
  batches := h.batches ▸ hs.batches
  count := h.batches ▸ hs.count
  absent := by
    rw [h.entry, h.inCall]
    exact hs.absent
  present := by
    rw [h.entry, h.inCall]
    exact hs.present
  entered := by
    rw [h.inCall]
    exact fun id t hin => UInt64.le_trans (hs.entered id t hin) h.clock
  elapsed := by
    rw [h.calls, h.inCall]
    refine hs.elapsed.trans ?_
    cases st.inCall pid with
    | none => exact h.clock
    | some c => exact Nat.le_refl _

/-! ## One step -/

variable {f : Filter} {tgid : Int32 → Int32} {pid : Int32}

theorem sysEnter_keyed {st : St} (hk : Keyed st) (cur : Current) (id : Int32) :
    ∀ p e, (sysEnter f syscalls cur id st.maps).procSyscall.lookup p = some e → e.pid = p := by
  rcases sysEnter_cases f syscalls cur id st.maps with ⟨hm, -⟩ | ⟨-, e', hl, he'⟩
  · rw [hm]
    exact hk
  · intro p e he
    rw [hl] at he
    split at he
    · rename_i hp
      cases he
      rcases he' with ⟨-, -, rfl⟩ | ⟨e, he, -, rfl⟩
      · exact hp.symm
      · rw [pid_next, hk _ e he, hp]
    · exact hk p e he

theorem sysExit_keyed {st : St} (hk : Keyed st) (cur : Current) :
    ∀ p e, (sysExit f syscalls cur st.maps).procSyscall.lookup p = some e → e.pid = p := by
  rcases sysExit_cases f syscalls cur st.maps with ⟨hm, -⟩ | ⟨e, e', he, rfl, ⟨-, -, hl⟩ | ⟨-, -, -, hl⟩⟩
  · rw [hm]
    exact hk
  · intro p e'' h
    rw [hl] at h
    split at h
    · rename_i hp
      cases h
      rw [hp]
      exact hk _ e he
    · exact hk p e'' h
  · intro p e'' h
    rw [hl] at h
    split at h
    · cases h
    · exact hk p e'' h

variable (syscalls f) in
/-- Another thread's call leaves the records of this one. -/
theorem sysEnter_frame (cur : Current) (h : pid ≠ cur.pid) (id : Int32) (m : Maps) :
    (sysEnter f syscalls cur id m).procSyscall.lookup pid = m.procSyscall.lookup pid ∧
      (sysEnter f syscalls cur id m).syscallRb = m.syscallRb := by
  rcases sysEnter_cases f syscalls cur id m with ⟨hm, -⟩ | ⟨hrb, e', hl, -⟩
  · rw [hm]
    exact ⟨rfl, rfl⟩
  · exact ⟨by rw [hl, if_neg h], hrb⟩

variable (syscalls f) in
theorem sysExit_frame {st : St} (hk : Keyed st) (cur : Current) (h : pid ≠ cur.pid) :
    (sysExit f syscalls cur st.maps).procSyscall.lookup pid = st.maps.procSyscall.lookup pid ∧
      (sysExit f syscalls cur st.maps).syscallRb.filter (fun b => b.pid = pid) = st.batches pid := by
  rcases sysExit_cases f syscalls cur st.maps with ⟨hm, -⟩ | ⟨e, e', he, rfl, ⟨-, hrb, hl⟩ | ⟨-, -, hrb, hl⟩⟩
  · rw [hm]
    exact ⟨rfl, rfl⟩
  · exact ⟨by rw [hl, if_neg h], by rw [hrb]; rfl⟩
  · refine ⟨by rw [hl, if_neg h], ?_⟩
    have hpid : e.pid ≠ pid := fun heq => h (heq.symm.trans (hk _ e he))
    rw [hrb, List.filter_append]
    simp [SyscallSeq.batch, SyscallSeq.delay, hpid, St.batches]

theorem sysEnter_inv (ht : f.traces pid (tgid pid) = true) {st : St} {id : Int32} {now : UInt64}
    (hi : Inv syscalls pid st) (hg : Gathers syscalls pid (.sysEnter pid id now) st)
    (hin : st.inCall pid = none) (hclock : st.clock ≤ now) :
    Inv syscalls pid { st with
      maps := sysEnter f syscalls ⟨pid, tgid pid, now, true⟩ id st.maps
      clock := now
      inCall := Function.update st.inCall pid (some (id, now)) } := by
  obtain ⟨hk, chunks, rest, hs⟩ := hi
  refine ⟨sysEnter_keyed hk _ id, chunks, rest, ?_⟩
  have hel := hs.elapsed
  rw [hin] at hel
  rcases sysEnter_cases f syscalls ⟨pid, tgid pid, now, true⟩ id st.maps with ⟨-, hno⟩ | ⟨hrb, e', hl, he'⟩
  · -- the condition leaves the probe no way to miss the call
    exfalso
    rcases hno with hno | ⟨hnone, hroom⟩ | ⟨e, he, hfull⟩
    · rw [ht] at hno
      cases hno
    · rcases hg rfl with ⟨-, h⟩ | ⟨e, he, -⟩
      · exact hroom h
      · rw [hnone] at he
        cases he
    · rcases hg rfl with ⟨h, -⟩ | ⟨e0, he0, hlt, -⟩
      · rw [he] at h
        cases h
      · rw [he] at he0
        cases he0
        omega
  · refine ⟨hs.calls, ?_, ?_, ?_, ?_, ?_, ?_⟩
    · rw [St.batches, hrb]
      exact hs.batches
    · rw [St.batches, hrb]
      exact hs.count
    · intro h
      rw [hl, if_pos rfl] at h
      cases h
    · intro e h
      rw [hl, if_pos rfl] at h
      cases h
      simp only [Function.update_self]
      rcases he' with ⟨hnone, -, rfl⟩ | ⟨e, he, -, rfl⟩
      · rw [(hs.absent hnone).1]
        exact gathered_first pid id now
      · rcases hg rfl with ⟨h, -⟩ | ⟨e0, he0, hlt, hroom⟩
        · rw [he] at h
          cases h
        · rw [he] at he0
          cases he0
          have hgat := hs.present e he
          rw [hin] at hgat
          exact gathered_next hgat hlt hroom id now
    · intro id' t h
      simp only [Function.update_self] at h
      cases h
      exact UInt64.le_refl now
    · simp only [Function.update_self]
      exact hel.trans hclock

theorem sysExit_inv (ht : f.traces pid (tgid pid) = true) {st : St} {id : Int32} {enter now : UInt64} {reserve : Bool}
    (hi : Inv syscalls pid st) (hg : Gathers syscalls pid (.sysExit pid now reserve) st)
    (hin : st.inCall pid = some (id, enter)) (hclock : st.clock ≤ now) :
    Inv syscalls pid {
      maps := sysExit f syscalls ⟨pid, tgid pid, now, reserve⟩ st.maps
      clock := now
      calls := Function.update st.calls pid (st.calls pid ++ [⟨id, enter, now⟩])
      inCall := Function.update st.inCall pid none } := by
  obtain ⟨hk, chunks, rest, hs⟩ := hi
  have hel : totalDelay (st.calls pid) ≤ enter.toNat := by
    have := hs.elapsed
    rwa [hin] at this
  have hle : enter ≤ now := UInt64.le_trans (hs.entered id enter hin) hclock
  have helapsed := totalDelay_next id hel hle
  have hrest : totalDelay rest ≤ enter.toNat := by
    rw [hs.calls, totalDelay_append] at hel
    omega
  have hcalls : st.calls pid ++ [⟨id, enter, now⟩] = chunks.flatten ++ (rest ++ [⟨id, enter, now⟩]) := by
    rw [hs.calls, List.append_assoc]
  rcases sysExit_cases f syscalls ⟨pid, tgid pid, now, reserve⟩ st.maps with
    ⟨-, hno⟩ | ⟨e, e', he, rfl, ⟨-, hrb, hl⟩ | ⟨hfull, hres, hrb, hl⟩⟩
  · exfalso
    rcases hno with hno | hno
    · rw [ht] at hno
      cases hno
    · have := (hs.absent hno).2
      rw [hin] at this
      cases this
  · have hgat := gathered_delay (hin ▸ hs.present e he) hle hrest
    refine ⟨sysExit_keyed hk _, chunks, rest ++ [⟨id, enter, now⟩], ?_, ?_, ?_, ?_, ?_, ?_, ?_⟩
    · simp only [Function.update_self]
      exact hcalls
    · rw [St.batches, hrb]
      exact hs.batches
    · rw [St.batches, hrb]
      exact hs.count
    · intro h
      rw [hl, if_pos rfl] at h
      cases h
    · intro e'' h
      rw [hl, if_pos rfl] at h
      cases h
      simp only [Function.update_self]
      exact hgat
    · intro id' t h
      simp only [Function.update_self] at h
      cases h
    · simp only [Function.update_self]
      exact helapsed
  · have hgat := gathered_delay (hin ▸ hs.present e he) hle hrest
    have hpos : 0 < syscalls := by
      by_contra hneg
      have := hg rfl (not_lt.mp hneg)
      rw [this] at hres
      cases hres
    have hcount : e.count = syscalls := le_antisymm (hgat.limit hpos) hfull
    have hbatches : (sysExit f syscalls ⟨pid, tgid pid, now, reserve⟩ st.maps).syscallRb.filter (fun b => b.pid = pid) =
        st.batches pid ++ [(e.delay (now - e.enterTime)).batch] := by
      have hpid : e.pid = pid := hk pid e he
      rw [hrb, List.filter_append]
      simp [SyscallSeq.batch, SyscallSeq.delay, hpid, St.batches]
    refine ⟨sysExit_keyed hk _, chunks ++ [rest ++ [⟨id, enter, now⟩]], [], ?_, ?_, ?_, ?_, ?_, ?_, ?_⟩
    · simp only [Function.update_self, List.flatten_append, List.flatten_singleton, List.append_nil]
      exact hcalls
    · rw [St.batches, hbatches]
      exact List.rel_append hs.batches (.cons (gathered_lists hgat) .nil)
    · rw [St.batches, hbatches]
      intro b hb
      rcases List.mem_append.mp hb with hb | hb
      · exact hs.count b hb
      · cases List.mem_singleton.mp hb
        exact ⟨hcount, hgat.count.symm⟩
    · intro _
      simp only [Function.update_self]
      exact ⟨trivial, trivial⟩
    · intro e'' h
      rw [hl, if_pos rfl] at h
      cases h
    · intro id' t h
      simp only [Function.update_self] at h
      cases h
    · simp only [Function.update_self]
      exact helapsed

theorem step_keyed {e : Ev} {st st' : St} (hk : Keyed st) (h : step f syscalls tgid e st = some st') : Keyed st' := by
  cases e with
  | sysEnter p id now =>
    simp only [step, Option.ite_none_right_eq_some, Option.some.injEq] at h
    obtain ⟨-, rfl⟩ := h
    exact sysEnter_keyed hk _ id
  | sysExit p now reserve =>
    simp only [step] at h
    split at h
    · simp only [Option.ite_none_right_eq_some, Option.some.injEq] at h
      obtain ⟨-, rfl⟩ := h
      exact sysExit_keyed hk _
    · cases h

/-- Steps of other threads leave a thread's calls as they are. -/
theorem step_other {e : Ev} {st st' : St} (hk : Keyed st) (he : pid ≠ e.pid)
    (h : step f syscalls tgid e st = some st') :
    Unchanged pid st st' := by
  cases e with
  | sysEnter p id now =>
    simp only [step, Option.ite_none_right_eq_some, Option.some.injEq] at h
    obtain ⟨⟨-, hclock⟩, rfl⟩ := h
    obtain ⟨hl, hrb⟩ := sysEnter_frame syscalls f ⟨p, tgid p, now, true⟩ he id st.maps
    exact ⟨hl, by rw [St.batches, hrb]; rfl, rfl, Function.update_of_ne he _ _, hclock⟩
  | sysExit p now reserve =>
    simp only [step] at h
    split at h
    · simp only [Option.ite_none_right_eq_some, Option.some.injEq] at h
      obtain ⟨hclock, rfl⟩ := h
      obtain ⟨hl, hrb⟩ := sysExit_frame syscalls f hk ⟨p, tgid p, now, reserve⟩ he
      exact ⟨hl, hrb, Function.update_of_ne he _ _, Function.update_of_ne he _ _, hclock⟩
    · cases h

theorem step_inv (ht : f.traces pid (tgid pid) = true) {e : Ev} {st st' : St} (hi : Inv syscalls pid st)
    (hg : Gathers syscalls pid e st) (h : step f syscalls tgid e st = some st') :
    Inv syscalls pid st' := by
  by_cases he : pid = e.pid
  · subst he
    cases e with
    | sysEnter p id now =>
      simp only [step, Option.ite_none_right_eq_some, Option.some.injEq] at h
      obtain ⟨⟨hin, hclock⟩, rfl⟩ := h
      exact sysEnter_inv ht hi hg (Option.isNone_iff_eq_none.mp hin) hclock
    | sysExit p now reserve =>
      simp only [step] at h
      split at h
      · rename_i id enter hin
        simp only [Option.ite_none_right_eq_some, Option.some.injEq] at h
        obtain ⟨hclock, rfl⟩ := h
        exact sysExit_inv ht hi hg hin hclock
      · cases h
  · obtain ⟨hk, chunks, rest, hs⟩ := hi
    exact ⟨step_keyed hk h, chunks, rest, split_unchanged hs (step_other hk he h)⟩

/-! ## A call that is missed stays missed -/

variable (syscalls pid)

def Missed (st : St) : Prop :=
  (st.recorded pid).length < (st.ids pid).length ∨ ∃ b ∈ st.batches pid, b.count ≠ syscalls

variable {syscalls pid}

theorem missed_not_faithful {st : St} (h : Missed syscalls pid st) : ¬ Faithful syscalls st pid := by
  intro hf
  rcases h with h | ⟨b, hb, hc⟩
  · rw [hf.recorded] at h
    exact absurd h (lt_irrefl _)
  · exact hc (hf.count b hb).1

variable (syscalls f tgid) in
theorem sysEnter_recorded {st : St} (id : Int32) (now : UInt64) (hin : st.inCall pid = none) :
    let st' : St := { st with
      maps := sysEnter f syscalls ⟨pid, tgid pid, now, true⟩ id st.maps
      clock := now
      inCall := Function.update st.inCall pid (some (id, now)) }
    st'.batches pid = st.batches pid ∧ (st'.pending pid).length ≤ (st.pending pid).length + 1 ∧
      (st'.ids pid).length = (st.ids pid).length + 1 := by
  intro st'
  refine ⟨?_, ?_, by simp [st', St.ids, St.entered, hin]⟩
  · rcases sysEnter_cases f syscalls ⟨pid, tgid pid, now, true⟩ id st.maps with ⟨hm, -⟩ | ⟨hrb, -⟩
    · simp only [st', St.batches, hm]
    · simp only [st', St.batches, hrb]
  · rcases sysEnter_cases f syscalls ⟨pid, tgid pid, now, true⟩ id st.maps with ⟨hm, -⟩ | ⟨-, e', hl, he'⟩
    · simp only [st', St.pending, hm]
      exact Nat.le_succ _
    · simp only [st', St.pending, hl]
      rcases he' with ⟨hnone, -, rfl⟩ | ⟨e, he, -, rfl⟩
      · rw [hnone]
        exact Nat.le_refl 1
      · rw [he]
        exact length_listed_next e id now

variable (syscalls f tgid) in
/-- A return moves what is recorded, and adds nothing to it. -/
theorem sysExit_recorded {st : St} {id : Int32} {enter : UInt64} (now : UInt64) (reserve : Bool) (hk : Keyed st)
    (hin : st.inCall pid = some (id, enter)) :
    let st' : St := {
      maps := sysExit f syscalls ⟨pid, tgid pid, now, reserve⟩ st.maps
      clock := now
      calls := Function.update st.calls pid (st.calls pid ++ [⟨id, enter, now⟩])
      inCall := Function.update st.inCall pid none }
    (∀ b ∈ st.batches pid, b ∈ st'.batches pid) ∧ st'.recorded pid = st.recorded pid ∧ st'.ids pid = st.ids pid := by
  intro st'
  have hids : st'.ids pid = st.ids pid := by simp [st', St.ids, St.entered, hin]
  rcases sysExit_cases f syscalls ⟨pid, tgid pid, now, reserve⟩ st.maps with
    ⟨hm, -⟩ | ⟨e, e', he, rfl, ⟨-, hrb, hl⟩ | ⟨-, -, hrb, hl⟩⟩
  · have hb : st'.batches pid = st.batches pid := by simp only [st', St.batches, hm]
    have hp : st'.pending pid = st.pending pid := by simp only [st', St.pending, hm]
    exact ⟨fun b h => hb ▸ h, by rw [St.recorded, hb, hp]; rfl, hids⟩
  · have hb : st'.batches pid = st.batches pid := by simp only [st', St.batches, hrb]
    have hp : st'.pending pid = st.pending pid := by
      simp only [st', St.pending, hl, if_true, he, Option.map_some, listed_delay]
    exact ⟨fun b h => hb ▸ h, by rw [St.recorded, hb, hp]; rfl, hids⟩
  · have hpid : e.pid = pid := hk pid e he
    have hb : st'.batches pid = st.batches pid ++ [(e.delay (now - e.enterTime)).batch] := by
      simp only [st', St.batches, hrb, List.filter_append]
      simp [SyscallSeq.batch, SyscallSeq.delay, hpid]
    have hp : st'.pending pid = [] := by simp only [st', St.pending, hl, if_true, Option.map_none, Option.getD_none]
    have hp0 : st.pending pid = e.listed := by
      simp only [St.pending, he, Option.map_some, Option.getD_some]
    refine ⟨fun b h => hb ▸ List.mem_append_left _ h, ?_, hids⟩
    rw [St.recorded, St.recorded, hb, hp, hp0, List.flatMap_append, List.append_nil, List.flatMap_singleton]
    rfl

theorem step_missed {e : Ev} {st st' : St} (hk : Keyed st) (hm : Missed syscalls pid st)
    (h : step f syscalls tgid e st = some st') :
    Missed syscalls pid st' := by
  by_cases he : pid = e.pid
  · subst he
    cases e with
    | sysEnter p id now =>
      simp only [step, Option.ite_none_right_eq_some, Option.some.injEq] at h
      obtain ⟨⟨hin, -⟩, rfl⟩ := h
      obtain ⟨hb, hp, hids⟩ :=
        sysEnter_recorded syscalls f tgid id now (Option.isNone_iff_eq_none.mp hin)
      rcases hm with hm | ⟨b, hmem, hc⟩
      · left
        simp only [Ev.pid, St.recorded, List.length_append] at hm hids ⊢
        rw [hids, hb]
        omega
      · exact .inr ⟨b, hb ▸ hmem, hc⟩
    | sysExit p now reserve =>
      simp only [step] at h
      split at h
      · rename_i id enter hin
        simp only [Option.ite_none_right_eq_some, Option.some.injEq] at h
        obtain ⟨-, rfl⟩ := h
        obtain ⟨hb, hrec, hids⟩ := sysExit_recorded syscalls f tgid now reserve hk hin
        rcases hm with hm | ⟨b, hmem, hc⟩
        · left
          simp only [Ev.pid] at hm ⊢
          rw [hrec, hids]
          exact hm
        · exact .inr ⟨b, hb b hmem, hc⟩
      · cases h
  · have hu := step_other hk he h
    unfold Missed St.recorded St.ids St.entered St.pending
    rw [hu.entry, hu.batches, hu.calls, hu.inCall]
    exact hm

/-- A step outside the condition misses a call, or submits a batch of another size. -/
theorem ungathered_missed (ht : f.traces pid (tgid pid) = true) {e : Ev} {st st' : St} (hi : Inv syscalls pid st)
    (hn : ¬ Gathers syscalls pid e st) (h : step f syscalls tgid e st = some st') :
    Missed syscalls pid st' := by
  have hrec := (inv_faithful hi).recorded
  cases e with
  | sysEnter p id now =>
    obtain ⟨rfl, hn⟩ := Classical.not_imp.mp hn
    simp only [step, Option.ite_none_right_eq_some, Option.some.injEq] at h
    obtain ⟨⟨hin, -⟩, rfl⟩ := h
    obtain ⟨hb, -, hids⟩ := sysEnter_recorded syscalls f tgid id now (Option.isNone_iff_eq_none.mp hin)
    left
    rw [hids, ← hrec, St.recorded, St.recorded, hb]
    apply Nat.lt_succ_of_le (Nat.le_of_eq _)
    congr 2
    rcases sysEnter_cases f syscalls ⟨p, tgid p, now, true⟩ id st.maps with
      ⟨hm, -⟩ | ⟨-, e', hl, ⟨hnone, hroom, -⟩ | ⟨e, he, hlt, rfl⟩⟩
    · simp only [St.pending, hm]
    · exact absurd (.inl ⟨hnone, hroom⟩) hn
    · have hfull : maxSyscallCount ≤ e.count := by
        by_contra hc
        exact hn (.inr ⟨e, he, hlt, not_le.mp hc⟩)
      simp only [St.pending, hl, he, if_true, Option.map_some, listed_next_full hfull]
  | sysExit p now reserve =>
    obtain ⟨rfl, himp⟩ := Classical.not_imp.mp hn
    obtain ⟨hneg, hres⟩ := Classical.not_imp.mp himp
    simp only [step] at h
    split at h
    · rename_i id enter hin
      simp only [Option.ite_none_right_eq_some, Option.some.injEq] at h
      obtain ⟨-, rfl⟩ := h
      obtain ⟨hk, chunks, rest, hs⟩ := hi
      rcases sysExit_cases f syscalls ⟨p, tgid p, now, reserve⟩ st.maps with
        ⟨-, hno⟩ | ⟨e, e', he, rfl, ⟨hno, -⟩ | ⟨-, -, hrb, -⟩⟩
      · rcases hno with hno | hno
        · rw [ht] at hno
          cases hno
        · have := (hs.absent hno).2
          rw [hin] at this
          cases this
      · have hpos := (hs.present e he).pos
        rcases hno with hlt | hno
        · omega
        · exact absurd hno hres
      · right
        refine ⟨(e.delay (now - e.enterTime)).batch, ?_, ?_⟩
        · simp only [St.batches, hrb, List.filter_append, List.mem_append]
          right
          simpa [SyscallSeq.batch, SyscallSeq.delay] using hk p e he
        · have hpos : 0 < e.count := (hs.present e he).pos
          show e.count ≠ syscalls
          omega
    · cases h

variable (f tgid)

/-- Whatever the size of the batches and the other threads do, the calls of a traced
    thread are reported faithfully at the end of a run if and only if each step of the
    run met the condition. -/
theorem faithful_iff (ht : f.traces pid (tgid pid) = true) {es : List Ev} {st : St}
    (h : exec (step f syscalls tgid) es init = some st) :
    Faithful syscalls st pid ↔ execIf (step f syscalls tgid) (Gathers syscalls pid) es init = some st := by
  refine holds_iff_execIf (I := Inv syscalls pid) (B := fun s => Keyed s ∧ Missed syscalls pid s) ?_ ?_ ?_
    (fun _ => inv_faithful) (fun _ hb => missed_not_faithful hb.2) (init_inv syscalls pid) h
  · exact fun _ _ _ hi hg hs => step_inv ht hi hg hs
  · exact fun _ _ _ hi hg hs => ⟨step_keyed hi.1 hs, ungathered_missed ht hi hg hs⟩
  · exact fun _ _ _ hb hs => ⟨step_keyed hb.1 hs, step_missed hb.1 hb.2 hs⟩

/-! ## Thread 7 -/

def ownTgid (t : Int32) : Int32 := t

/-- The system call `id`, from `now` on and for 10. -/
def call (id : Int32) (now : UInt64) (reserve : Bool) : List Ev := [.sysEnter 7 id now, .sysExit 7 (now + 10) reserve]

def threeCalls : List Ev := call 0 100 true ++ call 1 200 true ++ call 2 300 true

/-- Two calls a batch: one batch is submitted, the third call is in the entry. -/
theorem one_batch_and_a_call :
    ∃ st, exec (step .default 2 ownTgid) threeCalls init = some st ∧
      st.maps.syscallRb = [⟨7, 20, 10, 2, [0, 1]⟩] ∧ st.pending 7 = [2] ∧ Faithful 2 st 7 := by
  obtain ⟨st, hexec, hif, hs⟩ := execIf_any (step .default 2 ownTgid) (Gathers 2 7) init threeCalls
    (fun st => decide (st.maps.syscallRb = [⟨7, 20, 10, 2, [0, 1]⟩] ∧ st.pending 7 = [2])) (by decide +kernel)
  obtain ⟨hrb, hp⟩ := of_decide_eq_true hs
  exact ⟨st, hexec, hrb, hp, (faithful_iff .default ownTgid rfl hexec).mpr hif⟩

/-- The reservation for the first batch fails: the third call is in no batch and not in
    the entry. -/
theorem failed_reserve_loses_a_call :
    ∃ st, Run (step .default 2 ownTgid) anyEvent init st ∧ st.ids 7 = [0, 1, 2] ∧ st.recorded 7 = [0, 1] ∧
      ¬ Faithful 2 st 7 := by
  obtain ⟨st, hr, hs⟩ := run_of_exec_any (step .default 2 ownTgid) init
    (call 0 100 true ++ call 1 200 false ++ call 2 300 true)
    (fun st => decide (st.ids 7 = [0, 1, 2] ∧ st.recorded 7 = [0, 1])) (by decide +kernel)
  obtain ⟨hids, hrec⟩ := of_decide_eq_true hs
  refine ⟨st, hr, hids, hrec, missed_not_faithful (.inl ?_)⟩
  rw [hids, hrec]
  decide

/-- `-s 0` is accepted, and a batch of it has one call. -/
theorem batch_of_none_has_one :
    ∃ n st, parseSyscalls 0 = some n ∧ Run (step .default n ownTgid) anyEvent init st ∧ ¬ Faithful n st 7 := by
  obtain ⟨st, hr, hs⟩ := run_of_exec_any (step .default 0 ownTgid) init (call 0 100 true)
    (fun st => decide (∃ b ∈ st.batches 7, b.count ≠ 0)) (by decide +kernel)
  exact ⟨0, st, by decide, hr, missed_not_faithful (.inr (of_decide_eq_true hs))⟩

end Ksight.ProcImage.SyscallImage

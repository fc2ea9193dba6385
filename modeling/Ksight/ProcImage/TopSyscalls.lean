/-
  Ksight.ProcImage.TopSyscalls — the three most frequent system calls
  (src/process/proc_image/src/proc_image.c: `print_syscall`).

  A table counts the calls by number, and three slots keep the numbers with the highest
  counts. A number in a slot is moved up by three comparisons of neighbours; any other one
  takes the place its count has among them, and the third slot's number is dropped. All
  three slots start with number 0.

  The law (`TopThree`): once three numbers have been seen, the slots hold different ones,
  their counts do not rise, and no other number has a count above that of the third. The
  counts are in order in every state (`Sorted`). Of the three zeros one goes when a number
  gets ahead of the system call 0, and comes back when 0 gets ahead of it; all but one have
  gone for good as soon as two numbers are ahead at once (`ahead`, `Parted`).

  - `topThree_of_run`: the law holds in every run in which that has happened by the time three
    numbers have been seen, and no count wraps around (`Settled`).
  - `topThree_iff`: without wraps the law needs it. After the calls 0, 1, 2 all slots have
    number 0 (`zero_takes_all_slots`).
-/

import Mathlib.Data.Finset.Card
import Mathlib.Data.List.Count
import Mathlib.Logic.Function.Basic
import Ksight.Lib.Run
import Ksight.ProcImage.SyscallImage

namespace Ksight.ProcImage.TopSyscalls

open Ksight.Lib
open SyscallImage (Batch)

def nrSyscalls : Int32 := 500

/-- The fields of `env` that are used, and the table `syscalls`. -/
structure Env where
  syscalls : Int32 → UInt32
  firstSyscall : Int32
  secondSyscall : Int32
  thirdSyscall : Int32
  sumDelay : UInt64
  sumCount : UInt64
  maxDelay : UInt64

def Env.init : Env := ⟨fun _ => 0, 0, 0, 0, 0, 0, 0⟩

/-- A printed line; the average is `none` where the division has no result. -/
structure Line where
  pid : Int32
  slots : List (Int32 × UInt32)
  avgDelay : Option UInt64
  maxDelay : UInt64
  recordSyscall : List Int32

def Env.swapThird (e : Env) : Env :=
  if e.syscalls e.thirdSyscall > e.syscalls e.secondSyscall then
    { e with secondSyscall := e.thirdSyscall, thirdSyscall := e.secondSyscall }
  else e

def Env.swapSecond (e : Env) : Env :=
  if e.syscalls e.secondSyscall > e.syscalls e.firstSyscall then
    { e with firstSyscall := e.secondSyscall, secondSyscall := e.firstSyscall }
  else e

def Env.count (e : Env) (n : Int32) : Env :=
  { e with syscalls := Function.update e.syscalls n (e.syscalls n + 1) }

/-- The place of a number that is in a slot, after its count has risen. -/
def Env.bubble (e : Env) : Env := e.swapThird.swapSecond.swapThird

/-- The place of one that is in no slot. -/
def Env.insert (e : Env) (n : Int32) : Env :=
  if e.syscalls n > e.syscalls e.thirdSyscall then
    if e.syscalls n > e.syscalls e.secondSyscall then
      if e.syscalls n > e.syscalls e.firstSyscall then
        { e with thirdSyscall := e.secondSyscall, secondSyscall := e.firstSyscall, firstSyscall := n }
      else { e with thirdSyscall := e.secondSyscall, secondSyscall := n }
    else { e with thirdSyscall := n }
  else e

/-- One iteration of the loop over the numbers of a batch. -/
def Env.record (e : Env) (n : Int32) : Env :=
  let e := e.count n
  if n = e.firstSyscall ∨ n = e.secondSyscall ∨ n = e.thirdSyscall then e.bubble else e.insert n

def printSyscall (b : Batch) (e : Env) : Line × Env :=
  let e := b.recordSyscall.foldl Env.record e
  let e : Env := { e with
    sumDelay := e.sumDelay + b.sumDelay
    maxDelay := if b.maxDelay > e.maxDelay then b.maxDelay else e.maxDelay
    sumCount := e.sumCount + UInt64.ofInt b.count }
  ({ pid := b.pid
     slots := [e.firstSyscall, e.secondSyscall, e.thirdSyscall].map fun n => (n, e.syscalls n)
     avgDelay := if e.sumCount = 0 then none else some (e.sumDelay / e.sumCount)
     maxDelay := e.maxDelay
     recordSyscall := b.recordSyscall }, e)

/-! ## The law -/

def Env.slots (e : Env) : List Int32 := [e.firstSyscall, e.secondSyscall, e.thirdSyscall]

/-- The count of a number. -/
def Env.cnt (e : Env) (n : Int32) : Nat := (e.syscalls n).toNat

structure St where
  env : Env
  /-- The numbers of all batches, the last one first. -/
  calls : List Int32

def init : St := ⟨.init, []⟩

/-- A batch with numbers of the table. -/
def step (b : Batch) (st : St) : Option St :=
  if b.recordSyscall.all fun n => 0 ≤ n ∧ n < nrSyscalls then
    some ⟨(printSyscall b st.env).2, b.recordSyscall.reverse ++ st.calls⟩
  else none

/-- What the slots show are the most frequent numbers. -/
structure Ranked (e : Env) : Prop where
  different : e.slots.Nodup
  firstSecond : e.syscalls e.secondSyscall ≤ e.syscalls e.firstSyscall
  secondThird : e.syscalls e.thirdSyscall ≤ e.syscalls e.secondSyscall
  others : ∀ n, n ∉ e.slots → e.syscalls n ≤ e.syscalls e.thirdSyscall

def TopThree (st : St) : Prop := 3 ≤ st.calls.toFinset.card → Ranked st.env

/-- The numbers ahead of number 0: one gets ahead with a call that makes its calls more than
    those of 0, and stays there until those of 0 are more again. -/
def ahead : List Int32 → Finset Int32
  | [] => ∅
  | n :: calls =>
    if n = 0 then (ahead calls).filter fun x => calls.count 0 < calls.count x
    else if calls.count 0 ≤ calls.count n then insert n (ahead calls)
    else ahead calls

/-- Two numbers have been ahead of number 0 at once. -/
def Parted : List Int32 → Prop
  | [] => False
  | n :: calls => Parted calls ∨ 2 ≤ (ahead (n :: calls)).card

instance : ∀ calls, Decidable (Parted calls)
  | [] => inferInstanceAs (Decidable False)
  | _ :: calls =>
    have := instDecidableParted calls
    inferInstanceAs (Decidable (_ ∨ _))

/-- No count wraps around. -/
def FitCounts (calls : List Int32) : Prop := ∀ n ∈ calls, calls.count n < 2 ^ 32

instance (calls : List Int32) : Decidable (FitCounts calls) := List.decidableBAll _ calls

def Fits (b : Batch) (st : St) : Prop := FitCounts (b.recordSyscall.reverse ++ st.calls)

/-- The condition: no count wraps around, and when three numbers have been seen, two have been
    ahead of number 0 at once. -/
def Settled (b : Batch) (st : St) : Prop :=
  Fits b st ∧
    (3 ≤ (b.recordSyscall.reverse ++ st.calls).toFinset.card → Parted (b.recordSyscall.reverse ++ st.calls))

instance (b : Batch) (st : St) : Decidable (Settled b st) := inferInstanceAs (Decidable (FitCounts _ ∧ (_ → _)))

/-! ## The order of the slots -/

def Sorted (e : Env) : Prop :=
  e.cnt e.secondSyscall ≤ e.cnt e.firstSyscall ∧ e.cnt e.thirdSyscall ≤ e.cnt e.secondSyscall

@[simp] theorem swapThird_syscalls (e : Env) : e.swapThird.syscalls = e.syscalls := by
  unfold Env.swapThird; split <;> rfl

@[simp] theorem swapSecond_syscalls (e : Env) : e.swapSecond.syscalls = e.syscalls := by
  unfold Env.swapSecond; split <;> rfl

@[simp] theorem bubble_syscalls (e : Env) : e.bubble.syscalls = e.syscalls := by simp [Env.bubble]

@[simp] theorem insert_syscalls (e : Env) (n : Int32) : (e.insert n).syscalls = e.syscalls := by
  unfold Env.insert
  split
  · split
    · split <;> rfl
    · rfl
  · rfl

theorem lt_iff_cnt {e : Env} {m n : Int32} : e.syscalls m < e.syscalls n ↔ e.cnt m < e.cnt n :=
  UInt32.lt_iff_toNat_lt

theorem swapThird_spec (e : Env) :
    e.swapThird.firstSyscall = e.firstSyscall ∧
      e.cnt e.swapThird.secondSyscall = max (e.cnt e.secondSyscall) (e.cnt e.thirdSyscall) ∧
      e.cnt e.swapThird.thirdSyscall = min (e.cnt e.secondSyscall) (e.cnt e.thirdSyscall) ∧
      e.swapThird.slots.Perm e.slots := by
  unfold Env.swapThird
  split
  · rename_i h
    rw [gt_iff_lt, lt_iff_cnt] at h
    dsimp only [Env.slots]
    exact ⟨rfl, by omega, by omega, .cons _ (.swap ..)⟩
  · rename_i h
    rw [gt_iff_lt, lt_iff_cnt] at h
    exact ⟨rfl, by omega, by omega, .refl _⟩

theorem swapSecond_spec (e : Env) :
    e.swapSecond.thirdSyscall = e.thirdSyscall ∧
      e.cnt e.swapSecond.firstSyscall = max (e.cnt e.firstSyscall) (e.cnt e.secondSyscall) ∧
      e.cnt e.swapSecond.secondSyscall = min (e.cnt e.firstSyscall) (e.cnt e.secondSyscall) ∧
      e.swapSecond.slots.Perm e.slots := by
  unfold Env.swapSecond
  split
  · rename_i h
    rw [gt_iff_lt, lt_iff_cnt] at h
    dsimp only [Env.slots]
    exact ⟨rfl, by omega, by omega, .swap ..⟩
  · rename_i h
    rw [gt_iff_lt, lt_iff_cnt] at h
    exact ⟨rfl, by omega, by omega, .refl _⟩

theorem cnt_congr {e e' : Env} (h : e'.syscalls = e.syscalls) (n : Int32) : e'.cnt n = e.cnt n := by
  rw [Env.cnt, Env.cnt, h]

/-- Three comparisons sort three slots, whatever was in them. -/
theorem bubble_spec (e : Env) : Sorted e.bubble ∧ e.bubble.slots.Perm e.slots := by
  obtain ⟨h1, h2, h3, hp⟩ := swapThird_spec e
  obtain ⟨g1, g2, g3, gp⟩ := swapSecond_spec e.swapThird
  obtain ⟨k1, k2, k3, kp⟩ := swapThird_spec e.swapThird.swapSecond
  have hc : ∀ n, e.swapThird.cnt n = e.cnt n := cnt_congr (by simp)
  have gc : ∀ n, e.swapThird.swapSecond.cnt n = e.cnt n := cnt_congr (by simp)
  have kc : ∀ n, e.bubble.cnt n = e.cnt n := cnt_congr (by simp)
  simp only [hc] at g2 g3
  simp only [gc] at k2 k3
  refine ⟨?_, (kp.trans gp).trans hp⟩
  unfold Sorted
  simp only [kc]
  simp only [Env.bubble, k1, k2, k3, g1, g2, g3, h1, h2, h3]
  omega

/-- A number goes to its place, and the third one out. -/
theorem insert_spec {e : Env} {n : Int32} (h : Sorted e) :
    Sorted (e.insert n) ∧
      (e.insert n = e ∧ e.cnt n ≤ e.cnt e.thirdSyscall ∨
        e.cnt e.thirdSyscall < e.cnt n ∧ (e.insert n).slots.Perm [n, e.firstSyscall, e.secondSyscall]) := by
  have hc : ∀ m, (e.insert n).cnt m = e.cnt m := cnt_congr (by simp)
  obtain ⟨h1, h2⟩ := h
  unfold Sorted
  simp only [hc]
  unfold Env.insert
  simp only [gt_iff_lt, lt_iff_cnt]
  split
  · split
    · split
      · dsimp only
        exact ⟨⟨by omega, h1⟩, .inr ⟨by omega, .refl _⟩⟩
      · dsimp only
        exact ⟨⟨by omega, by omega⟩, .inr ⟨by omega, .swap ..⟩⟩
    · dsimp only
      have hp : [e.firstSyscall, e.secondSyscall, n].Perm [n, e.firstSyscall, e.secondSyscall] :=
        List.perm_append_singleton n [e.firstSyscall, e.secondSyscall]
      exact ⟨⟨h1, by omega⟩, .inr ⟨by omega, hp⟩⟩
  · exact ⟨⟨h1, h2⟩, .inl ⟨rfl, by omega⟩⟩

theorem sorted_le {e : Env} (h : Sorted e) {s : Int32} (hs : s ∈ e.slots) : e.cnt e.thirdSyscall ≤ e.cnt s := by
  obtain ⟨h1, h2⟩ := h
  simp only [Env.slots, List.mem_cons, List.not_mem_nil, or_false] at hs
  rcases hs with rfl | rfl | rfl
  · exact h2.trans h1
  · exact h2
  · exact Nat.le_refl _

theorem bubble_of_sorted {e : Env} (h : Sorted e) : e.bubble = e := by
  have hthird : e.swapThird = e := by
    rw [Env.swapThird, if_neg]
    rw [gt_iff_lt, lt_iff_cnt]
    exact Nat.not_lt.mpr h.2
  have hsecond : e.swapSecond = e := by
    rw [Env.swapSecond, if_neg]
    rw [gt_iff_lt, lt_iff_cnt]
    exact Nat.not_lt.mpr h.1
  rw [Env.bubble, hthird, hsecond, hthird]

/-- A number in the third slot that passes the one of the others. -/
theorem bubble_up {e : Env} {a x : Int32} (h1 : e.firstSyscall = a) (h2 : e.secondSyscall = a)
    (h3 : e.thirdSyscall = x) (h : e.cnt a < e.cnt x) :
    e.bubble = { e with firstSyscall := x, secondSyscall := a, thirdSyscall := a } := by
  have hlt : e.syscalls a < e.syscalls x := lt_iff_cnt.mpr h
  have hself : ¬ e.syscalls a < e.syscalls a := UInt32.lt_irrefl _
  simp [Env.bubble, Env.swapThird, Env.swapSecond, h1, h2, h3, hlt, hself]

/-- The number of the others passes the one in the first slot. -/
theorem bubble_down {e : Env} {a x : Int32} (h1 : e.firstSyscall = x) (h2 : e.secondSyscall = a)
    (h3 : e.thirdSyscall = a) (h : e.cnt x < e.cnt a) :
    e.bubble = { e with firstSyscall := a, secondSyscall := a, thirdSyscall := x } := by
  have hlt : e.syscalls x < e.syscalls a := lt_iff_cnt.mpr h
  have hself : ¬ e.syscalls a < e.syscalls a := UInt32.lt_irrefl _
  simp [Env.bubble, Env.swapThird, Env.swapSecond, h1, h2, h3, hlt, hself]

/-! ## One call -/

/-- The slots while number 0 is in two of them: with its place and the number that is ahead
    of it, if there is one. -/
inductive Doubled (e : Env) (calls : List Int32) : Prop where
  | behind (first : e.firstSyscall = 0) (second : e.secondSyscall = 0) (none : ahead calls = ∅)
  | passed (x : Int32) (ne : x ≠ 0) (first : e.firstSyscall = x) (second : e.secondSyscall = 0)
    (third : e.thirdSyscall = 0) (only : ahead calls = {x})

theorem Doubled.card_ahead {e : Env} {calls : List Int32} (h : Doubled e calls) : (ahead calls).card ≤ 1 := by
  cases h with
  | behind _ _ ha => rw [ha]; exact Nat.zero_le 1
  | passed x _ _ _ _ ha => rw [ha, Finset.card_singleton]

theorem Doubled.not_nodup {e : Env} {calls : List Int32} (h : Doubled e calls) : ¬ e.slots.Nodup := by
  cases h with
  | behind h1 h2 _ => simp [Env.slots, h1, h2]
  | passed x _ _ h2 h3 _ => simp [Env.slots, h2, h3]

structure Inv (e : Env) (calls : List Int32) : Prop where
  counts : ∀ n, e.cnt n = calls.count n
  sorted : Sorted e
  others : ∀ n, n ∉ e.slots → e.cnt n ≤ e.cnt e.thirdSyscall
  shape : Parted calls ∧ e.slots.Nodup ∨ ¬ Parted calls ∧ Doubled e calls

theorem init_inv : Inv .init [] where
  counts _ := rfl
  sorted := ⟨Nat.le_refl _, Nat.le_refl _⟩
  others _ _ := Nat.le_refl _
  shape := .inr ⟨id, .behind rfl rfl rfl⟩

/-- A count that does not wrap around goes up by one, and no other one changes. -/
theorem cnt_count {e : Env} {calls : List Int32} {n : Int32} (hc : ∀ m, e.cnt m = calls.count m)
    (h : (n :: calls).count n < 2 ^ 32) (m : Int32) : (e.count n).cnt m = (n :: calls).count m := by
  have hn := hc n
  rw [List.count_cons_self] at h
  unfold Env.cnt Env.count at *
  dsimp only
  by_cases hm : m = n
  · subst hm
    rw [Function.update_self, UInt32.toNat_add, hn, List.count_cons_self]
    exact Nat.mod_eq_of_lt h
  · rw [Function.update_of_ne hm, List.count_cons_of_ne (Ne.symm hm)]
    exact hc m

theorem cnt_count_ne (e : Env) {m n : Int32} (h : m ≠ n) : (e.count n).cnt m = e.cnt m :=
  congrArg UInt32.toNat (Function.update_of_ne h ..)

/-- A number that is in a slot: the three slots keep theirs. -/
theorem record_mem {e : Env} {n : Int32} (h : n ∈ e.slots) : e.record n = (e.count n).bubble := by
  simp only [Env.slots, List.mem_cons, List.not_mem_nil, or_false] at h
  rw [Env.record]
  exact if_pos h

theorem record_notMem {e : Env} {n : Int32} (h : n ∉ e.slots) : e.record n = (e.count n).insert n := by
  simp only [Env.slots, List.mem_cons, List.not_mem_nil, or_false] at h
  rw [Env.record]
  exact if_neg h

/-- A count that rises leaves the order of the slots to the others. -/
theorem sorted_count {e : Env} {n : Int32} (h : Sorted e) (hn : n ∉ e.slots) : Sorted (e.count n) := by
  simp only [Env.slots, List.mem_cons, List.not_mem_nil, or_false, not_or] at hn
  change (e.count n).cnt e.secondSyscall ≤ (e.count n).cnt e.firstSyscall ∧
    (e.count n).cnt e.thirdSyscall ≤ (e.count n).cnt e.secondSyscall
  rw [cnt_count_ne e (Ne.symm hn.1), cnt_count_ne e (Ne.symm hn.2.1), cnt_count_ne e (Ne.symm hn.2.2)]
  exact h

/-- So does one of the number in the first slot. -/
theorem sorted_count_first {e : Env} (h : Sorted e) (hle : ∀ m, e.cnt m ≤ (e.count e.firstSyscall).cnt m)
    (ht : e.thirdSyscall = e.firstSyscall → e.secondSyscall = e.firstSyscall) :
    Sorted (e.count e.firstSyscall) := by
  have hne : ∀ m, m ≠ e.firstSyscall → (e.count e.firstSyscall).cnt m = e.cnt m := fun m => cnt_count_ne e
  change (e.count e.firstSyscall).cnt e.secondSyscall ≤ (e.count e.firstSyscall).cnt e.firstSyscall ∧
    (e.count e.firstSyscall).cnt e.thirdSyscall ≤ (e.count e.firstSyscall).cnt e.secondSyscall
  by_cases h3 : e.thirdSyscall = e.firstSyscall
  · rw [ht h3, h3]
    exact ⟨Nat.le_refl _, Nat.le_refl _⟩
  · rw [hne _ h3]
    refine ⟨?_, h.2.trans (hle _)⟩
    by_cases h2 : e.secondSyscall = e.firstSyscall
    · rw [h2]
    · rw [hne _ h2]
      exact h.1.trans (hle _)

theorem record_cnt (e : Env) (n m : Int32) : (e.record n).cnt m = (e.count n).cnt m := by
  by_cases hn : n ∈ e.slots
  · rw [record_mem hn]
    exact cnt_congr (bubble_syscalls _) m
  · rw [record_notMem hn]
    exact cnt_congr (insert_syscalls _ n) m

/-- The order does not depend on the count of the number. -/
theorem record_sorted {e : Env} (h : Sorted e) (n : Int32) : Sorted (e.record n) := by
  by_cases hn : n ∈ e.slots
  · rw [record_mem hn]
    exact (bubble_spec _).1
  · rw [record_notMem hn]
    exact (insert_spec (sorted_count h hn)).1

/-- Different numbers stay different. -/
theorem record_nodup {e : Env} {n : Int32} (hs : Sorted e) (h : e.slots.Nodup) : (e.record n).slots.Nodup := by
  by_cases hn : n ∈ e.slots
  · rw [record_mem hn]
    exact (bubble_spec (e.count n)).2.nodup_iff.mpr h
  · rw [record_notMem hn]
    obtain ⟨-, ⟨heq, -⟩ | ⟨-, hp⟩⟩ := insert_spec (n := n) (sorted_count hs hn)
    · rw [heq]
      exact h
    · rw [hp.nodup_iff]
      simp only [Env.slots, List.nodup_cons, List.mem_cons, List.not_mem_nil, or_false, not_or] at hn h ⊢
      exact ⟨⟨hn.1, hn.2.1⟩, h.1.1, not_false, List.nodup_nil⟩

/-- Every number in a slot had at least the count that the third slot's had. -/
theorem record_third {e : Env} {n : Int32} (hs : Sorted e) (hle : ∀ m, e.cnt m ≤ (e.count n).cnt m) :
    e.cnt e.thirdSyscall ≤ (e.count n).cnt (e.record n).thirdSyscall := by
  by_cases hn : n ∈ e.slots
  · have hthird : (e.count n).bubble.thirdSyscall ∈ e.slots :=
      (bubble_spec (e.count n)).2.mem_iff.mp (by simp [Env.slots])
    rw [record_mem hn]
    exact (sorted_le hs hthird).trans (hle _)
  · rw [record_notMem hn]
    obtain ⟨-, ⟨heq, -⟩ | ⟨hhigh, hp⟩⟩ := insert_spec (n := n) (sorted_count hs hn)
    · rw [heq]
      exact hle _
    · have hthird : ((e.count n).insert n).thirdSyscall ∈ [n, e.firstSyscall, e.secondSyscall] :=
        hp.mem_iff.mp (by simp [Env.slots])
      simp only [List.mem_cons, List.not_mem_nil, or_false] at hthird
      rcases hthird with he | he | he
      · rw [he]
        exact (hle _).trans hhigh.le
      · rw [he]
        exact (hs.2.trans hs.1).trans (hle _)
      · rw [he]
        exact hs.2.trans (hle _)

/-- A number that is in no slot has at most the count that the third slot's had, or goes there
    no more: the number itself where it stays out, and the one that it drops. -/
theorem record_others {e : Env} {n : Int32} (hs : Sorted e) (hle : ∀ m, e.cnt m ≤ (e.count n).cnt m)
    (ho : ∀ m, m ∉ e.slots → e.cnt m ≤ e.cnt e.thirdSyscall) (m : Int32) (hm : m ∉ (e.record n).slots) :
    (e.record n).cnt m ≤ (e.record n).cnt (e.record n).thirdSyscall := by
  have hthird := record_third hs hle
  rw [record_cnt, record_cnt]
  by_cases hn : n ∈ e.slots
  · have hout : m ∉ e.slots := by
      rw [record_mem hn, (bubble_spec (e.count n)).2.mem_iff] at hm
      exact hm
    have hne : m ≠ n := fun he => hout (he ▸ hn)
    rw [cnt_count_ne e hne]
    exact (ho m hout).trans hthird
  · rw [record_notMem hn] at hm hthird ⊢
    obtain ⟨-, ⟨heq, hlow⟩ | ⟨-, hp⟩⟩ := insert_spec (n := n) (sorted_count hs hn)
    · rw [heq] at hm hthird ⊢
      by_cases hne : m = n
      · rw [hne]
        exact hlow
      · rw [cnt_count_ne e hne]
        exact (ho m hm).trans hthird
    · rw [hp.mem_iff] at hm
      simp only [List.mem_cons, List.not_mem_nil, or_false, not_or] at hm
      rw [cnt_count_ne e hm.1]
      refine le_trans ?_ hthird
      by_cases he : m = e.thirdSyscall
      · rw [he]
      · refine ho m ?_
        simp only [Env.slots, List.mem_cons, List.not_mem_nil, or_false, not_or]
        exact ⟨hm.2.1, hm.2.2, he⟩

theorem ahead_zero (calls : List Int32) :
    ahead (0 :: calls) = (ahead calls).filter fun x => calls.count 0 < calls.count x := rfl

/-- A number that is called gets ahead if its count is now above that of number 0. -/
theorem ahead_cons {e : Env} {calls : List Int32} {n : Int32}
    (hc : ∀ m, (e.count n).cnt m = (n :: calls).count m) (h : n ≠ 0) :
    ahead (n :: calls) =
      if (e.count n).cnt 0 < (e.count n).cnt n then insert n (ahead calls) else ahead calls := by
  rw [ahead, if_neg h, hc, hc, List.count_cons_self, List.count_cons_of_ne h]
  exact if_congr Nat.lt_succ_iff.symm rfl rfl

theorem insert_first {e : Env} {n : Int32} (h3 : e.cnt e.thirdSyscall < e.cnt n)
    (h2 : e.cnt e.secondSyscall < e.cnt n) (h1 : e.cnt e.firstSyscall < e.cnt n) :
    e.insert n =
      { e with thirdSyscall := e.secondSyscall, secondSyscall := e.firstSyscall, firstSyscall := n } := by
  rw [← lt_iff_cnt] at h1 h2 h3
  rw [Env.insert, if_pos h3, if_pos h2, if_pos h1]

theorem insert_low {e : Env} {n : Int32} (h2 : ¬ e.cnt e.secondSyscall < e.cnt n) :
    (e.insert n).firstSyscall = e.firstSyscall ∧ (e.insert n).secondSyscall = e.secondSyscall := by
  rw [← lt_iff_cnt] at h2
  rw [Env.insert, if_neg h2]
  split
  · exact ⟨rfl, rfl⟩
  · exact ⟨rfl, rfl⟩

theorem insert_none {e : Env} {n : Int32} (h3 : ¬ e.cnt e.thirdSyscall < e.cnt n) : e.insert n = e := by
  rw [← lt_iff_cnt] at h3
  rw [Env.insert, if_neg h3]

section
variable {e : Env} {calls : List Int32} {n : Int32} (hc : ∀ m, (e.count n).cnt m = (n :: calls).count m)
  (hle : ∀ m, e.cnt m ≤ (e.count n).cnt m) (hs : Sorted e)
include hc hle hs

/-- A call while no number is ahead of 0. -/
theorem record_behind (h1 : e.firstSyscall = 0) (h2 : e.secondSyscall = 0) (ha : ahead calls = ∅) :
    Doubled (e.record n) (n :: calls) := by
  by_cases hn : n ∈ e.slots
  · rw [record_mem hn]
    by_cases h0 : n = 0
    · subst h0
      have hsorted : Sorted (e.count 0) := by
        rw [← h1] at hle ⊢
        exact sorted_count_first hs hle fun _ => h2.trans h1.symm
      rw [bubble_of_sorted hsorted]
      exact .behind h1 h2 (by rw [ahead_zero, ha, Finset.filter_empty])
    · have h3 : e.thirdSyscall = n := by
        simp only [Env.slots, List.mem_cons, List.not_mem_nil, or_false, h1, h2, h0, false_or] at hn
        exact hn.symm
      by_cases hlt : (e.count n).cnt 0 < (e.count n).cnt n
      · rw [bubble_up (e := e.count n) h1 h2 h3 hlt]
        refine .passed n h0 rfl rfl rfl ?_
        rw [ahead_cons hc h0, if_pos hlt, ha]
        rfl
      · have hsorted : Sorted (e.count n) := by
          change (e.count n).cnt e.secondSyscall ≤ (e.count n).cnt e.firstSyscall ∧
            (e.count n).cnt e.thirdSyscall ≤ (e.count n).cnt e.secondSyscall
          rw [h1, h2, h3]
          exact ⟨Nat.le_refl _, Nat.not_lt.mp hlt⟩
        rw [bubble_of_sorted hsorted]
        exact .behind h1 h2 (by rw [ahead_cons hc h0, if_neg hlt, ha])
  · have hsorted := sorted_count hs hn
    have h0 : n ≠ 0 := fun h0 => hn (by simp [Env.slots, h0, h1])
    have hfirst : (e.count n).firstSyscall = 0 := h1
    have hsecond : (e.count n).secondSyscall = 0 := h2
    rw [record_notMem hn]
    by_cases hlt : (e.count n).cnt 0 < (e.count n).cnt n
    · have hthird : (e.count n).cnt (e.count n).thirdSyscall < (e.count n).cnt n :=
        (hsecond ▸ hsorted.2).trans_lt hlt
      rw [insert_first hthird (hsecond.symm ▸ hlt) (hfirst.symm ▸ hlt)]
      refine .passed n h0 rfl h1 h2 ?_
      rw [ahead_cons hc h0, if_pos hlt, ha]
      rfl
    · obtain ⟨g1, g2⟩ := insert_low (hsecond.symm ▸ hlt)
      exact .behind (g1.trans h1) (g2.trans h2) (by rw [ahead_cons hc h0, if_neg hlt, ha])

/-- A call while one number is ahead of 0. -/
theorem record_ahead {x : Int32} (hx : x ≠ 0) (h1 : e.firstSyscall = x) (h2 : e.secondSyscall = 0)
    (h3 : e.thirdSyscall = 0) (ha : ahead calls = {x}) :
    2 ≤ (ahead (n :: calls)).card ∧ (e.record n).slots.Nodup ∨ Doubled (e.record n) (n :: calls) := by
  by_cases hn : n ∈ e.slots
  · rw [record_mem hn]
    simp only [Env.slots, List.mem_cons, List.not_mem_nil, or_false, h1, h2, h3, or_self] at hn
    right
    rcases hn with rfl | rfl
    · have hsorted : Sorted (e.count n) := by
        rw [← h1] at hle hx ⊢
        exact sorted_count_first hs hle fun h => absurd (h.symm.trans h3) hx
      have hsame : ahead (n :: calls) = {n} := by
        rw [ahead_cons hc hx, ha, Finset.insert_eq_self.mpr (Finset.mem_singleton_self n), ite_self]
      rw [bubble_of_sorted hsorted]
      exact .passed n hx h1 h2 h3 hsame
    · have hpass : calls.count 0 < calls.count x ↔ ¬ (e.count 0).cnt x < (e.count 0).cnt 0 := by
        rw [hc, hc, List.count_cons_self, List.count_cons_of_ne hx.symm]
        omega
      by_cases hlt : (e.count 0).cnt x < (e.count 0).cnt 0
      · have hnone : ahead (0 :: calls) = ∅ := by
          rw [ahead_zero, ha, Finset.filter_singleton, if_neg fun h => hpass.mp h hlt]
        rw [bubble_down (e := e.count 0) h1 h2 h3 hlt]
        exact .behind rfl rfl hnone
      · have hsorted : Sorted (e.count 0) := by
          change (e.count 0).cnt e.secondSyscall ≤ (e.count 0).cnt e.firstSyscall ∧
            (e.count 0).cnt e.thirdSyscall ≤ (e.count 0).cnt e.secondSyscall
          rw [h1, h2, h3]
          exact ⟨Nat.not_lt.mp hlt, Nat.le_refl _⟩
        have hsame : ahead (0 :: calls) = {x} := by
          rw [ahead_zero, ha, Finset.filter_singleton, if_pos (hpass.mpr hlt)]
        rw [bubble_of_sorted hsorted]
        exact .passed x hx h1 h2 h3 hsame
  · have h0 : n ≠ 0 := fun h0 => hn (by simp [Env.slots, h0, h2])
    have hxn : n ≠ x := fun he => hn (by simp [Env.slots, he, h1])
    have hthird : (e.count n).thirdSyscall = 0 := h3
    rw [record_notMem hn]
    by_cases hlt : (e.count n).cnt 0 < (e.count n).cnt n
    · left
      rw [ahead_cons hc h0, if_pos hlt, ha]
      refine ⟨(Finset.card_pair hxn).ge, ?_⟩
      obtain ⟨-, ⟨-, hle⟩ | ⟨-, hp⟩⟩ := insert_spec (n := n) (sorted_count hs hn)
      · exact absurd (hthird ▸ hlt) (Nat.not_lt.mpr hle)
      · rw [hp.nodup_iff]
        change [n, e.firstSyscall, e.secondSyscall].Nodup
        rw [h1, h2]
        simp [h0, hxn, hx]
    · right
      rw [insert_none (hthird.symm ▸ hlt)]
      exact .passed x hx h1 h2 h3 (by rw [ahead_cons hc h0, if_neg hlt, ha])

end

theorem record_inv {e : Env} {calls : List Int32} {n : Int32} (hi : Inv e calls)
    (h : (n :: calls).count n < 2 ^ 32) : Inv (e.record n) (n :: calls) := by
  have hc := cnt_count hi.counts h
  have hle : ∀ m, e.cnt m ≤ (e.count n).cnt m := fun m => by
    rw [hc, hi.counts, List.count_cons]
    exact Nat.le_add_right _ _
  refine ⟨fun m => (record_cnt e n m).trans (hc m), record_sorted hi.sorted n,
    record_others hi.sorted hle hi.others, ?_⟩
  rcases hi.shape with ⟨hp, hnodup⟩ | ⟨hp, hd⟩
  · exact .inl ⟨.inl hp, record_nodup hi.sorted hnodup⟩
  · have hstep : 2 ≤ (ahead (n :: calls)).card ∧ (e.record n).slots.Nodup ∨
        Doubled (e.record n) (n :: calls) := by
      cases hd with
      | behind h1 h2 ha => exact .inr (record_behind hc hle hi.sorted h1 h2 ha)
      | passed x hx h1 h2 h3 ha => exact record_ahead hc hle hi.sorted hx h1 h2 h3 ha
    rcases hstep with ⟨hcard, hnodup⟩ | hd'
    · exact .inl ⟨.inr hcard, hnodup⟩
    · exact .inr ⟨fun hp' => hp'.elim hp (Nat.not_le.mpr (Nat.lt_succ_of_le hd'.card_ahead)), hd'⟩

/-! ## All calls -/

/-- A history fits if a longer one does. -/
theorem FitCounts.of_append {ns calls : List Int32} (h : FitCounts (ns ++ calls)) : FitCounts calls := by
  intro n hn
  have hlt := h n (List.mem_append_right ns hn)
  rw [List.count_append] at hlt
  omega

theorem records_inv (ns : List Int32) {e : Env} {calls : List Int32} (hi : Inv e calls)
    (h : FitCounts (ns.reverse ++ calls)) : Inv (ns.foldl Env.record e) (ns.reverse ++ calls) := by
  induction ns generalizing e calls with
  | nil => exact hi
  | cons n ns ih =>
    have hcons : (n :: ns).reverse ++ calls = ns.reverse ++ n :: calls := by simp
    rw [hcons] at h ⊢
    exact ih (record_inv hi (h.of_append n List.mem_cons_self)) h

/-- What `print_syscall` does after the loop leaves the numbers as they are. -/
theorem printSyscall_inv {b : Batch} {e : Env} {calls : List Int32}
    (h : Inv (b.recordSyscall.foldl Env.record e) calls) : Inv (printSyscall b e).2 calls where
  counts := h.counts
  sorted := h.sorted
  others := h.others
  shape := h.shape.imp_right fun hd => ⟨hd.1, match hd.2 with
    | .behind h1 h2 ha => .behind h1 h2 ha
    | .passed x hx h1 h2 h3 ha => .passed x hx h1 h2 h3 ha⟩

theorem step_inv {b : Batch} {st st' : St} (hi : Inv st.env st.calls) (hf : Fits b st)
    (h : step b st = some st') : Inv st'.env st'.calls := by
  unfold step at h
  split at h
  · cases h
    exact printSyscall_inv (records_inv _ hi hf)
  · cases h

theorem inv_of_run {st : St} (h : Run step Fits init st) : Inv st.env st.calls :=
  Run.inv (P := fun st => Inv st.env st.calls) h init_inv fun _ _ _ hi hf h => step_inv hi hf h

theorem Inv.ranked_iff {e : Env} {calls : List Int32} (hi : Inv e calls) : Ranked e ↔ Parted calls := by
  constructor
  · intro h
    rcases hi.shape with ⟨hp, -⟩ | ⟨-, hd⟩
    · exact hp
    · exact absurd h.different hd.not_nodup
  · intro h
    rcases hi.shape with ⟨-, hnodup⟩ | ⟨hp, -⟩
    · exact ⟨hnodup, hi.sorted.1, hi.sorted.2, hi.others⟩
    · exact absurd h hp

/-- Without wraps, the slots show the three most frequent numbers if and only if two numbers
    have been ahead of number 0 at once. -/
theorem topThree_iff {st : St} (h : Run step Fits init st) :
    TopThree st ↔ (3 ≤ st.calls.toFinset.card → Parted st.calls) :=
  imp_congr_right fun _ => (inv_of_run h).ranked_iff

theorem step_calls {b : Batch} {st st' : St} (h : step b st = some st') :
    st'.calls = b.recordSyscall.reverse ++ st.calls := by
  unfold step at h
  split at h
  · cases h
    rfl
  · cases h

/-- The law holds in every run in which two numbers have been ahead of number 0 at once by the
    time three have been seen. -/
theorem topThree_of_run {st : St} (h : Run step Settled init st) : TopThree st := by
  have hinv : Inv st.env st.calls ∧ (3 ≤ st.calls.toFinset.card → Parted st.calls) := by
    refine Run.inv (P := fun st => Inv st.env st.calls ∧ (3 ≤ st.calls.toFinset.card → Parted st.calls)) h
      ⟨init_inv, nofun⟩ ?_
    intro b st st' hi hs hstep
    refine ⟨step_inv hi.1 hs.1 hstep, ?_⟩
    rw [step_calls hstep]
    exact hs.2
  intro hcard
  exact hinv.1.ranked_iff.mpr (hinv.2 hcard)

/-- Two batches with the numbers 0 to 3. -/
theorem four_numbers_are_ranked :
    ∃ st, Run step Settled init st ∧ st.calls.toFinset.card = 4 ∧ TopThree st := by
  obtain ⟨st, hr, hs⟩ := run_of_execIf_any step Settled init
    [⟨1, 30, 20, 3, [3, 1, 1]⟩, ⟨1, 40, 25, 3, [0, 2, 2]⟩]
    (fun st => decide (st.calls.toFinset.card = 4)) (by decide)
  exact ⟨st, hr, of_decide_eq_true hs, topThree_of_run hr⟩

/-- The call 0 and two others, one time each: all slots show number 0. -/
theorem zero_takes_all_slots : ∃ st, Run step anyEvent init st ∧ ¬ TopThree st := by
  obtain ⟨st, hr, hs⟩ := run_of_exec_any step init [⟨1, 30, 20, 3, [0, 1, 2]⟩]
    (fun st => decide (3 ≤ st.calls.toFinset.card ∧ st.env.slots = [0, 0, 0])) (by decide)
  obtain ⟨hcard, hslots⟩ := of_decide_eq_true hs
  refine ⟨st, hr, fun h => ?_⟩
  have hnodup := (h hcard).different
  rw [hslots] at hnodup
  exact absurd hnodup (by decide)

end Ksight.ProcImage.TopSyscalls

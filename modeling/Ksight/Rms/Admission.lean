/-
  Ksight.Rms.Admission — the utilization of the admitted tasks
  (src/process/sched_ext_rms/src/librms.cpp: `check_rms_params`, `sched_set_rms_params`,
  `drain_rms_exit_queue`).

  Calls do not overlap, start with an empty ledger, and a drain names the budget and period
  of a task that is admitted on its CPU. `admitted` are the tasks that were admitted and not
  drained, each with its budget and period. Any of a call's system calls may fail, and the
  scheduler may change `task_attr_hmap` in between.

  The law (`Sound`): the tasks admitted on a CPU meet the Liu-Layland bound. The test is
  made against the bound for the new number of tasks; a drain lowers the number, which
  raises the bound (`llBound_anti`), so the law holds in every run (`admitted_sound`).
-/

import Mathlib.Algebra.BigOperators.Group.Multiset.Basic
import Ksight.Lib.LiuLayland
import Ksight.Lib.Run
import Ksight.Rms.Librms

namespace Ksight.Rms.Admission

open Ksight.Lib

structure Job where
  budget : UInt64
  period : UInt64
  deriving DecidableEq

def Job.share (j : Job) : ℚ := Rms.share j.budget j.period

def utilization (jobs : Multiset Job) : ℚ := (jobs.map Job.share).sum

structure St where
  maps : LibMaps
  admitted : Cpu → Multiset Job

def init (attrs : BoundedMap Pid TaskAttr maxTaskNr) : St := ⟨⟨attrs, fun _ => ⟨0, 0⟩⟩, fun _ => 0⟩

inductive Ev where
  | register (sys : Sys) (pid : Pid) (cpu : Cpu) (job : Job)
  | drain (sys : Sys) (getcpu cpu : Cpu) (job : Job)
  | attrs (taskAttr : BoundedMap Pid TaskAttr maxTaskNr)

def step : Ev → St → Option St
  | .register sys pid cpu job, s =>
    let r := schedSetRmsParams sys pid cpu job.budget job.period s.maps
    some {
      maps := r.2
      admitted :=
        if r.1 = -1 then s.admitted
        else Function.update s.admitted cpu (job ::ₘ s.admitted cpu) }
  | .drain sys getcpu cpu job, s =>
    let c := drainCpu getcpu cpu
    if job ∈ s.admitted c then
      some {
        maps := (drainRmsExitQueue sys getcpu cpu job.budget job.period s.maps).2
        admitted :=
          if sys.drains then Function.update s.admitted c ((s.admitted c).erase job) else s.admitted }
    else none
  | .attrs taskAttr, s => some { s with maps := { s.maps with taskAttr } }

/-! ## The law -/

def Sound (s : St) : Prop :=
  ∀ cpu, s.admitted cpu ≠ 0 → LiuLayland (utilization (s.admitted cpu)) (s.admitted cpu).card

/-! ## Utilizations -/

theorem share_nonneg (j : Job) : 0 ≤ j.share := div_nonneg (Nat.cast_nonneg _) (Nat.cast_nonneg _)

theorem utilization_nonneg (jobs : Multiset Job) : 0 ≤ utilization jobs :=
  Multiset.sum_nonneg fun _ hx => by
    obtain ⟨j, -, rfl⟩ := Multiset.mem_map.mp hx
    exact share_nonneg j

@[simp] theorem utilization_cons (j : Job) (jobs : Multiset Job) :
    utilization (j ::ₘ jobs) = utilization jobs + j.share := by
  rw [utilization, Multiset.map_cons, Multiset.sum_cons, add_comm, utilization]

theorem jobs_iff {jobs : Multiset Job} (h : jobs ≠ 0) :
    LiuLayland (utilization jobs) jobs.card ↔ (utilization jobs : ℝ) ≤ llBound jobs.card :=
  liuLayland_iff (by exact_mod_cast utilization_nonneg jobs) (Multiset.card_pos.mpr h)

/-- Tasks that leave take nothing from the bound. -/
theorem jobs_of_cons {j : Job} {jobs : Multiset Job} (h : jobs ≠ 0)
    (hb : LiuLayland (utilization (j ::ₘ jobs)) (j ::ₘ jobs).card) :
    LiuLayland (utilization jobs) jobs.card := by
  rw [jobs_iff Multiset.cons_ne_zero] at hb
  rw [jobs_iff h]
  have hj : (0 : ℝ) ≤ j.share := by exact_mod_cast share_nonneg j
  calc (utilization jobs : ℝ) ≤ utilization (j ::ₘ jobs) := by rw [utilization_cons]; push_cast; linarith
    _ ≤ llBound (j ::ₘ jobs).card := hb
    _ ≤ llBound jobs.card :=
      llBound_anti (Multiset.card_pos.mpr h) (by rw [Multiset.card_cons]; exact Nat.le_succ _)

/-- The test that `check_rms_params` makes of a new task. -/
theorem jobs_of_check {a : TaskAttr} {jobs : Multiset Job}
    (h : checkRmsParams a (utilization jobs) jobs.card = true) :
    LiuLayland (utilization (⟨a.budget, a.period⟩ ::ₘ jobs))
      (Multiset.card (⟨a.budget, a.period⟩ ::ₘ jobs)) := by
  unfold checkRmsParams at h
  split at h
  · cases h
  have hb := (rmsBound_iff _ (by omega)).mp h
  have hcard : (((jobs.card : ℤ) + 1 : ℤ) : ℝ) = ((jobs.card + 1 : ℕ) : ℝ) := by push_cast; rfl
  rw [hcard] at hb
  rwa [jobs_iff Multiset.cons_ne_zero, llBound, utilization_cons, Multiset.card_cons]

/-! ## The invariant -/

/-- The ledger entry of a CPU accounts for the tasks admitted on it. -/
structure Inv (s : St) : Prop where
  ledger : ∀ cpu, s.maps.rmsEntry cpu = ⟨utilization (s.admitted cpu), (s.admitted cpu).card⟩
  cpus : ∀ cpu, s.admitted cpu ≠ 0 → inEntryMap cpu = true
  sound : Sound s

theorem init_inv (attrs : BoundedMap Pid TaskAttr maxTaskNr) : Inv (init attrs) where
  ledger _ := rfl
  cpus _ h := absurd rfl h
  sound _ h := absurd rfl h

theorem register_inv {s : St} (hi : Inv s) (sys : Sys) (pid : Pid) (cpu : Cpu) (job : Job) {s' : St}
    (h : step (.register sys pid cpu job) s = some s') : Inv s' := by
  cases h
  rcases schedSetRmsParams_cases sys pid cpu job.budget job.period s.maps with
    h | ⟨attrs, -, hc, ⟨-, h⟩ | ⟨-, h⟩⟩ <;> rw [h]
  · exact ⟨hi.ledger, hi.cpus, hi.sound⟩
  · have hpid : ((pid : ℤ), (⟨attrs, Function.update s.maps.rmsEntry cpu
        (admitEntry (s.maps.rmsEntry cpu) job.budget job.period)⟩ : LibMaps)).1 ≠ -1 := by
      show (pid : ℤ) ≠ -1
      omega
    rw [if_neg hpid]
    rw [hi.ledger] at hc ⊢
    refine ⟨fun c => ?_, fun c hne => ?_, fun c hne => ?_⟩ <;> by_cases e : c = cpu
    · subst e
      ext <;> simp [admitEntry, Job.share]
    · simpa [e] using hi.ledger c
    · subst e
      exact admitted_cpu hc
    · exact hi.cpus c (by simpa [e] using hne)
    · subst e
      have hb := jobs_of_check hc
      simp only [Function.update_self]
      exact hb
    · simpa [e] using hi.sound c (by simpa [e] using hne)
  · exact ⟨hi.ledger, hi.cpus, hi.sound⟩

theorem drain_inv {s : St} (hi : Inv s) (sys : Sys) (getcpu cpu : Cpu) (job : Job) {s' : St}
    (h : step (.drain sys getcpu cpu job) s = some s') : Inv s' := by
  simp only [step, Option.ite_none_right_eq_some, Option.some.injEq, drainRmsExitQueue_maps] at h
  obtain ⟨hm, rfl⟩ := h
  generalize drainCpu getcpu cpu = c at hm ⊢
  have hc : inEntryMap c = true := hi.cpus c fun h => by simp [h] at hm
  rcases hs : sys.drains with _ | _
  · exact ⟨hi.ledger, hi.cpus, hi.sound⟩
  · obtain ⟨jobs, hj⟩ := Multiset.exists_cons_of_mem hm
    have hledger := hi.ledger c
    simp only [hc, hj, Bool.and_self, if_true, Multiset.erase_cons_head]
    rw [hledger, hj]
    refine ⟨fun d => ?_, fun d hne => ?_, fun d hne => ?_⟩ <;> by_cases e : d = c
    · subst e
      ext <;> simp [drainEntry, Job.share]
    · simpa [e] using hi.ledger d
    · exact e ▸ hc
    · exact hi.cpus d (by simpa [e] using hne)
    · subst e
      have hb := hi.sound d (by simp [hj])
      rw [hj] at hb
      simp only [Function.update_self]
      exact jobs_of_cons (by simpa using hne) hb
    · simpa [e] using hi.sound d (by simpa [e] using hne)

theorem step_inv {e : Ev} {s s' : St} (hi : Inv s) (h : step e s = some s') : Inv s' := by
  cases e with
  | register sys pid cpu job => exact register_inv hi sys pid cpu job h
  | drain sys getcpu cpu job => exact drain_inv hi sys getcpu cpu job h
  | attrs taskAttr =>
    cases h
    exact ⟨hi.ledger, hi.cpus, hi.sound⟩

/-- The admitted tasks meet the bound in every state of every run. -/
theorem admitted_sound {attrs : BoundedMap Pid TaskAttr maxTaskNr} {s : St}
    (h : Run step anyEvent (init attrs) s) : Sound s :=
  (h.inv (init_inv attrs) fun _ _ _ hi _ hs => step_inv hi hs).sound

/-- Three tasks with 0.75 of CPU 0 are admitted, and the first one leaves. -/
theorem three_tasks_and_a_drain :
    ∃ s, Run step anyEvent (init .empty) s ∧ (s.admitted 0).card = 2 ∧ Sound s := by
  obtain ⟨s, hr, hs⟩ := run_of_exec_any step (init .empty)
    [.register .allOk 7 0 ⟨30, 100⟩, .register .allOk 8 0 ⟨20, 100⟩, .register .allOk 9 0 ⟨25, 100⟩,
      .drain .allOk 0 0 ⟨30, 100⟩]
    (fun s => decide ((s.admitted 0).card = 2)) (by decide +kernel)
  exact ⟨s, hr, of_decide_eq_true hs, admitted_sound hr⟩

end Ksight.Rms.Admission

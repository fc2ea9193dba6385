/-
  Ksight.Rms.LedgerAgree — the ledger and the registered tasks
  (src/process/sched_ext_rms/src/librms.cpp and `exit_rms_task` of scx_rms.bpf.c).

  Two stores describe the admitted tasks: `task_attr_hmap`, which the kernel side cleans
  when a task exits (`rms_stopping` of a dead task, `rms_disable`, both through
  `exit_rms_task`), and the ledger `rms_entry_map`, which only librms writes. Calls do
  not overlap. A drain names the CPU, budget and period of its caller's registration and
  is the last thing its caller does. In between the scheduler's callbacks do what they
  like to the timers and to the flags of an entry.

  The law (`Agree`): when every task that called drain has exited, each ledger entry is
  the number and the total share of the live tasks registered on its CPU. It holds in
  every run in which a task is admitted only while it has no entry, a registered task
  drains before it exits, and the updates of the ledger succeed (`ledger_agrees`). A task
  that dies without draining keeps its share for good (`a_sudden_death_keeps_its_share`).
-/

import Mathlib.Algebra.BigOperators.Group.Finset.Basic
import Ksight.Lib.Run
import Ksight.Rms.Librms

namespace Ksight.Rms.LedgerAgree

open Ksight.Lib

structure St where
  live : Finset Pid
  /-- The live tasks that have called drain. -/
  drained : Finset Pid
  maps : Maps
  rmsEntry : Cpu → UtilizationEntry

def init : St := ⟨∅, ∅, .empty, fun _ => ⟨0, 0⟩⟩

inductive Ev where
  | spawn (pid : Pid)
  | schedSetRmsParams (sys : Sys) (pid : Pid) (cpu : Cpu) (budget period : UInt64)
  | schedRms (sys : Sys) (getcpu : Cpu) (setaffinity setattr : Bool) (pid : Pid) (cpu : Cpu)
    (budget period : UInt64)
  | drain (sys : Sys) (getcpu : Cpu) (pid : Pid)
  /-- `rms_stopping` of a dead task, or `rms_disable`. -/
  | exit (clk : Nat → UInt64) (pid : Pid)
  /-- What the other callbacks write: timers, and the flags of an entry. -/
  | timers (budgetTimer schedTimer : BoundedMap Pid RmsTimer maxTaskNr)
  | flags (pid : Pid) (isYield isMigrate : UInt64)

def lib (s : St) : LibMaps := ⟨s.maps.taskAttr, s.rmsEntry⟩

def withLib (s : St) (m : LibMaps) : St :=
  { s with maps := { s.maps with taskAttr := m.taskAttr }, rmsEntry := m.rmsEntry }

def step : Ev → St → Option St
  | .spawn pid, s => if pid ∈ s.live then none else some { s with live := insert pid s.live }
  | .schedSetRmsParams sys pid cpu budget period, s =>
    if pid ∈ s.live ∧ pid ∉ s.drained then
      some (withLib s (Rms.schedSetRmsParams sys pid cpu budget period (lib s)).2)
    else none
  | .schedRms sys getcpu setaffinity setattr pid cpu budget period, s =>
    if pid ∈ s.live ∧ pid ∉ s.drained then
      some (withLib s (Rms.schedRms sys getcpu setaffinity setattr pid cpu budget period (lib s)).2)
    else none
  | .drain sys getcpu pid, s =>
    match s.maps.taskAttr.lookup pid with
    | some a =>
      if pid ∈ s.live ∧ pid ∉ s.drained then
        some { withLib s (drainRmsExitQueue sys getcpu a.cpu a.budget a.period (lib s)).2 with
               drained := insert pid s.drained }
      else none
    | none => none
  | .exit clk pid, s =>
    if pid ∈ s.live then
      some { s with
        live := s.live.erase pid
        drained := s.drained.erase pid
        maps := exitRmsTask none clk pid s.maps }
    else none
  | .timers b p, s => some { s with maps := { s.maps with budgetTimer := b, schedTimer := p } }
  | .flags pid y m, s =>
    some { s with maps := { s.maps with
      taskAttr := s.maps.taskAttr.modify pid fun a => { a with isYield := y, isMigrate := m } } }

/-! ## The law -/

abbrev Attrs := BoundedMap Pid TaskAttr maxTaskNr

/-- The entry of `pid` names `cpu`. -/
def names (m : Attrs) (cpu : Cpu) (pid : Pid) : Bool := (m.lookup pid).any fun a => a.cpu == cpu

def shareOf (m : Attrs) (pid : Pid) : ℚ := ((m.lookup pid).map fun a => share a.budget a.period).getD 0

/-- The ledger entry of a CPU that accounts for exactly the tasks `ps`. -/
def account (m : Attrs) (ps : Finset Pid) (cpu : Cpu) : UtilizationEntry :=
  ⟨∑ p ∈ ps.filter fun p => names m cpu p, shareOf m p, (ps.filter fun p => names m cpu p).card⟩

def Agree (s : St) : Prop := s.drained = ∅ → ∀ cpu, s.rmsEntry cpu = account s.maps.taskAttr s.live cpu

/-- A registration that `check_rms_params` lets through is a first one, and reaches the ledger. -/
def RegistersOnce (s : St) (sys : Sys) (pid : Pid) (cpu : Cpu) (budget period : UInt64) : Prop :=
  checkRmsParams (newParams cpu budget period) (s.rmsEntry cpu).cpuUtilization
    (s.rmsEntry cpu).taskNum = true →
    s.maps.taskAttr.lookup pid = none ∧ sys.updateRmsEntry = true

instance (s : St) (sys : Sys) (pid : Pid) (cpu : Cpu) (budget period : UInt64) :
    Decidable (RegistersOnce s sys pid cpu budget period) := inferInstanceAs (Decidable (_ → _))

/-- The condition: no task registers again, none dies undrained, and no call leaves the
    ledger unchanged where it should not. -/
def Orderly : Ev → St → Prop
  | .schedSetRmsParams sys pid cpu budget period, s => RegistersOnce s sys pid cpu budget period
  | .schedRms sys getcpu _ _ pid cpu budget period, s =>
    RegistersOnce s sys pid (if cpu ≥ 0 then cpu else getcpu) budget period
  | .drain sys _ _, _ => sys.drains = true
  | .exit _ pid, s => s.maps.taskAttr.lookup pid = none ∨ pid ∈ s.drained
  | _, _ => True

instance : ∀ (e : Ev) (s : St), Decidable (Orderly e s)
  | .schedSetRmsParams .., _ | .schedRms .., _ => inferInstanceAs (Decidable (RegistersOnce ..))
  | .drain .., _ => inferInstanceAs (Decidable (_ = _))
  | .exit .., _ => inferInstanceAs (Decidable (_ ∨ _))
  | .spawn _, _ | .timers .., _ | .flags .., _ => inferInstanceAs (Decidable True)

/-! ## Accounts -/

theorem account_congr {m m' : Attrs} {ps : Finset Pid} {cpu : Cpu}
    (h : ∀ p ∈ ps, names m' cpu p = names m cpu p ∧ shareOf m' p = shareOf m p) :
    account m' ps cpu = account m ps cpu := by
  have hf : (ps.filter fun p => names m' cpu p) = ps.filter fun p => names m cpu p :=
    Finset.filter_congr fun p hp => by rw [(h p hp).1]
  simp only [account, hf, UtilizationEntry.mk.injEq, and_true]
  exact Finset.sum_congr rfl fun p hp => (h p (Finset.mem_filter.mp hp).1).2

theorem account_insert {m : Attrs} {ps : Finset Pid} {pid : Pid} {a : TaskAttr} (hn : pid ∉ ps)
    (ha : m.lookup pid = some a) (cpu : Cpu) :
    account m (insert pid ps) cpu =
      if cpu = a.cpu then admitEntry (account m ps cpu) a.budget a.period else account m ps cpu := by
  have hs : shareOf m pid = share a.budget a.period := by simp [shareOf, ha]
  have hm : pid ∉ ps.filter fun p => names m cpu p := fun h => hn (Finset.mem_filter.mp h).1
  unfold account
  rw [Finset.filter_insert]
  by_cases hc : cpu = a.cpu
  · subst hc
    rw [if_pos (by simp [names, ha]), if_pos rfl, Finset.sum_insert hm, Finset.card_insert_of_notMem hm, hs]
    ext <;> simp [admitEntry, add_comm]
  · rw [if_neg (by simpa [names, ha] using fun h => hc h.symm), if_neg hc]

theorem account_erase {m : Attrs} {ps : Finset Pid} {pid : Pid} {a : TaskAttr} (hn : pid ∈ ps)
    (ha : m.lookup pid = some a) (cpu : Cpu) :
    account m (ps.erase pid) cpu =
      if cpu = a.cpu then drainEntry (account m ps cpu) a.budget a.period else account m ps cpu := by
  have h := account_insert (Finset.notMem_erase pid ps) ha cpu
  rw [Finset.insert_erase hn] at h
  rw [h]
  split
  · ext <;> simp [admitEntry, drainEntry]
  · rfl

theorem account_insert_absent {m : Attrs} {ps : Finset Pid} {pid : Pid} (ha : m.lookup pid = none)
    (cpu : Cpu) :
    account m (insert pid ps) cpu = account m ps cpu := by
  unfold account
  rw [Finset.filter_insert, if_neg (by simp [names, ha])]

/-! ## The invariant -/

/-- The ledger accounts for the live tasks that have not drained. -/
structure Inv (s : St) : Prop where
  ledger : ∀ cpu, s.rmsEntry cpu = account s.maps.taskAttr (s.live \ s.drained) cpu
  attr : ∀ p a, s.maps.taskAttr.lookup p = some a → p ∈ s.live ∧ inEntryMap a.cpu = true

theorem init_inv : Inv init := ⟨fun _ => rfl, fun _ _ h => by simp [init, Maps.empty] at h⟩

theorem register_inv {s : St} (hs : Inv s) {sys : Sys} {pid : Pid} (cpu : Cpu) (budget period : UInt64)
    (hp : pid ∈ s.live ∧ pid ∉ s.drained) (hok : RegistersOnce s sys pid cpu budget period) :
    Inv (withLib s (Rms.schedSetRmsParams sys pid cpu budget period (lib s)).2) := by
  rcases schedSetRmsParams_cases sys pid cpu budget period (lib s) with h | ⟨attrs, hu, hc, ⟨-, h⟩ | ⟨hf, -⟩⟩
  · rw [h]; exact hs
  · rw [h]
    have hnone := (hok hc).1
    have hl := fun p => BoundedMap.lookup_update hu p
    have ha : attrs.lookup pid = some (newParams cpu budget period) := by rw [hl, if_pos rfl]
    have hne : ∀ p, p ≠ pid → attrs.lookup p = s.maps.taskAttr.lookup p :=
      fun p e => by rw [hl, if_neg e]; rfl
    have hmem : pid ∈ s.live \ s.drained := Finset.mem_sdiff.mpr hp
    constructor
    · intro c
      -- the new task is the only change of the account
      have hsame : account attrs ((s.live \ s.drained).erase pid) c =
          account s.maps.taskAttr (s.live \ s.drained) c := by
        rw [account_congr (m := s.maps.taskAttr) fun p hp' => by
          simp [names, shareOf, hne p (Finset.ne_of_mem_erase hp')]]
        conv_rhs => rw [← Finset.insert_erase hmem, account_insert_absent hnone]
      have : account attrs (insert pid ((s.live \ s.drained).erase pid)) c =
          if c = cpu then admitEntry (account attrs ((s.live \ s.drained).erase pid) c) budget period
          else account attrs ((s.live \ s.drained).erase pid) c :=
        account_insert (Finset.notMem_erase pid _) ha c
      rw [Finset.insert_erase hmem, hsame, ← hs.ledger c] at this
      show Function.update s.rmsEntry cpu _ c = account attrs (s.live \ s.drained) c
      rw [this]
      by_cases e : c = cpu
      · subst e; rw [Function.update_self, if_pos rfl]; rfl
      · rw [Function.update_of_ne e, if_neg e]
    · intro p a hp'
      by_cases e : p = pid
      · subst e
        cases ha.symm.trans hp'
        exact ⟨hp.1, admitted_cpu hc⟩
      · exact hs.attr p a ((hne p e).symm.trans hp')
  · rw [(hok hc).2] at hf; cases hf

/-- `sched_rms` writes the maps through `sched_set_rms_params` and nowhere else. -/
theorem schedRms_maps (sys : Sys) (getcpu : Cpu) (aff at' : Bool) (pid : Pid) (cpu : Cpu)
    (budget period : UInt64) (m : LibMaps) : (Rms.schedRms sys getcpu aff at' pid cpu budget period m).2 =
      (Rms.schedSetRmsParams sys pid (if cpu ≥ 0 then cpu else getcpu) budget period m).2 := by
  simp only [Rms.schedRms]
  repeat' split
  all_goals rfl

theorem drain_inv {s : St} (hs : Inv s) {sys : Sys} (hok : sys.drains = true) (getcpu : Cpu) {pid : Pid}
    {a : TaskAttr} (ha : s.maps.taskAttr.lookup pid = some a) (hp : pid ∈ s.live ∧ pid ∉ s.drained) :
    Inv { withLib s (drainRmsExitQueue sys getcpu a.cpu a.budget a.period (lib s)).2 with
          drained := insert pid s.drained } := by
  rw [drainRmsExitQueue_ok hok getcpu _ _ _ (hs.attr pid a ha).2]
  refine ⟨?_, hs.attr⟩
  intro c
  have hset : s.live \ insert pid s.drained = (s.live \ s.drained).erase pid := by
    ext q; simp only [Finset.mem_sdiff, Finset.mem_insert, Finset.mem_erase]; tauto
  show Function.update s.rmsEntry a.cpu _ c = account s.maps.taskAttr (s.live \ insert pid s.drained) c
  rw [hset, account_erase (Finset.mem_sdiff.mpr hp) ha, ← hs.ledger c]
  by_cases e : c = a.cpu
  · subst e; rw [Function.update_self, if_pos rfl]; rfl
  · rw [Function.update_of_ne e, if_neg e]

theorem exit_inv {s : St} (hs : Inv s) (clk : Nat → UInt64) {pid : Pid}
    (hok : s.maps.taskAttr.lookup pid = none ∨ pid ∈ s.drained) :
    Inv { s with
      live := s.live.erase pid
      drained := s.drained.erase pid
      maps := exitRmsTask none clk pid s.maps } := by
  rw [exitRmsTask_free]
  constructor
  · intro c
    have hset : s.live.erase pid \ s.drained.erase pid = (s.live \ s.drained).erase pid := by
      ext q; simp only [Finset.mem_sdiff, Finset.mem_erase]; tauto
    show s.rmsEntry c = account (s.maps.taskAttr.delete pid) (s.live.erase pid \ s.drained.erase pid) c
    rw [hset, account_congr (m := s.maps.taskAttr) fun p hp => by
      simp [names, shareOf, BoundedMap.lookup_delete_ne _ (Finset.ne_of_mem_erase hp)], hs.ledger c]
    by_cases hm : pid ∈ s.live \ s.drained
    · rcases hok with hok | hok
      · conv_lhs => rw [← Finset.insert_erase hm, account_insert_absent hok]
      · exact absurd hok (Finset.mem_sdiff.mp hm).2
    · rw [Finset.erase_eq_of_notMem hm]
  · intro p a h
    simp only [BoundedMap.lookup_delete, Option.ite_none_left_eq_some] at h
    exact ⟨Finset.mem_erase.mpr ⟨h.1, (hs.attr p a h.2).1⟩, (hs.attr p a h.2).2⟩

theorem flags_inv {s : St} (hs : Inv s) (pid : Pid) (y m : UInt64) :
    Inv { s with maps := { s.maps with
      taskAttr := s.maps.taskAttr.modify pid fun a => { a with isYield := y, isMigrate := m } } } := by
  have hl : ∀ p, (s.maps.taskAttr.modify pid fun a => { a with isYield := y, isMigrate := m }).lookup p =
      (s.maps.taskAttr.lookup p).map fun a =>
        if p = pid then { a with isYield := y, isMigrate := m } else a := by
    intro p
    rw [BoundedMap.lookup_modify]
    split
    · subst p; rfl
    · simp
  constructor
  · intro c
    rw [hs.ledger c]
    refine (account_congr ?_).symm
    intro p _
    simp only [names, shareOf, hl]
    cases s.maps.taskAttr.lookup p with
    | none => exact ⟨rfl, rfl⟩
    | some a => by_cases e : p = pid <;> simp [e]
  · intro p a h
    simp only [hl, Option.map_eq_some_iff] at h
    obtain ⟨b, hb, rfl⟩ := h
    have := hs.attr p b hb
    split <;> exact this

theorem step_inv {e : Ev} {s t : St} (hs : Inv s) (hok : Orderly e s) (h : step e s = some t) : Inv t := by
  cases e with
  | spawn pid =>
    obtain ⟨hp, h⟩ := Option.ite_none_left_eq_some.mp h
    cases h
    have ha : s.maps.taskAttr.lookup pid = none := by
      rcases hl : s.maps.taskAttr.lookup pid with _ | a
      · rfl
      · exact absurd (hs.attr pid a hl).1 hp
    refine ⟨?_, fun p a hp' => ⟨Finset.mem_insert_of_mem (hs.attr p a hp').1, (hs.attr p a hp').2⟩⟩
    intro c
    rw [hs.ledger c]
    by_cases hd : pid ∈ s.drained
    · rw [show insert pid s.live \ s.drained = s.live \ s.drained from Finset.insert_sdiff_of_mem _ hd]
    · have hset : insert pid s.live \ s.drained = insert pid (s.live \ s.drained) :=
        Finset.insert_sdiff_of_notMem _ hd
      rw [hset, account_insert_absent ha]
  | schedSetRmsParams sys pid cpu budget period =>
    obtain ⟨hp, h⟩ := Option.ite_none_right_eq_some.mp h
    cases h
    exact register_inv hs _ _ _ hp hok
  | schedRms sys getcpu aff at' pid cpu budget period =>
    obtain ⟨hp, h⟩ := Option.ite_none_right_eq_some.mp h
    cases h
    rw [schedRms_maps]
    exact register_inv hs _ _ _ hp hok
  | drain sys getcpu pid =>
    simp only [step] at h
    split at h
    · rename_i a ha
      obtain ⟨hp, h⟩ := Option.ite_none_right_eq_some.mp h
      cases h
      exact drain_inv hs hok getcpu ha hp
    · cases h
  | exit clk pid =>
    obtain ⟨-, h⟩ := Option.ite_none_right_eq_some.mp h
    cases h
    exact exit_inv hs clk hok
  | timers b p => cases h; exact ⟨hs.ledger, hs.attr⟩
  | flags pid y m => cases h; exact flags_inv hs pid y m

/-- The ledger agrees with the registered tasks in every orderly run. -/
theorem ledger_agrees {s : St} (h : Run step Orderly init s) : Agree s := by
  intro hd cpu
  have := (h.inv init_inv fun _ _ _ hi hok hs => step_inv hi hok hs).ledger cpu
  rwa [hd, Finset.sdiff_empty] at this

/-- Two tasks register on CPU 3; one drains and exits, the other stays. -/
theorem ledger_agrees_after_a_drain :
    ∃ s, Run step Orderly init s ∧ s.live = {8} ∧ (s.rmsEntry 3).taskNum = 1 ∧ Agree s := by
  obtain ⟨s, hs, hp⟩ := run_of_execIf_any step Orderly init
    [.spawn 7, .spawn 8, .schedSetRmsParams .allOk 7 3 1 4, .schedRms .allOk 3 true true 8 3 1 2,
      .drain .allOk 3 7, .exit (fun _ => 0) 7]
    (fun s => decide (s.live = {8} ∧ (s.rmsEntry 3).taskNum = 1)) (by decide +kernel)
  obtain ⟨hl, hn⟩ := of_decide_eq_true hp
  exact ⟨s, hs, hl, hn, ledger_agrees hs⟩

/-- Task 7 registers on CPU 3 and is killed: `exit_rms_task` takes its entry, and its
    share of 1/2 stays in the ledger with no task left. -/
theorem a_sudden_death_keeps_its_share : ¬ ∀ s, Run step anyEvent init s → Agree s := by
  intro h
  obtain ⟨s, hs, hp⟩ := run_of_exec_any step init
    [.spawn 7, .schedSetRmsParams .allOk 7 3 1 2, .exit (fun _ => 0) 7]
    (fun s => decide (s.drained = ∅ ∧ s.live = ∅ ∧ (s.rmsEntry 3).taskNum = 1)) (by decide +kernel)
  obtain ⟨hd, hl, hn⟩ := of_decide_eq_true hp
  rw [h s hs hd 3, hl] at hn
  cases hn

end Ksight.Rms.LedgerAgree

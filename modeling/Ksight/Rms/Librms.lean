/-
  Ksight.Rms.Librms — registration and drain in user space
  (src/process/sched_ext_rms/src/librms.cpp).

  `sched_set_rms_params` writes the caller's parameters to `task_attr_hmap` and adds them
  to the ledger `rms_entry_map[cpu]`; `drain_rms_exit_queue` takes a task's share out of
  the ledger. `Sys` says which of the system calls a call makes succeed. `rms_entry_map`
  is an array: a lookup or an update of an index outside it fails.

  Utilizations are exact rationals. `pow(2, 1 / n)` is not rational, so the admission
  test compares powers instead of roots (`rmsBound`); `rmsBound_iff` is the test as the
  code writes it, over the reals.
-/

import Mathlib.Analysis.SpecialFunctions.Pow.Real
import Ksight.Rms.Maps

namespace Ksight.Rms

open Ksight.Lib

/-- librms.cpp's own MAX_CPU_NR, below the 32 of the scheduler. -/
def libMaxCpuNr : Cpu := 24

@[ext] structure UtilizationEntry where
  cpuUtilization : ℚ
  taskNum : ℤ
  deriving DecidableEq

/-- The two pinned maps librms works on. -/
structure LibMaps where
  taskAttr : BoundedMap Pid TaskAttr maxTaskNr
  rmsEntry : Cpu → UtilizationEntry

/-- Which of a call's system calls succeed. -/
structure Sys where
  openTaskAttr : Bool
  openRmsEntry : Bool
  openLock : Bool
  flock : Bool
  lookupEntry : Bool
  updateTaskAttr : Bool
  updateRmsEntry : Bool
  deriving DecidableEq

def Sys.allOk : Sys := ⟨true, true, true, true, true, true, true⟩

def share (budget period : UInt64) : ℚ := budget.toNat / period.toNat

/-- `u <= n * (pow(2, 1 / n) - 1)`. For `n = 0` the code's right side is `0 * inf`. -/
def rmsBound (u : ℚ) (n : ℤ) : Bool :=
  if n = 0 then false
  else if 0 < n then decide (1 + u / n ≤ 0) || decide ((1 + u / n) ^ n.toNat ≤ 2)
  else decide (0 ≤ 1 + u / n) && decide (1 ≤ 2 * (1 + u / n) ^ (-n).toNat)

def checkRmsParams (params : TaskAttr) (curU : ℚ) (curN : ℤ) : Bool :=
  if params.cpu < 0 || params.cpu ≥ libMaxCpuNr || params.budget == 0 || params.period == 0 then false
  else rmsBound (curU + share params.budget params.period) (curN + 1)

def inEntryMap (cpu : Cpu) : Bool := decide (0 ≤ cpu) && decide (cpu < maxCpuNr)

def lookupEntry (ok : Bool) (m : LibMaps) (cpu : Cpu) : Option UtilizationEntry :=
  if ok && inEntryMap cpu then some (m.rmsEntry cpu) else none

def updateEntry (ok : Bool) (m : LibMaps) (cpu : Cpu) (e : UtilizationEntry) : Option LibMaps :=
  if ok && inEntryMap cpu then some { m with rmsEntry := Function.update m.rmsEntry cpu e } else none

def updateAttr (ok : Bool) (m : LibMaps) (pid : Pid) (a : TaskAttr) : Option LibMaps :=
  if ok then (m.taskAttr.update pid a).map fun t => { m with taskAttr := t } else none

/-- The parameters a registration writes. -/
def newParams (cpu : Cpu) (budget period : UInt64) : TaskAttr := ⟨cpu, budget, period, 0, 0⟩

def admitEntry (e : UtilizationEntry) (budget period : UInt64) : UtilizationEntry :=
  ⟨e.cpuUtilization + share budget period, e.taskNum + 1⟩

def drainEntry (e : UtilizationEntry) (budget period : UInt64) : UtilizationEntry :=
  ⟨e.cpuUtilization - share budget period, e.taskNum - 1⟩

/-- `pid` is `gettid()`. -/
def schedSetRmsParams (sys : Sys) (pid : Pid) (cpu : Cpu) (budget period : UInt64) (m : LibMaps) :
    ℤ × LibMaps :=
  if !sys.openTaskAttr then (-1, m)
  else if !sys.openRmsEntry then (-1, m)
  else if !sys.openLock then (-1, m)
  else if !sys.flock then (-1, m)
  else
    match lookupEntry sys.lookupEntry m cpu with
    | none => (-1, m)
    | some entryMap =>
      let params := newParams cpu budget period
      if !checkRmsParams params entryMap.cpuUtilization entryMap.taskNum then (-1, m)
      else
        match updateAttr sys.updateTaskAttr m pid params with
        | none => (-1, m)
        | some m =>
          match updateEntry sys.updateRmsEntry m cpu (admitEntry entryMap budget period) with
          | none => (-1, m)
          | some m => (pid, m)

/-- `getcpu` is what `sched_getcpu` returns, `setaffinity` and `setattr` whether these
    two calls succeed. -/
def schedRms (sys : Sys) (getcpu : Cpu) (setaffinity setattr : Bool) (pid : Pid) (cpu : Cpu)
    (budget period : UInt64) (m : LibMaps) : ℤ × LibMaps :=
  let r := schedSetRmsParams sys pid (if cpu ≥ 0 then cpu else getcpu) budget period m
  if r.1 < 0 then (-1, r.2)
  else if decide (cpu ≥ 0) && !setaffinity then (-1, r.2)
  else if !setattr then (-1, r.2)
  else (0, r.2)

/-- A failed lookup is no error: the call returns 0 and drains nothing. -/
def drainRmsExitQueue (sys : Sys) (getcpu : Cpu) (cpu : Cpu) (budget period : UInt64) (m : LibMaps) :
    ℤ × LibMaps :=
  if !sys.openRmsEntry then (-1, m)
  else
    let schedCpu := if cpu < 0 then getcpu else cpu
    if !sys.openLock then (-1, m)
    else if !sys.flock then (-1, m)
    else
      match lookupEntry sys.lookupEntry m schedCpu with
      | none => (0, m)
      | some entryMap =>
        match updateEntry sys.updateRmsEntry m schedCpu (drainEntry entryMap budget period) with
        | none => (-1, m)
        | some m => (0, m)

/-! ## The admission test over the reals -/

/-- The test as the code writes it, in exact real arithmetic. -/
theorem rmsBound_iff (u : ℚ) {n : ℤ} (hn : n ≠ 0) :
    rmsBound u n = true ↔ (u : ℝ) ≤ n * ((2 : ℝ) ^ (1 / (n : ℝ)) - 1) := by
  have hn' : (n : ℝ) ≠ 0 := by exact_mod_cast hn
  set x : ℝ := 1 + (u : ℝ) / n with hx
  have hcast : ((1 + u / n : ℚ) : ℝ) = x := by push_cast; rfl
  have hr : (0 : ℝ) < (2 : ℝ) ^ (1 / (n : ℝ)) := Real.rpow_pos_of_pos two_pos _
  rcases lt_or_gt_of_ne hn with hneg | hpos
  · -- n < 0: dividing by n turns the inequality round
    obtain ⟨m, rfl⟩ : ∃ m : ℕ, n = -(m : ℤ) := ⟨n.natAbs, by omega⟩
    have hm : (m : ℝ) ≠ 0 := by simpa using hn'
    have hm0 : (0 : ℝ) < m := lt_of_le_of_ne (Nat.cast_nonneg m) (Ne.symm hm)
    have key : (u : ℝ) ≤ ((-(m : ℤ) : ℤ) : ℝ) * ((2 : ℝ) ^ (1 / ((-(m : ℤ) : ℤ) : ℝ)) - 1) ↔
        (2 : ℝ) ^ (1 / ((-(m : ℤ) : ℤ) : ℝ)) ≤ x := by
      rw [hx, ← sub_le_iff_le_add', le_div_iff_of_neg (by push_cast; linarith), mul_comm]
    rw [key]
    have hpow : (2 : ℝ) ^ (1 / ((-(m : ℤ) : ℤ) : ℝ)) = (1 / 2 : ℝ) ^ (1 / (m : ℝ)) := by
      push_cast
      rw [one_div_neg_eq_neg_one_div, Real.rpow_neg two_pos.le, one_div 2, Real.inv_rpow two_pos.le]
    have hroot : (0 ≤ x ∧ (1 / 2 : ℝ) ≤ x ^ m) ↔ (1 / 2 : ℝ) ^ (1 / (m : ℝ)) ≤ x := by
      constructor
      · intro hx'
        obtain ⟨h0, h⟩ := hx'
        rw [one_div (m : ℝ), Real.rpow_inv_le_iff_of_pos (by norm_num) h0 hm0, Real.rpow_natCast]
        exact h
      · intro h
        have h0 : 0 ≤ x := (Real.rpow_nonneg (by norm_num) _).trans h
        rw [one_div (m : ℝ), Real.rpow_inv_le_iff_of_pos (by norm_num) h0 hm0, Real.rpow_natCast] at h
        exact ⟨h0, h⟩
    rw [hpow, ← hroot]
    have e1 : (0 ≤ 1 + u / ((-(m : ℤ) : ℤ) : ℚ)) ↔ 0 ≤ x := by rw [← hcast]; exact_mod_cast Iff.rfl
    have e2 : (1 ≤ 2 * (1 + u / ((-(m : ℤ) : ℤ) : ℚ)) ^ m) ↔ (1 / 2 : ℝ) ≤ x ^ m := by
      rw [← hcast, div_le_iff₀ two_pos, mul_comm]; exact_mod_cast Iff.rfl
    simp only [rmsBound, if_neg hn, if_neg (show ¬ (0 : ℤ) < -(m : ℤ) by omega), neg_neg, Int.toNat_natCast,
      Bool.and_eq_true, decide_eq_true_eq]
    rw [e1, e2]
  · obtain ⟨m, rfl⟩ : ∃ m : ℕ, n = (m : ℤ) := ⟨n.toNat, by omega⟩
    have hm0 : (0 : ℝ) < m := by exact_mod_cast hpos
    have key : (u : ℝ) ≤ ((m : ℤ) : ℝ) * ((2 : ℝ) ^ (1 / ((m : ℤ) : ℝ)) - 1) ↔
        x ≤ (2 : ℝ) ^ (1 / ((m : ℤ) : ℝ)) := by
      rw [hx, ← le_sub_iff_add_le', div_le_iff₀ (by exact_mod_cast hm0), mul_comm]
    rw [key]
    have hroot : (x ≤ 0 ∨ x ^ m ≤ 2) ↔ x ≤ (2 : ℝ) ^ (1 / (m : ℝ)) := by
      rcases le_or_gt x 0 with h0 | h0
      · exact ⟨fun _ => h0.trans (by simpa using hr.le), fun _ => .inl h0⟩
      · rw [one_div (m : ℝ), Real.le_rpow_inv_iff_of_pos h0.le (by norm_num) hm0, Real.rpow_natCast]
        exact ⟨fun h => h.resolve_left (not_le.mpr h0), .inr⟩
    have e1 : (1 + u / ((m : ℤ) : ℚ) ≤ 0) ↔ x ≤ 0 := by rw [← hcast]; exact_mod_cast Iff.rfl
    have e2 : ((1 + u / ((m : ℤ) : ℚ)) ^ m ≤ 2) ↔ x ^ m ≤ 2 := by rw [← hcast]; exact_mod_cast Iff.rfl
    simp only [rmsBound, if_neg hn, if_pos hpos, Int.toNat_natCast, Bool.or_eq_true, decide_eq_true_eq]
    rw [e1, e2, hroot, Int.cast_natCast]

/-! ## What one call does -/

theorem admitted_cpu {a : TaskAttr} {u : ℚ} {n : ℤ} (h : checkRmsParams a u n = true) :
    inEntryMap a.cpu = true := by
  unfold checkRmsParams at h
  split at h
  · cases h
  · rename_i hc
    simp only [Bool.or_eq_true, decide_eq_true_eq, not_or, not_lt, ge_iff_le, not_le] at hc
    simp only [inEntryMap, Bool.and_eq_true, decide_eq_true_eq]
    exact ⟨hc.1.1.1, hc.1.1.2.trans (by decide)⟩

/-- A call gets as far as the update of `task_attr_hmap`, and makes it. -/
structure Updates (sys : Sys) (pid : Pid) (cpu : Cpu) (budget period : UInt64) (m : LibMaps) : Prop where
  calls : (sys.openTaskAttr && sys.openRmsEntry && sys.openLock && sys.flock && sys.lookupEntry &&
    sys.updateTaskAttr) = true
  onMap : inEntryMap cpu = true
  check : checkRmsParams (newParams cpu budget period) (m.rmsEntry cpu).cpuUtilization
    (m.rmsEntry cpu).taskNum = true
  room : m.taskAttr.HasRoom pid

theorem schedSetRmsParams_updates {sys : Sys} {pid : Pid} {cpu : Cpu} {budget period : UInt64} {m : LibMaps}
    (h : Updates sys pid cpu budget period m) :
    ∃ attrs, m.taskAttr.update pid (newParams cpu budget period) = some attrs ∧
      schedSetRmsParams sys pid cpu budget period m =
        if sys.updateRmsEntry then
          ((pid : ℤ), ⟨attrs, Function.update m.rmsEntry cpu (admitEntry (m.rmsEntry cpu) budget period)⟩)
        else (-1, ⟨attrs, m.rmsEntry⟩) := by
  obtain ⟨hcalls, hcpu, hcheck, hroom⟩ := h
  simp only [Bool.and_eq_true] at hcalls
  obtain ⟨attrs, hu, -⟩ := BoundedMap.update_room hroom (newParams cpu budget period)
  refine ⟨attrs, hu, ?_⟩
  cases hs : sys.updateRmsEntry <;>
    simp [schedSetRmsParams, lookupEntry, updateAttr, updateEntry, hcalls, hcpu, hcheck, hu, hs]

theorem schedSetRmsParams_not_updates {sys : Sys} {pid : Pid} {cpu : Cpu} {budget period : UInt64} {m : LibMaps}
    (h : ¬ Updates sys pid cpu budget period m) :
    schedSetRmsParams sys pid cpu budget period m = (-1, m) := by
  unfold schedSetRmsParams
  by_cases c1 : sys.openTaskAttr; swap
  · simp [c1]
  by_cases c2 : sys.openRmsEntry; swap
  · simp [c2]
  by_cases c3 : sys.openLock; swap
  · simp [c3]
  by_cases c4 : sys.flock; swap
  · simp [c4]
  simp only [c1, c2, c3, c4, Bool.not_true, Bool.false_eq_true, if_false]
  unfold lookupEntry
  by_cases c5 : (sys.lookupEntry && inEntryMap cpu) = true; swap
  · simp [c5]
  simp only [c5, if_true]
  split
  · rfl
  rename_i hk
  unfold updateAttr
  by_cases c6 : sys.updateTaskAttr; swap
  · simp [c6]
  rcases hu : m.taskAttr.update pid (newParams cpu budget period) with _ | attrs
  · simp [c6]
  · simp only [Bool.and_eq_true] at c5
    exact absurd ⟨by simp [c1, c2, c3, c4, c5, c6], c5.2, by simpa using hk, BoundedMap.room_of_update hu⟩ h

/-- A call of `sched_set_rms_params` leaves the maps alone, or writes the task's
    parameters and admits it, or (when only the last update fails) writes the parameters
    alone. -/
theorem schedSetRmsParams_cases (sys : Sys) (pid : Pid) (cpu : Cpu) (budget period : UInt64) (m : LibMaps) :
    schedSetRmsParams sys pid cpu budget period m = (-1, m) ∨
    ∃ attrs, m.taskAttr.update pid (newParams cpu budget period) = some attrs ∧
      checkRmsParams (newParams cpu budget period) (m.rmsEntry cpu).cpuUtilization
        (m.rmsEntry cpu).taskNum = true ∧
      ((sys.updateRmsEntry = true ∧ schedSetRmsParams sys pid cpu budget period m =
          ((pid : ℤ), ⟨attrs, Function.update m.rmsEntry cpu (admitEntry (m.rmsEntry cpu) budget period)⟩)) ∨
        (sys.updateRmsEntry = false ∧
          schedSetRmsParams sys pid cpu budget period m = (-1, ⟨attrs, m.rmsEntry⟩))) := by
  by_cases h : Updates sys pid cpu budget period m
  · obtain ⟨attrs, hu, he⟩ := schedSetRmsParams_updates h
    refine .inr ⟨attrs, hu, h.check, ?_⟩
    rw [he]
    cases sys.updateRmsEntry <;> simp
  · exact .inl (schedSetRmsParams_not_updates h)

/-- The calls a drain makes. -/
def Sys.drains (sys : Sys) : Bool :=
  sys.openRmsEntry && sys.openLock && sys.flock && sys.lookupEntry && sys.updateRmsEntry

/-- The CPU a drain is for. -/
def drainCpu (getcpu cpu : Cpu) : Cpu := if cpu < 0 then getcpu else cpu

/-- A drain takes one share out of the ledger of a CPU the map has, if its calls all
    succeed, and changes nothing else. -/
theorem drainRmsExitQueue_maps (sys : Sys) (getcpu cpu : Cpu) (budget period : UInt64) (m : LibMaps) :
    (drainRmsExitQueue sys getcpu cpu budget period m).2 =
      let c := drainCpu getcpu cpu
      if sys.drains && inEntryMap c then
        { m with rmsEntry := Function.update m.rmsEntry c (drainEntry (m.rmsEntry c) budget period) }
      else m := by
  unfold drainRmsExitQueue Sys.drains drainCpu
  generalize (if cpu < 0 then getcpu else cpu) = c
  cases sys.openRmsEntry <;> cases sys.openLock <;> cases sys.flock <;> try rfl
  cases hl : sys.lookupEntry <;> cases hu : sys.updateRmsEntry <;> cases hc : inEntryMap c <;>
    simp [lookupEntry, updateEntry, hc]

/-- A drain whose calls all succeed takes one share out of the ledger of a CPU the map
    has, and nothing else. -/
theorem drainRmsExitQueue_ok {sys : Sys} (hs : sys.drains = true) (getcpu : Cpu) {cpu : Cpu}
    (budget period : UInt64) (m : LibMaps) (h : inEntryMap cpu = true) :
    drainRmsExitQueue sys getcpu cpu budget period m =
      (0, { m with
        rmsEntry := Function.update m.rmsEntry cpu (drainEntry (m.rmsEntry cpu) budget period) }) := by
  have h0 : ¬ cpu < 0 := by
    simp only [inEntryMap, Bool.and_eq_true, decide_eq_true_eq] at h
    exact not_lt.mpr h.1
  simp only [Sys.drains, Bool.and_eq_true] at hs
  simp [drainRmsExitQueue, hs, h0, lookupEntry, updateEntry, h]

end Ksight.Rms

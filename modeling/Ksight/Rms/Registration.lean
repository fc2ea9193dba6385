/-
  Ksight.Rms.Registration — what a failed registration leaves behind
  (src/process/sched_ext_rms/src/librms.cpp: `sched_set_rms_params`, `sched_rms`).

  The law (`NoTrace`): a `sched_rms` that returns -1 has changed neither of the two maps.
  The calls up to the first update have changed nothing when they fail, but nothing that
  was written is taken back after it. `noTrace_iff`: the law holds of a call if and only if
  it does not get through the first update (`Updates`), or it succeeds, or only the update
  of the ledger fails and the task's entry was the same already. A `sched_setaffinity` that
  fails leaves the entry and the share (`failed_setaffinity_keeps_the_share`).
-/

import Ksight.Rms.Librms

namespace Ksight.Rms.Registration

open Ksight.Lib

variable {sys : Sys} {getcpu : Cpu} {setaffinity setattr : Bool} {pid : Pid} {cpu : Cpu}
  {budget period : UInt64} {m : LibMaps}

/-- The CPU a registration is for. -/
def schedCpu (getcpu cpu : Cpu) : Cpu := if cpu ≥ 0 then cpu else getcpu

def NoTrace (sys : Sys) (getcpu : Cpu) (setaffinity setattr : Bool) (pid : Pid) (cpu : Cpu)
    (budget period : UInt64) (m : LibMaps) : Prop :=
  (schedRms sys getcpu setaffinity setattr pid cpu budget period m).1 = -1 →
    (schedRms sys getcpu setaffinity setattr pid cpu budget period m).2 = m

/-- The two calls that follow the updates succeed; `sched_setaffinity` is made for a named
    CPU only. -/
def Follows (cpu : Cpu) (setaffinity setattr : Bool) : Prop := (cpu ≥ 0 → setaffinity = true) ∧ setattr = true

instance (cpu : Cpu) (setaffinity setattr : Bool) : Decidable (Follows cpu setaffinity setattr) :=
  inferInstanceAs (Decidable (_ ∧ _))

/-- The maps are those `sched_set_rms_params` leaves, whatever fails after it. -/
theorem schedRms_eq :
    schedRms sys getcpu setaffinity setattr pid cpu budget period m =
      let r := schedSetRmsParams sys pid (schedCpu getcpu cpu) budget period m
      (if 0 ≤ r.1 ∧ Follows cpu setaffinity setattr then 0 else -1, r.2) := by
  unfold schedRms schedCpu Follows
  dsimp only
  generalize schedSetRmsParams sys pid (if cpu ≥ 0 then cpu else getcpu) budget period m = r
  by_cases hr : r.1 < 0
  · rw [if_pos hr, if_neg fun h => absurd h.1 (not_le.mpr hr)]
  · rw [if_neg hr]
    by_cases hc : cpu ≥ 0 <;> cases setaffinity <;> cases setattr <;> simp [hc, not_lt.mp hr]

theorem admitEntry_ne (e : UtilizationEntry) (budget period : UInt64) : admitEntry e budget period ≠ e := by
  intro h
  have := congrArg UtilizationEntry.taskNum h
  simp [admitEntry] at this

/-- An update that writes what is there. -/
theorem update_same_iff {attrs : BoundedMap Pid TaskAttr maxTaskNr} {a : TaskAttr}
    (h : m.taskAttr.update pid a = some attrs) : attrs = m.taskAttr ↔ m.taskAttr.lookup pid = some a := by
  constructor
  · rintro rfl
    rw [BoundedMap.lookup_update h, if_pos rfl]
  · intro hl
    ext1 k
    rw [BoundedMap.lookup_update h]
    split
    · rename_i e
      rw [e, hl]
    · rfl

/-- A failed `sched_rms` leaves the maps alone if and only if it fails before the first
    update, or in the update of the ledger with nothing new in the task's entry. -/
theorem noTrace_iff (sys : Sys) (getcpu : Cpu) (setaffinity setattr : Bool) (pid : Pid) (cpu : Cpu)
    (budget period : UInt64) (m : LibMaps) :
    NoTrace sys getcpu setaffinity setattr pid cpu budget period m ↔
      ¬ Updates sys pid (schedCpu getcpu cpu) budget period m ∨
      sys.updateRmsEntry = true ∧ Follows cpu setaffinity setattr ∨
      sys.updateRmsEntry = false ∧
        m.taskAttr.lookup pid = some (newParams (schedCpu getcpu cpu) budget period) := by
  by_cases hu : Updates sys pid (schedCpu getcpu cpu) budget period m
  · obtain ⟨attrs, ha, he⟩ := schedSetRmsParams_updates hu
    cases hs : sys.updateRmsEntry with
    | false =>
      rw [hs, if_neg Bool.false_ne_true] at he
      simp only [NoTrace, schedRms_eq, he, hu, not_true_eq_false, Bool.false_eq_true, false_and, true_and,
        false_or, ← update_same_iff ha]
      exact ⟨fun h => congrArg LibMaps.taskAttr (h (if_neg fun h => absurd h.1 (by decide))), fun h _ => h ▸ rfl⟩
    | true =>
      rw [hs, if_pos rfl] at he
      have hne : (⟨attrs, Function.update m.rmsEntry (schedCpu getcpu cpu)
          (admitEntry (m.rmsEntry (schedCpu getcpu cpu)) budget period)⟩ : LibMaps) ≠ m := fun h =>
        admitEntry_ne (m.rmsEntry (schedCpu getcpu cpu)) budget period
          (by simpa using congrFun (congrArg LibMaps.rmsEntry h) (schedCpu getcpu cpu))
      simp [NoTrace, schedRms_eq, he, hu, hne]
  · have he := schedSetRmsParams_not_updates hu
    simp [NoTrace, schedRms_eq, he, hu]

/-- Task 7 registers for CPU 0, and may not run there: its entry and 0.1 of the CPU remain. -/
theorem failed_setaffinity_keeps_the_share :
    ¬ ∀ sys getcpu setaffinity setattr pid cpu budget period m,
      NoTrace sys getcpu setaffinity setattr pid cpu budget period m := by
  intro h
  have h := (noTrace_iff ..).mp (h .allOk 0 false true 7 0 10 100 ⟨.empty, fun _ => ⟨0, 0⟩⟩)
  rcases h with h | ⟨-, h⟩ | ⟨h, -⟩
  · exact h ⟨rfl, rfl, by decide +kernel, .inr (by decide)⟩
  · exact absurd h (by decide)
  · cases h

end Ksight.Rms.Registration

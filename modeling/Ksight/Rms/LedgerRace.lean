/-
  Ksight.Rms.LedgerRace — concurrent admissions and drains
  (src/process/sched_ext_rms/src/librms.cpp: the critical sections of
  `sched_set_rms_params` and `drain_rms_exit_queue`).

  Each call takes an flock, looks `rms_entry_map[cpu]` up, updates it and releases the
  lock: `Ksight.Lib.Rmw` over the ledger, the lock named by the file the call opens. All
  map operations succeed. An admission the test refuses writes nothing; the log holds
  the admissions that passed and the drains.

  The two functions open different files, so an admission and a drain of one CPU do not
  exclude each other: `ledger_loses_an_update` interleaves one of each and the drain is
  gone. The ledger is right in every run in which no call writes an entry while a call of
  the other function is between its lookup and its update of it (`ledger_exact`).
  `serial_register` and `serial_drain`: a call that runs by itself is the source function.
-/

import Ksight.Lib.Rmw
import Ksight.Rms.Librms

namespace Ksight.Rms.LedgerRace

open Ksight.Lib Ksight.Lib.Rmw

inductive LibCall where
  | register (cpu : Cpu) (budget period : UInt64)
  | drain (cpu : Cpu) (budget period : UInt64)
  deriving DecidableEq

def LibCall.cpu : LibCall → Cpu
  | .register c _ _ | .drain c _ _ => c

def LibCall.share : LibCall → ℚ
  | .register _ b p | .drain _ b p => Rms.share b p

def LibCall.admits (cpu : Cpu) : LibCall → Bool
  | .register c _ _ => c == cpu
  | .drain _ _ _ => false

def LibCall.drains (cpu : Cpu) : LibCall → Bool
  | .register _ _ _ => false
  | .drain c _ _ => c == cpu

def lockFilePath : LibCall → String
  | .register cpu _ _ => "/tmp/rms_cpu_" ++ toString cpu ++ ".lock"
  | .drain cpu _ _ => "/tmp/rms_cpu_exit_" ++ toString cpu ++ ".lock"

/-- What a call makes of the entry it looked up. -/
def entryUpdate : LibCall → UtilizationEntry → Option UtilizationEntry
  | .register cpu b p, e =>
    if checkRmsParams (newParams cpu b p) e.cpuUtilization e.taskNum then some (admitEntry e b p) else none
  | .drain _ b p, e => some (drainEntry e b p)

def librms : Calls Cpu String LibCall UtilizationEntry := ⟨LibCall.cpu, lockFilePath, entryUpdate⟩

/-- An entry after the logged admissions and drains of its CPU. -/
def settled (log : List LibCall) (cpu : Cpu) (e : UtilizationEntry) : UtilizationEntry where
  cpuUtilization := e.cpuUtilization + ((log.filter (·.admits cpu)).map (·.share)).sum -
    ((log.filter (·.drains cpu)).map (·.share)).sum
  taskNum := e.taskNum + (log.filter (·.admits cpu)).length - (log.filter (·.drains cpu)).length

/-- Once no call is in progress every entry is its initial value plus the admissions less
    the drains. -/
def LedgerExact {ι : Type} (entries : Cpu → UtilizationEntry)
    (s : St ι Cpu String LibCall UtilizationEntry) : Prop :=
  Quiet s → ∀ cpu, s.store cpu = settled s.log cpu (entries cpu)

theorem replay_settled (log : List LibCall) (cpu : Cpu) (e e' : UtilizationEntry)
    (h : replay librms log cpu e = some e') : e' = settled log cpu e := by
  induction log using List.reverseRecOn generalizing e' with
  | nil => cases h; simp [settled]
  | append_singleton log c ih =>
    rw [replay_snoc] at h
    obtain ⟨w, hw, h⟩ := Option.bind_eq_some_iff.mp h
    have hw := ih w hw
    subst hw
    by_cases hk : librms.key c = cpu
    · rw [if_pos hk] at h
      subst hk
      cases c with
      | register c b p =>
        obtain ⟨-, h⟩ := Option.ite_none_right_eq_some.mp h
        cases h
        ext <;> simp [settled, admitEntry, librms, LibCall.cpu, LibCall.admits, LibCall.drains,
          LibCall.share] <;> ring
      | drain c b p =>
        cases h
        ext <;> simp [settled, drainEntry, librms, LibCall.cpu, LibCall.admits, LibCall.drains,
          LibCall.share] <;> ring
    · rw [if_neg hk] at h
      cases h
      cases c <;> simp_all [settled, librms, LibCall.cpu, LibCall.admits, LibCall.drains]

/-- No update is lost in a run in which no call writes an entry of the ledger while a call
    under the other lock file is between its lookup and its update of that entry. -/
theorem ledger_exact {ι : Type} [DecidableEq ι] (entries : Cpu → UtilizationEntry)
    (s : St ι Cpu String LibCall UtilizationEntry) (h : Run (step librms) (Clear librms) (init entries) s) :
    LedgerExact entries s :=
  fun _ cpu => replay_settled _ _ _ _ (replayed librms h cpu)

/-! ## Single calls -/

/-- A call that runs by itself from a quiet state does to the ledger what the source
    function does. -/
theorem serial_register {ι : Type} [DecidableEq ι] {s : St ι Cpu String LibCall UtilizationEntry}
    (hq : Quiet s) (hl : ∀ l, s.owner l = none) (i : ι) (pid : Pid) {cpu : Cpu} {budget period : UInt64}
    {attrs : LibMaps} (he : attrs.rmsEntry = s.store)
    (hr : (schedSetRmsParams .allOk pid cpu budget period attrs).1 ≠ -1) :
    ∃ t, Run (step librms) (Clear librms) s t ∧ Quiet t ∧
      t.store = (schedSetRmsParams .allOk pid cpu budget period attrs).2.rmsEntry := by
  rcases schedSetRmsParams_cases .allOk pid cpu budget period attrs with h | ⟨m, hm, hc, ⟨-, h⟩ | ⟨hf, -⟩⟩
  · rw [h] at hr; exact absurd rfl hr
  · obtain ⟨t, hrun, hqt, -, hst, -⟩ := solo librms hq hl i (c := .register cpu budget period)
      (v := admitEntry (s.store cpu) budget period)
      (by rw [← he]; simp only [librms, LibCall.cpu, entryUpdate]; rw [if_pos hc])
    refine ⟨t, hrun, hqt, ?_⟩
    rw [hst, h, he]
    rfl
  · cases hf

theorem serial_drain {ι : Type} [DecidableEq ι] {s : St ι Cpu String LibCall UtilizationEntry} (hq : Quiet s)
    (hl : ∀ l, s.owner l = none) (i : ι) (getcpu : Cpu) {cpu : Cpu} (budget period : UInt64) {m : LibMaps}
    (he : m.rmsEntry = s.store) (hc : inEntryMap cpu = true) :
    ∃ t, Run (step librms) (Clear librms) s t ∧ Quiet t ∧
      t.store = (drainRmsExitQueue .allOk getcpu cpu budget period m).2.rmsEntry := by
  obtain ⟨t, hrun, hqt, -, hst, -⟩ := solo librms hq hl i (c := .drain cpu budget period) rfl
  refine ⟨t, hrun, hqt, ?_⟩
  rw [hst, drainRmsExitQueue_ok rfl getcpu budget period m hc, he]
  rfl

/-! ## The lost update -/

/-- CPU 3 carries one task of 1/4. Process 0 admits a task of 1/2 and process 1 drains
    the 1/4: the drain's lookup and update both fall between process 0's lookup and
    update, which writes the drained task back. -/
def lostDrain : List (Ev (Fin 2) LibCall) :=
  [.call 0 (.register 3 1 2), .acquire 0, .look 0,
   .call 1 (.drain 3 1 4), .acquire 1, .look 1, .write 1, .release 1,
   .write 0, .release 0]

def oneTask : Cpu → UtilizationEntry := fun cpu => if cpu = 3 then ⟨1 / 4, 1⟩ else ⟨0, 0⟩

theorem ledger_exact_serial :
    ∃ s : St Nat Cpu String LibCall UtilizationEntry,
      Run (step librms) (Clear librms) (init oneTask) s ∧ s.log = [.register 3 1 2, .drain 3 1 4] ∧
        LedgerExact oneTask s := by
  obtain ⟨t, h1, q1, l1, st1, lg1⟩ := solo librms (s := (init oneTask : St Nat _ _ _ _)) (fun _ => rfl)
    (fun _ => rfl) 0 (c := .register 3 1 2) (v := ⟨1 / 4 + share 1 2, 2⟩) (by decide +kernel)
  obtain ⟨u, h2, -, -, -, lg2⟩ := solo librms q1 l1 1 (c := .drain 3 1 4) rfl
  have h : Run (step librms) (Clear librms) (init oneTask) u := h1.trans h2
  exact ⟨u, h, by rw [lg2, lg1]; rfl, ledger_exact oneTask u h⟩

theorem ledger_loses_an_update :
    ¬ ∀ s : St (Fin 2) Cpu String LibCall UtilizationEntry, Run (step librms) anyEvent (init oneTask) s →
      LedgerExact oneTask s := by
  intro h
  obtain ⟨s, hs, hp⟩ := run_of_exec_any (step librms) (init oneTask) lostDrain
    (fun s => decide ((∀ i, s.pc i = .idle) ∧ (s.store 3).taskNum = 2 ∧
      (settled s.log 3 (oneTask 3)).taskNum = 1)) (by decide +kernel)
  obtain ⟨hq, h2, h1⟩ := of_decide_eq_true hp
  rw [h s hs hq 3, h1] at h2
  cases h2

end Ksight.Rms.LedgerRace

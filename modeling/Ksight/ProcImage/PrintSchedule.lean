/-
  Ksight.ProcImage.PrintSchedule — the divisions of the scheduling lines
  (src/process/proc_image/src/proc_image.c: `print_schedule`).

  A line has the average delay of a task, its sum over its `count`, and that of the system,
  its sum over `sum_count`. The tasks are all of `proc_schedule`, the one of option -p, or the
  threads of the group of -P. The count of a new entry is 1, so that an entry can be shown
  before it has a delay; the count of the system is 0 until the first delay of any task.

  The law (`Safe`): no division is by 0, whatever the order in which the kernel gives the keys
  of a map.

  - `safe_iff`: in every state of every run the law holds if and only if no divisor is a
    count that has wrapped around to 0, and some delay has been measured if there is an entry
    to show (`Counted`).
  - `safe_iff_measured`: where no count has wrapped around, that is for all tasks the only
    condition; -p and -P show a task that has been measured. The first wakeup makes an entry,
    and the next print divides by 0 (`print_after_a_wakeup`).
-/

import Ksight.ProcImage.ScheduleStats

namespace Ksight.ProcImage.PrintSchedule

open Ksight.Lib
open ScheduleImage (Maps ProcId ScheduleEvent SumSchedule Config Switch procId noteRunnable notePrev delayOf
  addDelay schedSwitch schedProcessExit)
open ScheduleStats (Ev switchTo noteRunnable_frame)

/-- A line: the delays in ns. -/
structure Line where
  tgid : Option Int32
  pid : Int32
  prio : Int32
  procAvgDelay : UInt64
  sysAvgDelay : UInt64
  procMaxDelay : UInt64
  sysMaxDelay : UInt64
  procMinDelay : UInt64
  sysMinDelay : UInt64
  deriving DecidableEq

def divide (a b : UInt64) : Option UInt64 := if b = 0 then none else some (a / b)

/-- One line; `none` if it divides by 0. -/
def line (tgid : Option Int32) (sysEvent : SumSchedule) (procEvent : ScheduleEvent) : Option Line := do
  let procAvgDelay ← divide procEvent.sumDelay (.ofInt procEvent.count.toInt)
  let sysAvgDelay ← divide sysEvent.sumDelay sysEvent.sumCount
  some {
    tgid := tgid
    pid := procEvent.pid
    prio := procEvent.prio
    procAvgDelay := procAvgDelay
    sysAvgDelay := sysAvgDelay
    procMaxDelay := procEvent.maxDelay
    sysMaxDelay := sysEvent.maxDelay
    procMinDelay := procEvent.minDelay
    sysMinDelay := sysEvent.minDelay }

/-- The loop over the keys that `bpf_map_get_next_key` gives; it ends at a failed lookup. -/
def lines {κ : Type} (tgid : Option Int32) (sysEvent : SumSchedule) (lookup : κ → Option ScheduleEvent) :
    List κ → Option (List Line)
  | [] => some []
  | nextKey :: keys =>
    match lookup nextKey with
    | none => some []
    | some procEvent => do
      let l ← line tgid sysEvent procEvent
      let ls ← lines tgid sysEvent lookup keys
      some (l :: ls)

variable (c : Config)

/-- The options are those that the probes were loaded with. -/
def printSchedule (procKeys : List ProcId) (tgKeys : List Int32) (m : Maps) : Option (List Line) :=
  if c.targetPid = -1 ∧ c.targetTgid = -1 then lines none m.sysSchedule m.procSchedule.lookup procKeys
  else if c.targetPid ≠ -1 ∧ c.targetTgid = -1 then
    if m.targetSchedule.count ≠ 0 then (line none m.sysSchedule m.targetSchedule).map fun l => [l] else some []
  else if c.targetPid = -1 ∧ c.targetTgid ≠ -1 then
    lines (some c.targetTgid) m.sysSchedule m.tgSchedule.lookup tgKeys
  else some []

structure St extends ScheduleStats.St where
  /-- The number of delays that an entry of `tg_schedule` had when it was copied. -/
  shown : Int32 → Nat

def init : St := ⟨ScheduleStats.init, fun _ => 0⟩

/-- The copies of a switch to a thread of the group. -/
def St.copied (st : St) (next : ScheduleStats.St) : Ev → Int32 → Nat
  | .switch s =>
    if (delayOf s (notePrev s st.maps)).isSome ∧ s.nextTgid = c.targetTgid then
      Function.update st.shown s.nextPid (next.measured s.next).length
    else st.shown
  | _ => st.shown

def step (e : Ev) (st : St) : Option St :=
  (ScheduleStats.step c e st.toSt).map fun next => ⟨next, st.copied c next e⟩

/-! ## The law -/

def Safe (m : Maps) : Prop :=
  ∀ procKeys tgKeys, (∀ k, k ∈ procKeys ↔ k ∈ m.procSchedule.keys) → (∀ k, k ∈ tgKeys ↔ k ∈ m.tgSchedule.keys) →
    (printSchedule c procKeys tgKeys m).isSome

/-- The condition, for each option. -/
def Counted (st : St) : Prop :=
  if c.targetPid = -1 ∧ c.targetTgid = -1 then
    ∀ k e, st.maps.procSchedule.lookup k = some e →
      ¬ 2 ^ 64 ∣ st.all.length ∧ (st.measured k = [] ∨ ¬ 2 ^ 32 ∣ (st.measured k).length)
  else if c.targetPid ≠ -1 ∧ c.targetTgid = -1 then
    st.maps.targetSchedule.count ≠ 0 → ¬ 2 ^ 64 ∣ st.all.length
  else if c.targetPid = -1 ∧ c.targetTgid ≠ -1 then
    ∀ k e, st.maps.tgSchedule.lookup k = some e → ¬ 2 ^ 64 ∣ st.all.length ∧ ¬ 2 ^ 32 ∣ st.shown k
  else True

theorem forall_lookup_iff {κ ν : Type} [DecidableEq κ] {cap : Nat} {map : BoundedMap κ ν cap} {p : κ → Prop} :
    (∀ k e, map.lookup k = some e → p k) ↔ ∀ k ∈ map.keys, p k :=
  forall_congr' fun _ => forall_exists_index.symm.trans (imp_congr_left BoundedMap.mem_keys.symm)

instance (st : St) : Decidable (Counted c st) :=
  -- not by a search through all pids
  have {κ : Type} (keys : Finset κ) (p : κ → Prop) [DecidablePred p] : Decidable (∀ k ∈ keys, p k) :=
    Finset.decidableDforallFinset
  decidable_of_iff
    (if c.targetPid = -1 ∧ c.targetTgid = -1 then
      ∀ k ∈ st.maps.procSchedule.keys,
        ¬ 2 ^ 64 ∣ st.all.length ∧ (st.measured k = [] ∨ ¬ 2 ^ 32 ∣ (st.measured k).length)
    else if c.targetPid ≠ -1 ∧ c.targetTgid = -1 then
      st.maps.targetSchedule.count ≠ 0 → ¬ 2 ^ 64 ∣ st.all.length
    else if c.targetPid = -1 ∧ c.targetTgid ≠ -1 then
      ∀ k ∈ st.maps.tgSchedule.keys, ¬ 2 ^ 64 ∣ st.all.length ∧ ¬ 2 ^ 32 ∣ st.shown k
    else True)
    (by simp only [Counted, forall_lookup_iff])

/-! ## One print -/

theorem divide_isSome {a b : UInt64} : (divide a b).isSome ↔ b ≠ 0 := by
  unfold divide
  split
  · exact iff_of_false nofun fun h => h ‹_›
  · exact iff_of_true rfl ‹_›

theorem ofNat_eq_zero {n : Nat} : UInt64.ofNat n = 0 ↔ 2 ^ 64 ∣ n := by
  rw [← UInt64.toNat_inj, UInt64.toNat_ofNat']
  exact Nat.dvd_iff_mod_eq_zero.symm

/-- The `int` count is converted to 64 bits for the division. -/
theorem ofInt_eq_zero {x : Int32} : UInt64.ofInt x.toInt = 0 ↔ x = 0 := by
  have hlo := Int32.le_toInt x
  have hhi := Int32.toInt_lt x
  rw [UInt64.ofInt, ofNat_eq_zero, ← Int32.toInt_inj, Int32.toInt_zero]
  omega

theorem count_eq_zero {n : Nat} : Int32.ofNat n = 0 ↔ 2 ^ 32 ∣ n := by
  rw [← Int32.toBitVec_inj, ← BitVec.toNat_inj, Int32.toBitVec_ofNat', BitVec.toNat_ofNat]
  exact Nat.dvd_iff_mod_eq_zero.symm

theorem line_isSome {tgid : Option Int32} {sysEvent : SumSchedule} {procEvent : ScheduleEvent} :
    (line tgid sysEvent procEvent).isSome ↔ procEvent.count ≠ 0 ∧ sysEvent.sumCount ≠ 0 := by
  have hproc : procEvent.count ≠ 0 ↔ (divide procEvent.sumDelay (.ofInt procEvent.count.toInt)).isSome :=
    ofInt_eq_zero.not.symm.trans divide_isSome.symm
  rw [hproc, ← divide_isSome (a := sysEvent.sumDelay), line]
  cases divide procEvent.sumDelay (.ofInt procEvent.count.toInt) with
  | none => exact iff_of_false nofun fun h => absurd h.1 nofun
  | some avg =>
    cases divide sysEvent.sumDelay sysEvent.sumCount with
    | none => exact iff_of_false nofun fun h => absurd h.2 nofun
    | some sysAvg => exact iff_of_true rfl ⟨rfl, rfl⟩

theorem lines_isSome {κ : Type} {tgid : Option Int32} {sysEvent : SumSchedule}
    {lookup : κ → Option ScheduleEvent} {keys : List κ} (hk : ∀ k ∈ keys, ∃ e, lookup k = some e) :
    (lines tgid sysEvent lookup keys).isSome ↔
      ∀ k ∈ keys, ∀ e, lookup k = some e → e.count ≠ 0 ∧ sysEvent.sumCount ≠ 0 := by
  induction keys with
  | nil => exact iff_of_true rfl nofun
  | cons k keys ih =>
    obtain ⟨e, he⟩ := hk k List.mem_cons_self
    have hcons : (lines tgid sysEvent lookup (k :: keys)).isSome ↔
        (line tgid sysEvent e).isSome ∧ (lines tgid sysEvent lookup keys).isSome := by
      rw [lines, he]
      dsimp only
      cases line tgid sysEvent e with
      | none => exact iff_of_false nofun fun h => absurd h.1 nofun
      | some l =>
        cases lines tgid sysEvent lookup keys with
        | none => exact iff_of_false nofun fun h => absurd h.2 nofun
        | some ls => exact iff_of_true rfl ⟨rfl, rfl⟩
    rw [hcons, line_isSome, ih fun j hj => hk j (List.mem_cons_of_mem k hj)]
    constructor
    · rintro ⟨h, hs⟩ j hj e' he'
      rcases List.mem_cons.mp hj with rfl | hj
      · rw [he] at he'
        cases he'
        exact h
      · exact hs j hj e' he'
    · intro h
      exact ⟨h k List.mem_cons_self e he, fun j hj => h j (List.mem_cons_of_mem k hj)⟩

/-- A walk over all keys of a map. -/
theorem walk_isSome {κ : Type} [DecidableEq κ] {cap : Nat} (map : BoundedMap κ ScheduleEvent cap)
    (tgid : Option Int32) (sysEvent : SumSchedule) :
    (∀ keys, (∀ k, k ∈ keys ↔ k ∈ map.keys) → (lines tgid sysEvent map.lookup keys).isSome) ↔
      ∀ k e, map.lookup k = some e → e.count ≠ 0 ∧ sysEvent.sumCount ≠ 0 := by
  constructor
  · intro hs k e he
    have hkeys := hs map.keys.toList fun _ => Finset.mem_toList
    rw [lines_isSome fun j hj => BoundedMap.mem_keys.mp (Finset.mem_toList.mp hj)] at hkeys
    exact hkeys k (Finset.mem_toList.mpr (BoundedMap.mem_keys.mpr ⟨e, he⟩)) e he
  · intro hs keys hk
    rw [lines_isSome fun j hj => BoundedMap.mem_keys.mp ((hk j).mp hj)]
    exact fun k _ e he => hs k e he

variable {c}

theorem safe_all {m : Maps} (h : c.targetPid = -1 ∧ c.targetTgid = -1) :
    Safe c m ↔ ∀ k e, m.procSchedule.lookup k = some e → e.count ≠ 0 ∧ m.sysSchedule.sumCount ≠ 0 := by
  unfold Safe printSchedule
  simp only [if_pos h]
  rw [← walk_isSome m.procSchedule none]
  constructor
  · intro hs keys hk
    exact hs keys m.tgSchedule.keys.toList hk fun _ => Finset.mem_toList
  · intro hs procKeys _ hp _
    exact hs procKeys hp

theorem safe_target {m : Maps} (h : c.targetPid ≠ -1 ∧ c.targetTgid = -1) :
    Safe c m ↔ (m.targetSchedule.count ≠ 0 → m.sysSchedule.sumCount ≠ 0) := by
  have hall : ¬ (c.targetPid = -1 ∧ c.targetTgid = -1) := fun h' => h.1 h'.1
  unfold Safe printSchedule
  simp only [if_neg hall, if_pos h]
  constructor
  · intro hs hc
    have hline := hs m.procSchedule.keys.toList m.tgSchedule.keys.toList
      (fun _ => Finset.mem_toList) (fun _ => Finset.mem_toList)
    rw [if_pos hc, Option.isSome_map, line_isSome] at hline
    exact hline.2
  · intro hs _ _ _ _
    split
    · rename_i hc
      rw [Option.isSome_map, line_isSome]
      exact ⟨hc, hs hc⟩
    · rfl

theorem safe_tg {m : Maps} (h : c.targetPid = -1 ∧ c.targetTgid ≠ -1) :
    Safe c m ↔ ∀ k e, m.tgSchedule.lookup k = some e → e.count ≠ 0 ∧ m.sysSchedule.sumCount ≠ 0 := by
  have hall : ¬ (c.targetPid = -1 ∧ c.targetTgid = -1) := fun h' => h.2 h'.2
  have htarget : ¬ (c.targetPid ≠ -1 ∧ c.targetTgid = -1) := fun h' => h'.1 h.1
  unfold Safe printSchedule
  simp only [if_neg hall, if_neg htarget, if_pos h]
  rw [← walk_isSome m.tgSchedule (some c.targetTgid)]
  constructor
  · intro hs keys hk
    exact hs m.procSchedule.keys.toList keys (fun _ => Finset.mem_toList) hk
  · intro hs _ tgKeys _ ht
    exact hs tgKeys ht

/-! ## The counts -/

/-- What the maps have of the delays measured. -/
structure Inv (st : St) : Prop where
  stats : ScheduleStats.Inv st.maps st.measured ∧ st.maps.sysSchedule = ScheduleStats.addAll st.all
  target : st.maps.targetSchedule.count ≠ 0 → st.all ≠ []
  tg : ∀ k e, st.maps.tgSchedule.lookup k = some e →
    e.count = Int32.ofNat (st.shown k) ∧ st.shown k ≠ 0 ∧ st.all ≠ []

/-- The copies of an entry after a delay. -/
theorem addDelay_copies {s : Switch} {m : Maps} {d : UInt64} (hd : delayOf s m = some d) :
    ∃ e, (addDelay c s d m).procSchedule.lookup s.next = some e ∧
      (addDelay c s d m).targetSchedule = (if c.isTarget s.nextPid s.cpu then e else m.targetSchedule) ∧
      (addDelay c s d m).tgSchedule =
        if s.nextTgid = c.targetTgid then (m.tgSchedule.update s.nextPid e).getD m.tgSchedule
        else m.tgSchedule := by
  obtain ⟨e, b, he, hb, -⟩ := ScheduleStats.delayOf_some hd
  simp only [addDelay, he, hb]
  refine ⟨e.add b s.nextPrio d, ?_, rfl, rfl⟩
  rw [BoundedMap.lookup_modify_self, he]
  rfl

theorem switch_inv {s : Switch} {st : St} {next : ScheduleStats.St} (hi : Inv st)
    (h : ScheduleStats.step c (.switch s) st.toSt = some next) : Inv ⟨next, st.copied c next (.switch s)⟩ := by
  have hstats := ScheduleStats.step_inv hi.stats h
  obtain ⟨htarget, htg, -⟩ := ScheduleStats.notePrev_frame s st.maps
  obtain rfl := Option.some.inj h
  dsimp only [St.copied]
  dsimp only at hstats
  rcases hd : delayOf s (notePrev s st.maps) with _ | d
  · -- no delay: the maps are those after the note
    simp only [schedSwitch, hd, Option.toList_none, List.append_nil] at hstats ⊢
    rw [if_neg fun h => absurd h.1 nofun]
    exact ⟨hstats, fun hc => hi.target (htarget ▸ hc), fun k e he => hi.tg k e (htg ▸ he)⟩
  · simp only [schedSwitch, hd, Option.toList_some] at hstats ⊢
    have hall : st.all ++ [d] ≠ [] := List.concat_ne_nil d _
    obtain ⟨e', he', -, htg'⟩ := addDelay_copies (c := c) hd
    have hcount : e'.count = Int32.ofNat (max 1 (st.notedPrev s s.next ++ [d]).length) := by
      have hc := (hstats.1.entry s.next e' he').count
      rw [Function.update_self] at hc
      exact hc
    refine ⟨hstats, fun _ => hall, fun k e he => ?_⟩
    simp only [Option.isSome_some, true_and, Function.update_self]
    rw [htg', htg] at he
    by_cases hg : s.nextTgid = c.targetTgid
    · rw [if_pos hg] at he ⊢
      rcases BoundedMap.lookup_getD_update_some he with ⟨rfl, rfl⟩ | ⟨hk, he⟩
      · rw [Function.update_self]
        have hlen : 1 ≤ (st.notedPrev s s.next ++ [d]).length := by simp
        exact ⟨hcount.trans (by rw [max_eq_right hlen]), Nat.one_le_iff_ne_zero.mp hlen, hall⟩
      · rw [Function.update_of_ne hk]
        obtain ⟨h1, h2, -⟩ := hi.tg k e he
        exact ⟨h1, h2, hall⟩
    · rw [if_neg hg] at he ⊢
      obtain ⟨h1, h2, -⟩ := hi.tg k e he
      exact ⟨h1, h2, hall⟩

/-- A note that makes an entry leaves the copies as they are. -/
theorem note_inv {st : St} {next : ScheduleStats.St} (hi : Inv st) (pd : ProcId) (now : UInt64)
    (hs : ScheduleStats.Inv next.maps next.measured ∧ next.maps.sysSchedule = ScheduleStats.addAll next.all)
    (hm : next.maps = noteRunnable pd now st.maps) (ha : next.all = st.all) : Inv ⟨next, st.shown⟩ := by
  obtain ⟨htarget, htg, -⟩ := noteRunnable_frame pd now st.maps
  rw [← hm] at htarget htg
  refine ⟨hs, fun hc => ?_, fun k e he => ?_⟩
  · rw [ha]
    exact hi.target (htarget ▸ hc)
  · rw [ha]
    exact hi.tg k e (htg ▸ he)

theorem step_inv {e : Ev} {st st' : St} (hi : Inv st) (h : step c e st = some st') : Inv st' := by
  obtain ⟨next, hnext, rfl⟩ := Option.map_eq_some_iff.mp h
  have hstats := ScheduleStats.step_inv hi.stats hnext
  cases e with
  | wakeup pid cpu now =>
    obtain rfl := Option.some.inj hnext
    exact note_inv hi (procId pid cpu) now hstats rfl rfl
  | wakeupNew pid cpu now =>
    obtain rfl := Option.some.inj hnext
    exact note_inv hi (procId pid cpu) now hstats rfl rfl
  | switch s => exact switch_inv hi hnext
  | exit pid tgid cpu =>
    obtain rfl := Option.some.inj hnext
    refine ⟨hstats, fun hc => ?_, fun k e he => ?_⟩
    · dsimp only [schedProcessExit] at hc
      split at hc
      · exact absurd rfl hc
      · exact hi.target hc
    · dsimp only [schedProcessExit] at he
      split at he
      · rw [BoundedMap.lookup_delete] at he
        split at he
        · cases he
        · exact hi.tg k e he
      · exact hi.tg k e he

theorem init_inv : Inv init where
  stats := ScheduleStats.init_inv
  target hc := absurd rfl hc
  tg _ _ he := absurd he nofun

theorem inv_of_run {st : St} (h : Run (step c) anyEvent init st) : Inv st :=
  h.inv init_inv fun _ _ _ hi _ hs => step_inv hi hs

/-- The divisor of the system's average. -/
theorem Inv.sumCount_ne_zero {st : St} (hi : Inv st) :
    st.maps.sysSchedule.sumCount ≠ 0 ↔ ¬ 2 ^ 64 ∣ st.all.length := by
  rw [hi.stats.2, ScheduleStats.sumCount_addAll]
  exact ofNat_eq_zero.not

/-- The divisor of an entry's average. -/
theorem Inv.count_ne_zero {st : St} (hi : Inv st) {k : ProcId} {e : ScheduleEvent}
    (he : st.maps.procSchedule.lookup k = some e) :
    e.count ≠ 0 ↔ st.measured k = [] ∨ ¬ 2 ^ 32 ∣ (st.measured k).length := by
  rw [(hi.stats.1.entry k e he).count, Ne, count_eq_zero]
  by_cases hnil : st.measured k = []
  · rw [hnil]
    exact iff_of_true (by decide) (.inl rfl)
  · rw [max_eq_right (List.length_pos_iff.mpr hnil)]
    exact (or_iff_right hnil).symm

/-- In every state of every run, no division is by 0 if and only if no count shown has wrapped
    around to 0, and a delay has been measured if there is an entry to show. -/
theorem safe_iff {st : St} (h : Run (step c) anyEvent init st) : Safe c st.maps ↔ Counted c st := by
  have hi := inv_of_run h
  unfold Counted
  split
  · rename_i hall
    rw [safe_all hall]
    refine forall₃_congr fun k e he => ?_
    rw [hi.count_ne_zero he, hi.sumCount_ne_zero]
    exact and_comm
  · rename_i hall
    split
    · rename_i htarget
      rw [safe_target htarget, hi.sumCount_ne_zero]
    · rename_i htarget
      split
      · rename_i htg
        rw [safe_tg htg]
        refine forall₃_congr fun k e he => ?_
        rw [(hi.tg k e he).1, Ne, count_eq_zero, hi.sumCount_ne_zero]
        exact and_comm
      · rename_i htg
        -- with both options nothing is printed
        refine iff_of_true (fun procKeys tgKeys _ _ => ?_) trivial
        rw [printSchedule, if_neg hall, if_neg htarget, if_neg htg]
        rfl

theorem not_dvd_length {α : Type} {l : List α} {n : Nat} (h : l.length < n) : ¬ n ∣ l.length ↔ l ≠ [] := by
  rw [Ne, ← List.length_eq_zero_iff]
  exact not_congr ⟨fun hd => Nat.eq_zero_of_dvd_of_lt hd h, fun h0 => h0 ▸ Nat.dvd_zero n⟩

/-- Without wraps only the list of all tasks can divide by 0, before the first delay. -/
theorem safe_iff_measured {st : St} (h : Run (step c) anyEvent init st) (hall : st.all.length < 2 ^ 64)
    (hentry : ∀ k e, st.maps.procSchedule.lookup k = some e → (st.measured k).length < 2 ^ 32)
    (hshown : ∀ k, st.shown k < 2 ^ 32) :
    Safe c st.maps ↔ (c.targetPid = -1 → c.targetTgid = -1 → st.maps.procSchedule.keys = ∅ ∨ st.all ≠ []) := by
  have hi := inv_of_run h
  rw [safe_iff h]
  unfold Counted
  rw [not_dvd_length hall]
  split
  · rename_i hmode
    constructor
    · intro hc _ _
      by_contra hno
      obtain ⟨hkeys, hnil⟩ := not_or.mp hno
      obtain ⟨k, hk⟩ := Finset.nonempty_iff_ne_empty.mpr hkeys
      obtain ⟨e, he⟩ := BoundedMap.mem_keys.mp hk
      exact hnil (hc k e he).1
    · intro hc k e he
      have hk : k ∈ st.maps.procSchedule.keys := BoundedMap.mem_keys.mpr ⟨e, he⟩
      refine ⟨(hc hmode.1 hmode.2).resolve_left (Finset.ne_empty_of_mem hk), ?_⟩
      rw [not_dvd_length (hentry k e he)]
      exact em _
  · rename_i hmode
    refine iff_of_true ?_ fun h1 h2 => absurd ⟨h1, h2⟩ hmode
    split
    · exact hi.target
    · split
      · intro k e he
        obtain ⟨-, h0, hne⟩ := hi.tg k e he
        exact ⟨hne, fun hd => h0 (Nat.eq_zero_of_dvd_of_lt hd (hshown k))⟩
      · trivial

/-- The threads 7 and 8 of the group 5 are woken up and come in. -/
def twoDelays : List Ev :=
  [.wakeup 7 0 10, .wakeup 8 0 12, .switch ⟨false, 0, 1, 7, 5, 120, 0, 15⟩, .switch ⟨false, 7, 1, 8, 5, 120, 0, 22⟩]

/-- The averages of their lines: of all tasks, with -p and with -P. -/
theorem print_after_two_delays :
    (∃ st, Run (step .default) anyEvent init st ∧ Safe .default st.maps ∧
      (printSchedule .default [⟨7, 0⟩, ⟨8, 0⟩] [] st.maps).map (·.map Line.procAvgDelay) = some [5, 10]) ∧
    (∃ st, Run (step ⟨7, -1, -1⟩) anyEvent init st ∧ Safe ⟨7, -1, -1⟩ st.maps ∧
      (printSchedule ⟨7, -1, -1⟩ [] [] st.maps).map (·.map Line.procAvgDelay) = some [5]) ∧
    ∃ st, Run (step ⟨-1, -1, 5⟩) anyEvent init st ∧ Safe ⟨-1, -1, 5⟩ st.maps ∧
      (printSchedule ⟨-1, -1, 5⟩ [] [8, 7] st.maps).map (·.map Line.procAvgDelay) = some [10, 5] := by
  refine ⟨?_, ?_, ?_⟩
  · obtain ⟨st, hr, hs⟩ := run_of_exec_any (step .default) init twoDelays (fun st => decide (Counted .default st ∧
      (printSchedule .default [⟨7, 0⟩, ⟨8, 0⟩] [] st.maps).map (·.map Line.procAvgDelay) = some [5, 10]))
      (by decide +kernel)
    obtain ⟨hc, hp⟩ := of_decide_eq_true hs
    exact ⟨st, hr, (safe_iff hr).mpr hc, hp⟩
  · obtain ⟨st, hr, hs⟩ := run_of_exec_any (step ⟨7, -1, -1⟩) init twoDelays
      (fun st => decide (Counted ⟨7, -1, -1⟩ st ∧
        (printSchedule ⟨7, -1, -1⟩ [] [] st.maps).map (·.map Line.procAvgDelay) = some [5])) (by decide +kernel)
    obtain ⟨hc, hp⟩ := of_decide_eq_true hs
    exact ⟨st, hr, (safe_iff hr).mpr hc, hp⟩
  · obtain ⟨st, hr, hs⟩ := run_of_exec_any (step ⟨-1, -1, 5⟩) init twoDelays
      (fun st => decide (Counted ⟨-1, -1, 5⟩ st ∧
        (printSchedule ⟨-1, -1, 5⟩ [] [8, 7] st.maps).map (·.map Line.procAvgDelay) = some [10, 5]))
      (by decide +kernel)
    obtain ⟨hc, hp⟩ := of_decide_eq_true hs
    exact ⟨st, hr, (safe_iff hr).mpr hc, hp⟩

/-- A task is woken up, and the lines of all tasks are printed before it comes in. -/
theorem print_after_a_wakeup : ∃ st, Run (step .default) anyEvent init st ∧ ¬ Safe .default st.maps := by
  obtain ⟨st, hr, hs⟩ := run_of_exec_any (step .default) init [.wakeup 7 0 10]
    (fun st => (printSchedule .default [⟨7, 0⟩] [] st.maps).isNone && decide
      (st.maps.procSchedule.keys = [(⟨7, 0⟩ : ProcId)].toFinset ∧ st.maps.tgSchedule.keys = ∅)) (by decide)
  obtain ⟨hnone, hkeys⟩ := Bool.and_eq_true_iff.mp hs
  obtain ⟨hproc, htg⟩ := of_decide_eq_true hkeys
  refine ⟨st, hr, fun hsafe => ?_⟩
  have hsome := hsafe [⟨7, 0⟩] [] (fun k => by rw [hproc, List.mem_toFinset]) (fun k => by rw [htg]; simp)
  rw [Option.isNone_iff_eq_none.mp hnone] at hsome
  cases hsome

end Ksight.ProcImage.PrintSchedule

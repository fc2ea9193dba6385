/-
  Ksight.ProcImage.ScheduleStats — the statistics of the delays that sched_switch adds
  (src/process/proc_image/bpf/schedule_image.bpf.c).

  The probes run in any order, on any tasks and times, and the maps may be full. An entry of
  `proc_schedule` starts with a count of 1, which the first delay leaves as it is; the value
  of `enable_add` tells it from the later ones. A minimum of 0 stands for none.

  The law (`Exact`): each entry with a delay measured since it was created has their number,
  sum, maximum and minimum, and `sys_schedule` has those of all delays since the start.
  The number, the sum and the maximum are right up to wraps. The minimum is that of the
  delays after the last 0.

  - `statistics_iff`: in every state of every run the law holds if and only if no count and no sum
    has wrapped around and a delay of 0 was followed by no other one, or was the last one
    (`Clear`), in each entry and in all.
  - A task that comes in at the time of its wakeup has the delay 0, and the next delay
    replaces it (`zero_is_replaced`).
-/

import Mathlib.Algebra.Order.BigOperators.Group.List
import Mathlib.Algebra.Order.Ring.Nat
import Mathlib.Order.Bounds.Defs
import Mathlib.Logic.Function.Basic
import Ksight.Lib.Run
import Ksight.ProcImage.ScheduleImage

namespace Ksight.ProcImage.ScheduleStats

open Ksight.Lib
open ScheduleImage (Maps ProcId ScheduleEvent SumSchedule Config Switch procId noteRunnable notePrev delayOf
  addDelay schedWakeup schedWakeupNew schedSwitch schedProcessExit maxOf minOf taskRunning)

inductive Ev where
  | wakeup (pid cpu : Int32) (now : UInt64)
  | wakeupNew (pid cpu : Int32) (now : UInt64)
  | switch (s : Switch)
  | exit (pid tgid cpu : Int32)

structure St where
  maps : Maps
  /-- The delays measured for each entry since it was created, and all of them. -/
  measured : ProcId → List UInt64
  all : List UInt64

def init : St := ⟨.empty, fun _ => [], []⟩

/-- What is left of the delays of each entry when `pd` is noted: none, if that makes an entry. -/
def St.noted (st : St) (pd : ProcId) : ProcId → List UInt64 :=
  if st.maps.procSchedule.lookup pd = none then Function.update st.measured pd [] else st.measured

def St.notedPrev (st : St) (s : Switch) : ProcId → List UInt64 :=
  if s.prevState = taskRunning then st.noted s.prev else st.measured

variable (c : Config)

def step : Ev → St → Option St
  | .wakeup pid cpu now, st =>
    some { st with maps := schedWakeup pid cpu now st.maps, measured := st.noted (procId pid cpu) }
  | .wakeupNew pid cpu now, st =>
    some { st with maps := schedWakeupNew pid cpu now st.maps, measured := st.noted (procId pid cpu) }
  | .switch s, st =>
    let new := (delayOf s (notePrev s st.maps)).toList
    some {
      maps := schedSwitch c s st.maps
      measured := Function.update (st.notedPrev s) s.next (st.notedPrev s s.next ++ new)
      all := st.all ++ new }
  | .exit pid tgid cpu, st => some { st with maps := schedProcessExit c pid tgid cpu st.maps }

/-! ## The law -/

/-- The number, the sum, the maximum and the minimum of delays. -/
structure StatsOf (ds : List UInt64) (count : Int) (sum max min : UInt64) : Prop where
  number : count = ds.length
  total : sum.toNat = (ds.map UInt64.toNat).sum
  greatest : ds ≠ [] → IsGreatest {d | d ∈ ds} max
  least : ds ≠ [] → IsLeast {d | d ∈ ds} min

structure Exact (st : St) : Prop where
  entry : ∀ k e, st.maps.procSchedule.lookup k = some e → st.measured k ≠ [] →
    StatsOf (st.measured k) e.count.toInt e.sumDelay e.maxDelay e.minDelay
  sys : StatsOf st.all st.maps.sysSchedule.sumCount.toNat st.maps.sysSchedule.sumDelay
    st.maps.sysSchedule.maxDelay st.maps.sysSchedule.minDelay

/-- No wraps, and a delay of 0 that is not lost. -/
structure Clear (cap : Nat) (ds : List UInt64) : Prop where
  number : ds.length < cap
  total : (ds.map UInt64.toNat).sum < 2 ^ 64
  zero : 0 ∈ ds → ds.getLast? = some 0

/-- The condition. -/
structure AllClear (st : St) : Prop where
  entry : ∀ k e, st.maps.procSchedule.lookup k = some e → Clear (2 ^ 31) (st.measured k)
  all : Clear (2 ^ 64) st.all

/-! ## Adding delays -/

/-- What the delays make of an empty `sys_schedule`. -/
def addAll (ds : List UInt64) : SumSchedule := ds.foldl SumSchedule.add ⟨0, 0, 0, 0⟩

theorem addAll_snoc (ds : List UInt64) (d : UInt64) : addAll (ds ++ [d]) = (addAll ds).add d :=
  List.foldl_concat ..

theorem sumCount_addAll (ds : List UInt64) : (addAll ds).sumCount = UInt64.ofNat ds.length := by
  induction ds using List.reverseRecOn with
  | nil => rfl
  | append_singleton ds d ih =>
    rw [addAll_snoc, SumSchedule.add, ih, List.length_append, UInt64.ofNat_add]
    rfl

theorem sumDelay_addAll (ds : List UInt64) :
    (addAll ds).sumDelay.toNat = (ds.map UInt64.toNat).sum % 2 ^ 64 := by
  induction ds using List.reverseRecOn with
  | nil => rfl
  | append_singleton ds d ih =>
    rw [addAll_snoc, SumSchedule.add, UInt64.toNat_add, ih]
    simp

theorem maxOf_zero (d : UInt64) : maxOf 0 d = d := by
  unfold maxOf
  split
  · rfl
  · rename_i h
    exact UInt64.le_antisymm UInt64.zero_le (UInt64.not_lt.mp h)

theorem maxOf_spec (m d : UInt64) : m ≤ maxOf m d ∧ d ≤ maxOf m d ∧ (maxOf m d = m ∨ maxOf m d = d) := by
  unfold maxOf
  split
  · rename_i h
    exact ⟨UInt64.le_of_lt h, UInt64.le_refl d, .inr rfl⟩
  · rename_i h
    exact ⟨UInt64.le_refl m, UInt64.not_lt.mp h, .inl rfl⟩

theorem minOf_spec {m : UInt64} (h0 : m ≠ 0) (d : UInt64) :
    minOf m d ≤ m ∧ minOf m d ≤ d ∧ (minOf m d = m ∨ minOf m d = d) := by
  unfold minOf
  split
  · rename_i h
    exact ⟨UInt64.le_of_lt (h.resolve_left h0), UInt64.le_refl d, .inr rfl⟩
  · rename_i h
    exact ⟨UInt64.le_refl m, UInt64.not_lt.mp fun hlt => h (.inr hlt), .inl rfl⟩

theorem minOf_eq_zero (m d : UInt64) : minOf m d = 0 ↔ d = 0 := by
  unfold minOf
  split
  · exact Iff.rfl
  · rename_i h
    constructor
    · intro h0
      exact absurd (.inl h0) h
    · rintro rfl
      by_contra hm
      exact h (.inr (UInt64.pos_iff_ne_zero.mpr hm))

/-- The bound of the elements and one more. -/
theorem bound_snoc {r : UInt64 → UInt64 → Prop} (htrans : ∀ {x y z}, r x y → r y z → r x z) {ds : List UInt64}
    {b d b' : UInt64} (h : b ∈ ds ∧ ∀ x ∈ ds, r x b) (hb : r b b') (hd : r d b') (hor : b' = b ∨ b' = d) :
    b' ∈ ds ++ [d] ∧ ∀ x ∈ ds ++ [d], r x b' := by
  constructor
  · rcases hor with rfl | rfl
    · exact List.mem_append_left _ h.1
    · exact List.mem_append_right _ List.mem_cons_self
  · intro x hx
    rcases List.mem_append.mp hx with hx | hx
    · exact htrans (h.2 x hx) hb
    · rw [List.mem_singleton.mp hx]
      exact hd

theorem maxDelay_addAll (ds : List UInt64) (h : ds ≠ []) : IsGreatest {d | d ∈ ds} (addAll ds).maxDelay := by
  induction ds using List.reverseRecOn with
  | nil => exact absurd rfl h
  | append_singleton ds d ih =>
    rw [addAll_snoc]
    change IsGreatest _ (maxOf (addAll ds).maxDelay d)
    by_cases hnil : ds = []
    · subst hnil
      rw [show maxOf (addAll []).maxDelay d = d from maxOf_zero d]
      simp [IsGreatest, upperBounds]
    · obtain ⟨hmem, hle⟩ := ih hnil
      obtain ⟨hm, hd, hor⟩ := maxOf_spec (addAll ds).maxDelay d
      exact bound_snoc (r := fun x y => x ≤ y) UInt64.le_trans ⟨hmem, hle⟩ hm hd hor

theorem minDelay_eq_zero (ds : List UInt64) : (addAll ds).minDelay = 0 ↔ ds = [] ∨ ds.getLast? = some 0 := by
  induction ds using List.reverseRecOn with
  | nil => simp [addAll]
  | append_singleton ds d ih =>
    rw [addAll_snoc]
    change minOf (addAll ds).minDelay d = 0 ↔ _
    simp [minOf_eq_zero]

theorem minDelay_of_pos (ds : List UInt64) (h : ds ≠ []) (h0 : 0 ∉ ds) :
    IsLeast {d | d ∈ ds} (addAll ds).minDelay := by
  induction ds using List.reverseRecOn with
  | nil => exact absurd rfl h
  | append_singleton ds d ih =>
    have hpos : 0 ∉ ds := fun hmem => h0 (List.mem_append_left _ hmem)
    rw [addAll_snoc]
    change IsLeast _ (minOf (addAll ds).minDelay d)
    by_cases hnil : ds = []
    · subst hnil
      rw [show minOf (addAll []).minDelay d = d from if_pos (.inl rfl)]
      simp [IsLeast, lowerBounds]
    · obtain ⟨hmem, hle⟩ := ih hnil hpos
      have hne : (addAll ds).minDelay ≠ 0 := fun h => hpos (h ▸ hmem)
      obtain ⟨hm, hd, hor⟩ := minOf_spec hne d
      exact bound_snoc (r := fun x y => y ≤ x) (fun hxy hyz => UInt64.le_trans hyz hxy) ⟨hmem, hle⟩ hm hd hor

/-- The sentinel costs the minimum a delay of 0 that another one follows. -/
theorem minDelay_addAll {ds : List UInt64} (h : ds ≠ []) :
    IsLeast {d | d ∈ ds} (addAll ds).minDelay ↔ (0 ∈ ds → ds.getLast? = some 0) := by
  by_cases h0 : 0 ∈ ds
  · have hzero := (minDelay_eq_zero ds).trans (or_iff_right h)
    constructor
    · intro hl _
      exact hzero.mp (UInt64.le_antisymm (hl.2 h0) UInt64.zero_le)
    · intro hl
      rw [hzero.mpr (hl h0)]
      exact ⟨h0, fun _ _ => UInt64.zero_le⟩
  · exact iff_of_true (minDelay_of_pos ds h h0) fun h => absurd h h0

theorem statsOf_iff {ds : List UInt64} {count : Int} {cap : Nat} (hc : count = ds.length ↔ ds.length < cap) :
    StatsOf ds count (addAll ds).sumDelay (addAll ds).maxDelay (addAll ds).minDelay ↔ Clear cap ds := by
  constructor
  · intro h
    refine ⟨hc.mp h.number, ?_, fun h0 => ?_⟩
    · rw [← h.total]
      exact UInt64.toNat_lt _
    · have hne : ds ≠ [] := List.ne_nil_of_mem h0
      exact (minDelay_addAll hne).mp (h.least hne) h0
  · intro h
    refine ⟨hc.mpr h.number, ?_, maxDelay_addAll ds, fun hne => (minDelay_addAll hne).mpr h.zero⟩
    rw [sumDelay_addAll]
    exact Nat.mod_eq_of_lt h.total

/-! ## The invariant -/

/-- The count of an entry is 1 from the start, and the number of its delays after the first. -/
structure Holds (e : ScheduleEvent) (ds : List UInt64) : Prop where
  count : e.count = Int32.ofNat (max 1 ds.length)
  sumDelay : e.sumDelay = (addAll ds).sumDelay
  maxDelay : e.maxDelay = (addAll ds).maxDelay
  minDelay : e.minDelay = (addAll ds).minDelay

/-- What the maps have of the delays measured. -/
structure Inv (m : Maps) (measured : ProcId → List UInt64) : Prop where
  entry : ∀ k e, m.procSchedule.lookup k = some e → Holds e (measured k)
  /-- `enable_add` tells whether an entry has a delay. -/
  flag : ∀ k e b, m.procSchedule.lookup k = some e → m.enableAdd.lookup k = some b →
    (b = true ↔ measured k ≠ [])

theorem holds_new (pid : Int32) (now : UInt64) : Holds ⟨pid, 0, 1, now, 0, 0, 0⟩ [] := ⟨rfl, rfl, rfl, rfl⟩

/-- One more delay, where `b` tells whether it is not the first. -/
theorem Holds.add {e : ScheduleEvent} {ds : List UInt64} {b : Bool} (h : Holds e ds) (hb : b = true ↔ ds ≠ [])
    (prio : Int32) (d : UInt64) : Holds (e.add b prio d) (ds ++ [d]) := by
  have hcount : (if b then e.count + 1 else e.count) = Int32.ofNat (max 1 (ds ++ [d]).length) := by
    rw [h.count, List.length_append, List.length_singleton]
    cases b with
    | true =>
      have hlen : 0 < ds.length := List.length_pos_iff.mpr (hb.mp rfl)
      rw [if_pos rfl, max_eq_right (Nat.succ_le_of_lt hlen), max_eq_right (Nat.le_add_left 1 _),
        Int32.ofNat_add]
      rfl
    | false =>
      have hnil : ds = [] := by
        by_contra hne
        exact absurd (hb.mpr hne) nofun
      rw [hnil]
      rfl
  have hadd := addAll_snoc ds d
  refine ⟨hcount, ?_, ?_, ?_⟩
  · rw [hadd, ScheduleEvent.add, h.sumDelay]
    rfl
  · rw [hadd, ScheduleEvent.add, h.maxDelay]
    rfl
  · rw [hadd, ScheduleEvent.add, h.minDelay]
    rfl

/-! ## One step -/

/-- A task is noted as runnable: its entry keeps what it has, or is a new one. -/
theorem noteRunnable_inv {st : St} (hi : Inv st.maps st.measured) (pd : ProcId) (now : UInt64) :
    Inv (noteRunnable pd now st.maps) (st.noted pd) := by
  unfold noteRunnable St.noted
  split
  · rename_i hl
    rw [if_pos hl]
    constructor
    · intro k e he
      rcases BoundedMap.lookup_getD_update_some he with ⟨rfl, rfl⟩ | ⟨hk, he⟩
      · rw [Function.update_self]
        exact holds_new ..
      · rw [Function.update_of_ne hk]
        exact hi.entry k e he
    · intro k e b he hb
      rcases BoundedMap.lookup_getD_update_some he with ⟨rfl, -⟩ | ⟨hk, he⟩
      · rcases BoundedMap.lookup_getD_update_some hb with ⟨-, rfl⟩ | ⟨hk, -⟩
        · rw [Function.update_self]
          exact iff_of_false nofun (fun h => h rfl)
        · exact absurd rfl hk
      · rw [Function.update_of_ne hk]
        exact hi.flag k e b he ((BoundedMap.lookup_getD_update_some hb).resolve_left fun h => hk h.1).2
  · rename_i e hl
    rw [if_neg (by rw [hl]; nofun)]
    constructor
    · intro k e he
      rw [BoundedMap.lookup_modify] at he
      split at he
      · subst k
        obtain ⟨e', he', rfl⟩ := Option.map_eq_some_iff.mp he
        obtain ⟨h1, h2, h3, h4⟩ := hi.entry pd e' he'
        exact ⟨h1, h2, h3, h4⟩
      · exact hi.entry k e he
    · intro k e b he hb
      rw [BoundedMap.lookup_modify] at he
      split at he
      · subst k
        obtain ⟨e', he', -⟩ := Option.map_eq_some_iff.mp he
        exact hi.flag pd e' b he' hb
      · exact hi.flag k e b he hb

theorem notePrev_inv {st : St} (hi : Inv st.maps st.measured) (s : Switch) :
    Inv (notePrev s st.maps) (st.notedPrev s) := by
  unfold notePrev St.notedPrev
  split
  · exact noteRunnable_inv hi s.prev s.currentTime
  · exact hi

variable {c}

theorem delayOf_some {s : Switch} {m : Maps} {d : UInt64} (h : delayOf s m = some d) :
    ∃ e b, m.procSchedule.lookup s.next = some e ∧ m.enableAdd.lookup s.next = some b ∧
      d = s.currentTime - e.enterTime := by
  unfold delayOf at h
  split at h
  · rename_i e b he hb
    exact ⟨e, b, he, hb, (Option.some.inj h).symm⟩
  · cases h

/-- A delay goes to the entry of the task that comes in. -/
theorem addDelay_inv {m : Maps} {measured : ProcId → List UInt64} (hi : Inv m measured) {s : Switch}
    {d : UInt64} (hd : delayOf s m = some d) :
    Inv (addDelay c s d m) (Function.update measured s.next (measured s.next ++ [d])) := by
  obtain ⟨e, b, he, hb, -⟩ := delayOf_some hd
  have hadd := (hi.entry s.next e he).add (hi.flag s.next e b he hb) s.nextPrio d
  simp only [addDelay, he, hb]
  constructor
  · intro k e' he'
    rw [BoundedMap.lookup_modify] at he'
    split at he'
    · subst k
      rw [he] at he'
      cases he'
      rw [Function.update_self]
      exact hadd
    · rename_i hk
      rw [Function.update_of_ne hk]
      exact hi.entry k e' he'
  · intro k e' b' he' hb'
    rw [BoundedMap.lookup_modify] at he' hb'
    split at hb'
    · subst k
      rw [hb] at hb'
      cases hb'
      rw [Function.update_self]
      exact iff_of_true rfl (List.concat_ne_nil d _)
    · rename_i hk
      rw [if_neg hk] at he'
      rw [Function.update_of_ne hk]
      exact hi.flag k e' b' he' hb'

theorem schedProcessExit_inv {m : Maps} {measured : ProcId → List UInt64} (hi : Inv m measured)
    (pid tgid cpu : Int32) : Inv (schedProcessExit c pid tgid cpu m) measured := by
  constructor
  · intro k e he
    rw [schedProcessExit, BoundedMap.lookup_delete] at he
    split at he
    · cases he
    · exact hi.entry k e he
  · intro k e b he hb
    rw [schedProcessExit, BoundedMap.lookup_delete] at he hb
    split at he
    · cases he
    · rename_i hk
      rw [if_neg hk] at hb
      exact hi.flag k e b he hb

/-- A note leaves the three other maps as they are. -/
theorem noteRunnable_frame (pd : ProcId) (now : UInt64) (m : Maps) :
    (noteRunnable pd now m).targetSchedule = m.targetSchedule ∧
      (noteRunnable pd now m).tgSchedule = m.tgSchedule ∧ (noteRunnable pd now m).sysSchedule = m.sysSchedule := by
  unfold noteRunnable
  split
  · exact ⟨rfl, rfl, rfl⟩
  · exact ⟨rfl, rfl, rfl⟩

theorem notePrev_frame (s : Switch) (m : Maps) :
    (notePrev s m).targetSchedule = m.targetSchedule ∧
      (notePrev s m).tgSchedule = m.tgSchedule ∧ (notePrev s m).sysSchedule = m.sysSchedule := by
  unfold notePrev
  split
  · exact noteRunnable_frame s.prev s.currentTime m
  · exact ⟨rfl, rfl, rfl⟩

theorem addDelay_sys {s : Switch} {m : Maps} {d : UInt64} (hd : delayOf s m = some d) :
    (addDelay c s d m).sysSchedule = m.sysSchedule.add d := by
  obtain ⟨e, b, he, hb, -⟩ := delayOf_some hd
  simp only [addDelay, he, hb]

theorem step_inv {e : Ev} {st st' : St} (hi : Inv st.maps st.measured ∧ st.maps.sysSchedule = addAll st.all)
    (h : step c e st = some st') : Inv st'.maps st'.measured ∧ st'.maps.sysSchedule = addAll st'.all := by
  obtain ⟨hm, hs⟩ := hi
  cases e with
  | wakeup pid cpu now =>
    obtain rfl := Option.some.inj h
    exact ⟨noteRunnable_inv hm (procId pid cpu) now, (noteRunnable_frame (procId pid cpu) now st.maps).2.2.trans hs⟩
  | wakeupNew pid cpu now =>
    obtain rfl := Option.some.inj h
    exact ⟨noteRunnable_inv hm (procId pid cpu) now, (noteRunnable_frame (procId pid cpu) now st.maps).2.2.trans hs⟩
  | switch s =>
    obtain rfl := Option.some.inj h
    have hprev := notePrev_inv hm s
    dsimp only [schedSwitch]
    rcases hd : delayOf s (notePrev s st.maps) with _ | d
    · simp only [Option.toList_none, List.append_nil, Function.update_eq_self]
      exact ⟨hprev, (notePrev_frame s st.maps).2.2.trans hs⟩
    · simp only [Option.toList_some]
      refine ⟨addDelay_inv hprev hd, ?_⟩
      rw [addDelay_sys hd, (notePrev_frame s st.maps).2.2, hs, addAll_snoc]
  | exit pid tgid cpu =>
    obtain rfl := Option.some.inj h
    exact ⟨schedProcessExit_inv hm pid tgid cpu, hs⟩

theorem init_inv : Inv init.maps init.measured ∧ init.maps.sysSchedule = addAll init.all :=
  ⟨⟨fun _ _ he => absurd he nofun, fun _ _ _ he => absurd he nofun⟩, rfl⟩

theorem inv_of_run {st : St} (h : Run (step c) anyEvent init st) :
    Inv st.maps st.measured ∧ st.maps.sysSchedule = addAll st.all :=
  Run.inv (P := fun st => Inv st.maps st.measured ∧ st.maps.sysSchedule = addAll st.all) h init_inv
    fun _ _ _ hi _ hs => step_inv hi hs

/-! ## The exact condition -/

theorem clear_nil (cap : Nat) (h : 0 < cap) : Clear cap [] := ⟨h, by decide, nofun⟩

theorem toInt_count {n : Nat} (h : n ≠ 0) : (Int32.ofNat (max 1 n)).toInt = n ↔ n < 2 ^ 31 := by
  rw [max_eq_right (Nat.one_le_iff_ne_zero.mpr h)]
  constructor
  · intro heq
    have hlt := Int32.toInt_lt (Int32.ofNat n)
    omega
  · exact Int32.toInt_ofNat_of_lt

theorem toNat_sumCount (n : Nat) : ((UInt64.ofNat n).toNat : Int) = n ↔ n < 2 ^ 64 := by
  constructor
  · intro heq
    have hlt := UInt64.toNat_lt (UInt64.ofNat n)
    omega
  · intro hlt
    rw [UInt64.toNat_ofNat_of_lt' hlt]

theorem Holds.statsOf_iff {e : ScheduleEvent} {ds : List UInt64} (h : Holds e ds) (hne : ds ≠ []) :
    StatsOf ds e.count.toInt e.sumDelay e.maxDelay e.minDelay ↔ Clear (2 ^ 31) ds := by
  rw [h.count, h.sumDelay, h.maxDelay, h.minDelay]
  exact ScheduleStats.statsOf_iff (toInt_count (List.length_eq_zero_iff.not.mpr hne))

/-- In every state of every run, the statistics are exact if and only if nothing has wrapped
    around and no delay of 0 was lost. -/
theorem statistics_iff {st : St} (h : Run (step c) anyEvent init st) : Exact st ↔ AllClear st := by
  obtain ⟨hi, hs⟩ := inv_of_run h
  have hsys : StatsOf st.all st.maps.sysSchedule.sumCount.toNat st.maps.sysSchedule.sumDelay
      st.maps.sysSchedule.maxDelay st.maps.sysSchedule.minDelay ↔ Clear (2 ^ 64) st.all := by
    rw [hs]
    refine statsOf_iff ?_
    rw [sumCount_addAll]
    exact toNat_sumCount st.all.length
  constructor
  · intro hx
    refine ⟨fun k e he => ?_, hsys.mp hx.sys⟩
    by_cases hne : st.measured k = []
    · rw [hne]
      exact clear_nil _ (by decide)
    · exact ((hi.entry k e he).statsOf_iff hne).mp (hx.entry k e he hne)
  · intro hc
    exact ⟨fun k e he hne => ((hi.entry k e he).statsOf_iff hne).mpr (hc.entry k e he), hsys.mpr hc.all⟩

theorem noted_sublist {st : St} (h : ∀ k, (st.measured k).Sublist st.all) (pd k : ProcId) :
    (st.noted pd k).Sublist st.all := by
  unfold St.noted
  split
  · rw [Function.update_apply]
    split
    · exact List.nil_sublist _
    · exact h k
  · exact h k

theorem measured_sublist {st : St} (h : Run (step c) anyEvent init st) (k : ProcId) :
    (st.measured k).Sublist st.all := by
  refine Run.inv (P := fun st => ∀ k, (st.measured k).Sublist st.all) h (fun _ => .refl _) ?_ k
  intro e st st' hi _ hs k
  cases e with
  | wakeup pid cpu now =>
    obtain rfl := Option.some.inj hs
    exact noted_sublist hi (procId pid cpu) k
  | wakeupNew pid cpu now =>
    obtain rfl := Option.some.inj hs
    exact noted_sublist hi (procId pid cpu) k
  | switch s =>
    obtain rfl := Option.some.inj hs
    have hprev : ∀ k, (st.notedPrev s k).Sublist st.all := by
      intro k
      unfold St.notedPrev
      split
      · exact noted_sublist hi s.prev k
      · exact hi k
    dsimp only
    rw [Function.update_apply]
    split
    · exact (hprev s.next).append (.refl _)
    · exact (hprev k).trans (List.sublist_append_left ..)
  | exit pid tgid cpu =>
    obtain rfl := Option.some.inj hs
    exact hi k

/-- It is enough that no delay was 0, and that there were not too many. -/
theorem allClear_of_pos {st : St} (h : Run (step c) anyEvent init st) (h0 : 0 ∉ st.all)
    (hn : st.all.length < 2 ^ 31) (ht : (st.all.map UInt64.toNat).sum < 2 ^ 64) : AllClear st := by
  refine ⟨fun k e _ => ?_, ⟨hn.trans (by decide), ht, fun hmem => absurd hmem h0⟩⟩
  have hsub := measured_sublist h k
  exact ⟨hsub.length_le.trans_lt hn, ((hsub.map UInt64.toNat).sum_le_sum fun _ _ => Nat.zero_le _).trans_lt ht,
    fun hmem => absurd (hsub.subset hmem) h0⟩

def switchTo (prev next : Int32) (prevState : UInt32) (now : UInt64) : Ev :=
  .switch ⟨false, prev, prevState, next, next, 120, 0, now⟩

/-- Two delays of one task. -/
theorem delays_are_counted :
    ∃ st, Run (step .default) anyEvent init st ∧ st.measured ⟨7, 0⟩ = [5, 8] ∧ Exact st := by
  obtain ⟨st, hr, hs⟩ := run_of_exec_any (step .default) init
    [.wakeup 7 0 10, switchTo 0 7 0 15, switchTo 7 0 0 20, switchTo 0 7 0 28]
    (fun st => decide (st.measured ⟨7, 0⟩ = [5, 8] ∧ 0 ∉ st.all ∧ st.all.length < 2 ^ 31 ∧
      (st.all.map UInt64.toNat).sum < 2 ^ 64)) (by decide)
  obtain ⟨hm, h0, hn, ht⟩ := of_decide_eq_true hs
  exact ⟨st, hr, hm, (statistics_iff hr).mpr (allClear_of_pos hr h0 hn ht)⟩

/-- A task comes in at the time of its wakeup, and again 5 after it was left runnable: the
    minimum is 5. -/
theorem zero_is_replaced : ∃ st, Run (step .default) anyEvent init st ∧ ¬ Exact st := by
  obtain ⟨st, hr, hs⟩ := run_of_exec_any (step .default) init
    [.wakeup 7 0 10, switchTo 0 7 0 10, switchTo 7 0 0 20, switchTo 0 7 0 25]
    (fun st => decide (st.measured ⟨7, 0⟩ = [0, 5]) &&
      (st.maps.procSchedule.lookup ⟨7, 0⟩).any (·.minDelay = 5)) (by decide)
  obtain ⟨hm, he⟩ := Bool.and_eq_true_iff.mp hs
  obtain ⟨e, he, hmin⟩ := (Option.any_eq_true _ _).mp he
  refine ⟨st, hr, fun hx => ?_⟩
  have hm := of_decide_eq_true hm
  have hleast := (hx.entry ⟨7, 0⟩ e he (by rw [hm]; nofun)).least (by rw [hm]; nofun)
  rw [hm, of_decide_eq_true hmin] at hleast
  exact absurd (hleast.2 (List.mem_cons_self : (0 : UInt64) ∈ [0, 5])) (by decide)

end Ksight.ProcImage.ScheduleStats

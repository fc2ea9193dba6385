/-
  Ksight.Iotracing.IoSchedule — the threads that wait for IO too long
  (src/fs/iotracing/bpf/iotracing.bpf.c: `detect_io_schedule`, `detect_io_schedule_return`,
  for `io_schedule` and `io_schedule_timeout`).

  The entry probe notes the stack and the time under the id of the thread, the return probe
  submits an event if more than FILTER_EVENT_TIMEOUT has passed, and deletes the note. A
  thread is in one call at a time, which it returns from; it may have been in it before
  tracing began. The perf buffer takes every event. The field `cpu`, which stays 0, is left out.

  The law (`Reported`): the events are, one for one and in their order, the waits that were
  longer than the timeout, each with its own thread, stack and times; a wait has an event
  only if its entry was seen and found room in the map. The map has the notes of the threads
  that are waiting, and of no other (`Noted`). `waits_reported`: both hold in every run.
-/

import Ksight.Lib.BoundedMap
import Ksight.Lib.Run

namespace Ksight.Iotracing.IoSchedule

open Ksight.Lib

structure IodelayEntry where
  stack : List UInt64
  ts : UInt64
  cost : UInt64
  stackSize : Int32
  pid : UInt32
  tid : UInt32
  comm : List UInt8
  deriving DecidableEq

/-- `io_schedule_stack`. -/
abbrev Notes := BoundedMap UInt32 IodelayEntry 128

/-- What the entry probe reads; `id` is the `bpf_get_current_pid_tgid` of the thread. -/
structure Call where
  id : UInt64
  comm : List UInt8
  ts : UInt64
  stack : List UInt64
  stackSize : Int32

def Call.tid (c : Call) : UInt32 := (c.id &&& 0xffffffff).toUInt32

def Call.entry (c : Call) : IodelayEntry := ⟨c.stack, c.ts, 0, c.stackSize, 0, 0, c.comm⟩

def detectIoSchedule (c : Call) (m : Notes) : Notes := (m.update c.tid c.entry).getD m

def detectIoScheduleReturn (timeout : UInt64) (id now : UInt64) (m : Notes) : Option IodelayEntry × Notes :=
  let pid := (id &&& 0xffffffff).toUInt32
  match m.lookup pid with
  | none => (none, m)
  | some entry =>
    let event :=
      if now - entry.ts > timeout then
        some { entry with pid := (id >>> 32 &&& 0xffffffff).toUInt32, tid := pid, cost := now - entry.ts }
      else none
    (event, m.delete pid)

/-! ## The threads -/

/-- `noted`: the entry was seen, and there was room for it. -/
structure Wait where
  call : Call
  noted : Bool

structure St where
  notes : Notes
  /-- The threads that are in a call, by their ids. -/
  waits : UInt32 → Option Wait
  events : List IodelayEntry
  /-- Ghost: the waits that have ended, with the time of the return. -/
  ended : List (Wait × UInt64)

inductive Ev where
  | enter (call : Call)
  | ret (tid : UInt32) (now : UInt64)

/-- The calls in which threads are when tracing begins. -/
def init (calls : UInt32 → Option Call) : St :=
  ⟨.empty, fun tid => (calls tid).map (⟨·, false⟩), [], []⟩

variable (timeout : UInt64)

def step (e : Ev) (s : St) : Option St :=
  match e with
  | .enter call =>
    match s.waits call.tid with
    | some _ => none
    | none => some { s with
        notes := detectIoSchedule call s.notes
        waits := Function.update s.waits call.tid (some ⟨call, s.notes.HasRoom call.tid⟩) }
  | .ret tid now =>
    match s.waits tid with
    | none => none
    | some w =>
      let (event, notes) := detectIoScheduleReturn timeout w.call.id now s.notes
      some ⟨notes, Function.update s.waits tid none, s.events ++ event.toList, s.ended ++ [(w, now)]⟩

/-- The event that a wait is due. -/
def Wait.event (w : Wait) (now : UInt64) : Option IodelayEntry :=
  if w.noted ∧ now - w.call.ts > timeout then
    some ⟨w.call.stack, w.call.ts, now - w.call.ts, w.call.stackSize, (w.call.id >>> 32 &&& 0xffffffff).toUInt32,
      w.call.tid, w.call.comm⟩
  else none

def Reported (s : St) : Prop := s.events = s.ended.filterMap fun w => w.1.event timeout w.2

def Noted (s : St) : Prop :=
  ∀ tid, s.notes.lookup tid = (s.waits tid).bind fun w => if w.noted then some w.call.entry else none

structure Inv (s : St) : Prop where
  own : ∀ tid w, s.waits tid = some w → w.call.tid = tid
  noted : Noted s
  reported : Reported timeout s

variable {timeout}

theorem init_inv {calls : UInt32 → Option Call} (h : ∀ tid c, calls tid = some c → c.tid = tid) :
    Inv timeout (init calls) where
  own tid w hw := by
    obtain ⟨c, hc, rfl⟩ := Option.map_eq_some_iff.mp hw
    exact h tid c hc
  noted tid := by
    rw [show (init calls).notes.lookup tid = none from BoundedMap.lookup_empty tid]
    simp only [init]
    cases calls tid <;> rfl
  reported := rfl

/-- The return of a wait finds what its entry has noted. -/
theorem return_eq {s : St} (hi : Inv timeout s) {tid : UInt32} {w : Wait} (hw : s.waits tid = some w)
    (now : UInt64) :
    detectIoScheduleReturn timeout w.call.id now s.notes =
      (w.event timeout now, if w.noted then s.notes.delete tid else s.notes) := by
  have htid : (w.call.id &&& 0xffffffff).toUInt32 = tid := hi.own tid w hw
  have hl := hi.noted tid
  rw [hw, Option.bind_some] at hl
  unfold detectIoScheduleReturn Wait.event
  simp only [htid, hl]
  by_cases hn : w.noted
  · simp only [hn, if_true, true_and, Call.entry]
    rw [hi.own tid w hw]
  · simp only [hn, Bool.false_eq_true, if_false, false_and]

theorem Inv.enter {s : St} (hi : Inv timeout s) {call : Call} (hw : s.waits call.tid = none) :
    Inv timeout { s with
      notes := detectIoSchedule call s.notes
      waits := Function.update s.waits call.tid (some ⟨call, s.notes.HasRoom call.tid⟩) } where
  own tid w h := by
    by_cases ht : tid = call.tid
    · subst ht
      simp only [Function.update_self, Option.some.injEq] at h
      subst w
      rfl
    · simp only [Function.update_of_ne ht] at h
      exact hi.own tid w h
  noted tid := by
    have hl := BoundedMap.lookup_getD_update s.notes call.tid call.entry tid
    by_cases ht : tid = call.tid
    · subst ht
      have hnone := hi.noted call.tid
      rw [hw, Option.bind_none] at hnone
      simp only [Function.update_self, Option.bind_some, detectIoSchedule, hl, hnone, true_and, decide_eq_true_eq]
    · simp only [Function.update_of_ne ht, detectIoSchedule, hl, ht, false_and, if_false]
      exact hi.noted tid
  reported := hi.reported

theorem Inv.ret {s : St} (hi : Inv timeout s) {tid : UInt32} {w : Wait} (hw : s.waits tid = some w) (now : UInt64) :
    Inv timeout ⟨if w.noted then s.notes.delete tid else s.notes, Function.update s.waits tid none,
      s.events ++ (w.event timeout now).toList, s.ended ++ [(w, now)]⟩ where
  own t v h := by
    by_cases ht : t = tid
    · subst ht
      simp only [Function.update_self, reduceCtorEq] at h
    · simp only [Function.update_of_ne ht] at h
      exact hi.own t v h
  noted t := by
    have hself := hi.noted tid
    rw [hw, Option.bind_some] at hself
    by_cases hn : w.noted <;> by_cases ht : t = tid
    · subst ht
      simp only [hn, if_true, Function.update_self, BoundedMap.lookup_delete_self, Option.bind_none]
    · simp only [hn, if_true, Function.update_of_ne ht, BoundedMap.lookup_delete_ne _ ht]
      exact hi.noted t
    · subst ht
      simp only [hn, Bool.false_eq_true, if_false, Function.update_self, Option.bind_none] at hself ⊢
      exact hself
    · simp only [hn, Bool.false_eq_true, if_false, Function.update_of_ne ht]
      exact hi.noted t
  reported := by
    have hr := hi.reported
    unfold Reported at hr ⊢
    simp only [List.filterMap_append, List.filterMap_cons, List.filterMap_nil, hr]
    cases w.event timeout now <;> rfl

theorem step_inv {e : Ev} {s t : St} (hi : Inv timeout s) (h : step timeout e s = some t) : Inv timeout t := by
  cases e with
  | enter call =>
    simp only [step] at h
    split at h
    · cases h
    · rename_i hw
      cases h
      exact hi.enter hw
  | ret tid now =>
    simp only [step] at h
    split at h
    · cases h
    · rename_i w hw
      rw [return_eq hi hw] at h
      cases h
      exact hi.ret hw now

/-- In every run the events are the waits longer than the timeout, and the map has the notes of
    the threads that wait. -/
theorem waits_reported {calls : UInt32 → Option Call} (hc : ∀ tid c, calls tid = some c → c.tid = tid) {s : St}
    (h : Run (step timeout) anyEvent (init calls) s) : Reported timeout s ∧ Noted s := by
  have hi : Inv timeout s := h.inv (init_inv hc) fun _ _ _ hi _ hs => step_inv hi hs
  exact ⟨hi.reported, hi.noted⟩

/-- Two threads wait, one of them for 200 ms. -/
theorem long_wait_is_reported : ∃ s, s.events.map (fun e => (e.tid, e.cost)) = [(6, 200000000)] ∧
    Reported 100000000 s ∧ Noted s := by
  obtain ⟨s, hr, hp⟩ := run_of_exec_any (step 100000000) (init fun _ => none)
    [.enter ⟨5, [], 0, [], 0⟩, .enter ⟨6, [], 10, [], 0⟩, .ret 5 50000000, .ret 6 200000010]
    (fun s => s.events.map (fun e => (e.tid, e.cost)) = [(6, 200000000)]) (by decide +kernel)
  have hnone : ∀ tid c, (none : Option Call) = some c → c.tid = tid := by simp
  exact ⟨s, of_decide_eq_true hp, waits_reported hnone hr⟩

end Ksight.Iotracing.IoSchedule

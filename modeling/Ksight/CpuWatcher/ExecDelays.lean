/-
  Ksight.CpuWatcher.ExecDelays — from the calls of `execve` to the summaries
  (src/process/cpu_watcher/bpf/sc_delay.bpf.c; src/cpu_watcher.c: the loop of `main` for
  option -y, as in `Ksight.CpuWatcher.ScDelay`).

  The entry probe notes the time under the process, and the exit probe takes it from there and
  submits an event. Each turn of the loop polls what has been submitted and summarises it, but
  for the first turn. A thread may be inside a call when tracing starts, and may be killed in
  one. Threads of one process may be in calls at once. The command name of an event, which is
  only printed, is left out.

  The law (`Exact`): what is submitted between two polls are the calls that return in between,
  of those that were entered while the tool traced, each with its own times; and what a turn
  prints is their average, their maximum and their minimum.

  - `summaries_right_iff`: the law holds all along a run if and only if each step is `Clean`:
    a return finds the time of its own entry and room in the ring buffer, one whose entry was
    not traced submits nothing, and the delays of a turn can be summarised (`Clear`).
  - `apart_is_right`: it holds in every run in which no two threads of a process are in calls
    at once (`Apart`), the map and the ring buffer have room, and the delays of a turn can be
    summarised. A process that was killed in a call leaves an entry, which the next one with
    its number overwrites.
  - A call that another thread's entry overtakes is told with that one's time, and the other
    call is not told (`two_threads_of_one_process`).
-/

import Mathlib.Algebra.Order.BigOperators.Group.List
import Ksight.CpuWatcher.ScDelay
import Ksight.Lib.BoundedMap
import Ksight.Lib.Run

namespace Ksight.CpuWatcher.ExecDelays

open Ksight.Lib
open ScDelay (Summary Clear syscallDelayPrint maxPrint turn)

abbrev Pid := Nat

/-- `event2`. -/
structure Event where
  startTime : UInt64
  exitTime : UInt64
  delay : UInt64
  pid : Pid
  deriving DecidableEq

abbrev ProcStartTime := BoundedMap Pid UInt64 4096

def sysEnterExecve (ktime : UInt64) (pid : Pid) (procStartTime : ProcStartTime) : ProcStartTime :=
  let startTime := ktime / 1000
  (procStartTime.update pid startTime).getD procStartTime

def sysExitExecve (ktime : UInt64) (pid : Pid) (reserved : Bool) (procStartTime : ProcStartTime) :
    Option Event × ProcStartTime :=
  let exitTime := ktime / 1000
  match procStartTime.lookup pid with
  | none => (none, procStartTime)
  | some startTime =>
    let delay := exitTime - startTime
    let procStartTime := procStartTime.delete pid
    if reserved then (some ⟨startTime, exitTime, delay, pid⟩, procStartTime) else (none, procStartTime)

/-! ## Threads and turns -/

/-- A call in progress: when it was entered, and whether the tool traced that. -/
structure Call where
  pid : Pid
  entered : UInt64
  traced : Bool
  deriving DecidableEq

/-- The event of the call. -/
def Call.event (c : Call) (exitTime : UInt64) : Event := ⟨c.entered, exitTime, exitTime - c.entered, c.pid⟩

/-- What a turn of the loop polled and printed. -/
structure Turn where
  /-- Ghost: the events of the calls that returned since the last poll. -/
  returned : List Event
  polled : List Event
  /-- `none` where the program is undefined. -/
  out : Option (Option Summary)

structure St (n : Nat) where
  procStartTime : ProcStartTime
  calls : Fin n → Option Call
  rb : List Event
  /-- `syscall_start_print`. -/
  start : Bool
  /-- Newest first. -/
  turns : List Turn
  /-- Ghost: the events of the calls that have returned since the last poll. -/
  returned : List Event

variable {n : Nat}

/-- Tracing starts with some threads inside their calls. -/
def init (inside : Fin n → Option (Pid × UInt64)) : St n where
  procStartTime := .empty
  calls i := (inside i).map fun c => ⟨c.1, c.2, false⟩
  rb := []
  start := false
  turns := []
  returned := []

inductive Ev (n : Nat) where
  | enter (i : Fin n) (pid : Pid) (ktime : UInt64)
  | ret (i : Fin n) (ktime : UInt64) (reserved : Bool)
  /-- The thread dies in its call. -/
  | kill (i : Fin n)
  | poll

def delays (events : List Event) : List UInt64 := events.map Event.delay

def step : Ev n → St n → Option (St n)
  | .enter i pid ktime, s =>
    match s.calls i with
    | some _ => none
    | none => some { s with
        procStartTime := sysEnterExecve ktime pid s.procStartTime
        calls := Function.update s.calls i (some ⟨pid, ktime / 1000, true⟩) }
  | .ret i ktime reserved, s =>
    match s.calls i with
    | none => none
    | some c =>
      let (event, procStartTime) := sysExitExecve ktime c.pid reserved s.procStartTime
      some { s with
        procStartTime := procStartTime
        calls := Function.update s.calls i none
        rb := s.rb ++ event.toList
        returned := s.returned ++ if c.traced then [c.event (ktime / 1000)] else [] }
  | .kill i, s =>
    match s.calls i with
    | none => none
    | some _ => some { s with calls := Function.update s.calls i none }
  | .poll, s =>
    if s.turns.all (·.out.isSome) then
      some { s with
        rb := []
        start := true
        turns := ⟨s.returned, s.rb, turn s.start (delays s.rb)⟩ :: s.turns
        returned := [] }
    else none

/-! ## The law -/

/-- Of the calls that returned. -/
def natDelays (events : List Event) : List Nat := (delays events).map UInt64.toNat

structure Turn.Right (t : Turn) : Prop where
  polled : t.polled = t.returned
  printed : ∃ out, t.out = some out ∧ ∀ s ∈ out, Summary.Of s (natDelays t.returned)

structure Exact (s : St n) : Prop where
  submitted : s.rb = s.returned
  turns : ∀ t ∈ s.turns, t.Right

instance (ds : List Nat) : Decidable (Clear ds) :=
  have : Decidable (∃ m ∈ ds, (∀ d ∈ ds, m ≤ d) ∧ (m = 10000000 ∨ m < 10000000 ∧ (m = 0 ∨ m ∈ ds.tail))) :=
    List.decidableBEx _ _
  decidable_of_iff (_ ∧ _) ⟨fun h => ⟨h.1, h.2⟩, fun h => ⟨h.1, h.2⟩⟩

/-- The events can be summarised, if they are. -/
def Summarised (start : Bool) (events : List Event) : Prop :=
  events.length < 2 ^ 31 ∧ (start = true → Clear (natDelays events))

instance (start : Bool) (events : List Event) : Decidable (Summarised start events) :=
  inferInstanceAs (Decidable (_ ∧ _))

/-- The condition. -/
def Clean : Ev n → St n → Prop
  | .ret i _ reserved, s => ∀ c ∈ s.calls i,
      if c.traced then s.procStartTime.lookup c.pid = some c.entered ∧ reserved = true
      else s.procStartTime.lookup c.pid = none ∨ reserved = false
  | .poll, s => Summarised s.start s.rb
  | _, _ => True

instance : ∀ (e : Ev n) (s : St n), Decidable (Clean e s)
  | .ret i _ _, s => inferInstanceAs (Decidable (∀ _ ∈ s.calls i, _))
  | .poll, s => inferInstanceAs (Decidable (Summarised s.start s.rb))
  | .enter .., _ | .kill _, _ => .isTrue trivial

/-! ## A turn -/

/-- An event adds one to the count, which must not overflow. -/
theorem print_count (g : ScDelay.Globals) (d : UInt64) :
    g.sysCallCount = Int32.maxValue ∧ syscallDelayPrint g d = none ∨
      g.sysCallCount ≠ Int32.maxValue ∧ ∃ g', syscallDelayPrint g d = some g' ∧
        g'.sysCallCount = g.sysCallCount + 1 := by
  by_cases h : g.sysCallCount = Int32.maxValue
  · exact .inl ⟨h, by simp [syscallDelayPrint, apply_ite ScDelay.Globals.sysCallCount, h]⟩
  · exact .inr ⟨h, by simp [syscallDelayPrint, apply_ite ScDelay.Globals.sysCallCount, h]⟩

/-- The count of a window overflows if and only if it has 2^31 events. -/
theorem window_count (ds : List UInt64) :
    2 ^ 31 ≤ ds.length ∧ ds.foldlM syscallDelayPrint .reset = none ∨
      ds.length < 2 ^ 31 ∧ ∃ g, ds.foldlM syscallDelayPrint .reset = some g ∧
        g.sysCallCount = Int32.ofNat ds.length := by
  induction ds using List.reverseRecOn with
  | nil => exact .inr ⟨by decide, .reset, rfl, rfl⟩
  | append_singleton ds d ih =>
    rw [List.foldlM_append, List.length_append, List.length_singleton]
    rcases ih with ⟨hlen, hnone⟩ | ⟨hlen, g, hg, hcount⟩
    · rw [hnone]
      exact .inl ⟨by omega, rfl⟩
    · have hmax : g.sysCallCount = Int32.maxValue ↔ ds.length + 1 = 2 ^ 31 := by
        rw [hcount, ← Int32.toInt_inj, Int32.toInt_ofNat_of_lt hlen]
        change (ds.length : Int) = 2147483647 ↔ _
        omega
      rw [hg]
      rcases print_count g d with ⟨hfull, hnone⟩ | ⟨hroom, g', hg', hcount'⟩
      · exact .inl ⟨(hmax.mp hfull).ge, by simp [hnone]⟩
      · have hnext : ds.length + 1 ≠ 2 ^ 31 := fun h => hroom (hmax.mpr h)
        refine .inr ⟨by omega, g', by simp [hg'], ?_⟩
        rw [hcount', hcount, Int32.ofNat_add]
        rfl

/-- A delay that no `int` holds is not summarised. -/
theorem of_lt {s : Summary} {ds : List Nat} (h : s.Of ds) : ∀ d ∈ ds, d < 2 ^ 31 := by
  obtain ⟨m, -, hle, hm⟩ := h.max
  intro d hd
  have hdm := hle d hd
  have hlt := s.max.toInt_lt
  omega

theorem lt_of_clear {ds : List Nat} (h : Clear ds) : ∀ d ∈ ds, d < 2 ^ 31 := fun _ hd =>
  (List.le_sum_of_mem hd).trans_lt h.sum

theorem turn_right_iff (start : Bool) (events : List Event) :
    (∃ out, turn start (delays events) = some out ∧ ∀ s ∈ out, Summary.Of s (natDelays events)) ↔
      Summarised start events := by
  have hlength : (delays events).length = events.length := List.length_map _
  by_cases hd : ∀ d ∈ delays events, d.toNat < 2 ^ 31
  · have hturn := ScDelay.turn_iff start hd
    rwa [hlength] at hturn
  · have hlong : ¬ ∀ d ∈ natDelays events, d < 2 ^ 31 := fun h =>
      hd fun d hmem => h d.toNat (List.mem_map_of_mem hmem)
    cases start with
    | true =>
      refine iff_of_false ?_ fun h => hlong (lt_of_clear (h.2 rfl))
      rintro ⟨out, hout, hall⟩
      obtain ⟨g, -, hg⟩ := Option.bind_eq_some_iff.mp hout
      obtain ⟨s, -, rfl⟩ := Option.map_eq_some_iff.mp hg
      exact hlong (of_lt (hall s rfl))
    | false =>
      rcases window_count (delays events) with ⟨hlen, hnone⟩ | ⟨hlen, g, hg, -⟩
      · have hfull : turn false (delays events) = none := by rw [turn, hnone]; rfl
        refine iff_of_false ?_ fun h => ?_
        · rintro ⟨out, hout, -⟩
          rw [hfull] at hout
          cases hout
        · have := h.1
          omega
      · have hfirst : turn false (delays events) = some none := by rw [turn, hg]; rfl
        refine iff_of_true ⟨none, hfirst, by simp⟩ ⟨hlength ▸ hlen, ?_⟩
        simp

/-! ## The exact condition -/

/-- What a return submits is its call's event if and only if it finds its own entry. -/
theorem submitted_iff (c : Call) (ktime : UInt64) (reserved : Bool) (m : ProcStartTime) :
    ((sysExitExecve ktime c.pid reserved m).1.toList = if c.traced then [c.event (ktime / 1000)] else []) ↔
      if c.traced then m.lookup c.pid = some c.entered ∧ reserved = true
      else m.lookup c.pid = none ∨ reserved = false := by
  unfold sysExitExecve
  rcases hm : m.lookup c.pid with _ | v
  · cases c.traced <;> simp
  · cases reserved
    · cases c.traced <;> simp
    · cases c.traced
      · simp
      · simp only [if_true, Option.toList_some, List.cons.injEq, and_true, Option.some.injEq, Call.event,
          Event.mk.injEq, true_and]
        exact ⟨fun h => h.1, fun h => ⟨h, congrArg _ h⟩⟩

theorem exact_step {e : Ev n} {s t : St n} (h : Exact s) (hs : step e s = some t) : Exact t ↔ Clean e s := by
  cases e with
  | enter i pid ktime =>
    rcases hc : s.calls i with _ | c <;> simp only [step, hc, reduceCtorEq, Option.some.injEq] at hs
    subst hs
    exact iff_of_true ⟨h.submitted, h.turns⟩ trivial
  | kill i =>
    rcases hc : s.calls i with _ | c <;> simp only [step, hc, reduceCtorEq, Option.some.injEq] at hs
    subst hs
    exact iff_of_true ⟨h.submitted, h.turns⟩ trivial
  | ret i ktime reserved =>
    rcases hc : s.calls i with _ | c <;> simp only [step, hc, reduceCtorEq, Option.some.injEq] at hs
    subst hs
    have hclean : Clean (.ret i ktime reserved) s ↔
        if c.traced then s.procStartTime.lookup c.pid = some c.entered ∧ reserved = true
        else s.procStartTime.lookup c.pid = none ∨ reserved = false := by
      simp [Clean, hc]
    rw [hclean, ← submitted_iff c ktime reserved s.procStartTime]
    constructor
    · intro ht
      have hsub := ht.submitted
      rw [h.submitted] at hsub
      exact List.append_cancel_left hsub
    · intro hsub
      exact ⟨by rw [h.submitted, hsub], h.turns⟩
  | poll =>
    simp only [step, Option.ite_none_right_eq_some, Option.some.injEq] at hs
    obtain ⟨-, rfl⟩ := hs
    have hturn : Clean (.poll : Ev n) s ↔
        ∃ out, turn s.start (delays s.rb) = some out ∧ ∀ sm ∈ out, Summary.Of sm (natDelays s.rb) :=
      (turn_right_iff s.start s.rb).symm
    rw [hturn]
    constructor
    · intro ht
      have hnew := (ht.turns _ List.mem_cons_self).printed
      rwa [← h.submitted] at hnew
    · intro hnew
      refine ⟨rfl, fun t ht => ?_⟩
      rcases List.mem_cons.mp ht with rfl | ht
      · exact ⟨h.submitted, h.submitted ▸ hnew⟩
      · exact h.turns t ht

theorem exact_init (inside : Fin n → Option (Pid × UInt64)) : Exact (init inside) := ⟨rfl, fun _ ht => by cases ht⟩

/-- The turns summarise the calls, all along a run, if and only if each step is clean. -/
theorem summaries_right_iff {inside : Fin n → Option (Pid × UInt64)} {es : List (Ev n)} {s : St n}
    (h : exec step es (init inside) = some s) :
    Along step Exact es (init inside) ↔ execIf step Clean es (init inside) = some s :=
  along_iff_of_step (I := fun _ => True) (fun _ _ _ _ _ => trivial) (fun _ _ _ _ hx hs => exact_step hx hs) trivial
    (exact_init inside) h

/-- Two calls of `execve`, the longer one first, after a thread that dies in its call. -/
def twoCalls : List (Ev 3) :=
  [.enter 2 9 500, .kill 2, .poll, .enter 0 5 1000, .ret 0 8000 true, .enter 1 6 9000, .ret 1 12000 true, .poll]

theorem two_calls_are_summarised : ∃ s : St 3, exec step twoCalls (init fun _ => none) = some s ∧
    execIf step Clean twoCalls (init fun _ => none) = some s ∧ Along step Exact twoCalls (init fun _ => none) := by
  obtain ⟨s, hexec, hif, -⟩ := execIf_any step Clean (init fun _ => none) twoCalls (fun _ => true) (by decide +kernel)
  exact ⟨s, hexec, hif, (summaries_right_iff hexec).mpr hif⟩

/-- The second thread's entry overtakes the first call, which is told with its time. -/
theorem two_threads_of_one_process :
    ∃ s : St 2, Run step anyEvent (init fun _ => none) s ∧ ¬ Exact s := by
  obtain ⟨s, hr, hs⟩ := run_of_exec_any step (init fun _ => none : St 2)
    [.enter 0 5 1000, .enter 1 5 2000, .ret 0 5000 true] (fun s => decide (s.rb ≠ s.returned)) (by decide +kernel)
  exact ⟨s, hr, fun h => of_decide_eq_true hs h.submitted⟩

/-! ## Processes with one call at a time -/

/-- No other thread of the process is in a call, and the maps have room. -/
def Apart : Ev n → St n → Prop
  | .enter _ pid _, s => (∀ j, ∀ c ∈ s.calls j, c.pid ≠ pid) ∧ s.procStartTime.HasRoom pid
  | .ret _ _ reserved, _ => reserved = true
  | .kill _, _ => True
  | .poll, s => Summarised s.start s.rb

instance : ∀ (e : Ev n) (s : St n), Decidable (Apart e s)
  | .enter _ pid _, s =>
    have : Decidable (∀ j, ∀ c ∈ s.calls j, c.pid ≠ pid) := Nat.decidableForallFin _
    inferInstanceAs (Decidable (_ ∧ s.procStartTime.HasRoom pid))
  | .ret _ _ reserved, _ => inferInstanceAs (Decidable (reserved = true))
  | .kill _, _ => .isTrue trivial
  | .poll, s => inferInstanceAs (Decidable (Summarised s.start s.rb))

/-- A call that was traced has its own entry, and is the only one of its process; the process of
    another call has no entry. -/
structure Inv (s : St n) : Prop where
  entry : ∀ i, ∀ c ∈ s.calls i, s.procStartTime.lookup c.pid = if c.traced then some c.entered else none
  apart : ∀ i j, ∀ c ∈ s.calls i, ∀ d ∈ s.calls j, c.traced = true → c.pid = d.pid → i = j

theorem inv_init (inside : Fin n → Option (Pid × UInt64)) : Inv (init inside) where
  entry i c hc := by
    obtain ⟨p, -, rfl⟩ := Option.map_eq_some_iff.mp hc
    exact BoundedMap.lookup_empty _
  apart i j c hc d _ ht := by
    obtain ⟨p, -, rfl⟩ := Option.map_eq_some_iff.mp hc
    cases ht

theorem lookup_exit (ktime : UInt64) (pid : Pid) (reserved : Bool) (m : ProcStartTime) (p : Pid) :
    (sysExitExecve ktime pid reserved m).2.lookup p = if p = pid then none else m.lookup p := by
  unfold sysExitExecve
  rcases hm : m.lookup pid with _ | v
  · by_cases h : p = pid
    · subst h
      simpa using hm
    · simp [h]
  · cases reserved <;> exact m.lookup_delete pid p

theorem Inv.enter {s : St n} (h : Inv s) {i : Fin n} {pid : Pid} {ktime : UInt64} (hi : s.calls i = none)
    (hapart : Apart (.enter i pid ktime) s) :
    Inv { s with
      procStartTime := sysEnterExecve ktime pid s.procStartTime
      calls := Function.update s.calls i (some ⟨pid, ktime / 1000, true⟩) } := by
  obtain ⟨hother, hroom⟩ := hapart
  have hlookup : ∀ p, (sysEnterExecve ktime pid s.procStartTime).lookup p =
      if p = pid then some (ktime / 1000) else s.procStartTime.lookup p :=
    s.procStartTime.lookup_getD_update_room hroom _
  have hkept : ∀ {j c}, Function.update s.calls i (some ⟨pid, ktime / 1000, true⟩) j = some c →
      j = i ∧ c = ⟨pid, ktime / 1000, true⟩ ∨ j ≠ i ∧ s.calls j = some c := by
    intro j c hc
    by_cases hj : j = i
    · subst hj
      rw [Function.update_self] at hc
      exact .inl ⟨rfl, (Option.some.inj hc).symm⟩
    · exact .inr ⟨hj, by rwa [Function.update_of_ne hj] at hc⟩
  constructor
  · intro j c hc
    rw [hlookup]
    rcases hkept hc with ⟨-, rfl⟩ | ⟨-, hcj⟩
    · rw [if_pos rfl, if_pos rfl]
    · rw [if_neg (hother j c hcj)]
      exact h.entry j c hcj
  · intro j k c hc d hd htraced hpid
    rcases hkept hc with ⟨rfl, rfl⟩ | ⟨-, hcj⟩ <;> rcases hkept hd with ⟨rfl, rfl⟩ | ⟨-, hdk⟩
    · rfl
    · exact absurd hpid.symm (hother k d hdk)
    · exact absurd hpid (hother j c hcj)
    · exact h.apart j k c hcj d hdk htraced hpid

/-- A thread leaves its call; `m` is as it was but for the entry of its process. -/
theorem Inv.leave {s : St n} (h : Inv s) {i : Fin n} {c : Call} (hc : s.calls i = some c) {m : ProcStartTime}
    (hm : ∀ p, p ≠ c.pid → m.lookup p = s.procStartTime.lookup p)
    (hgone : c.traced = false → m.lookup c.pid = none) :
    Inv { s with procStartTime := m, calls := Function.update s.calls i none } := by
  have hkept : ∀ {j d}, Function.update s.calls i none j = some d → j ≠ i ∧ s.calls j = some d := by
    intro j d hd
    by_cases hj : j = i
    · subst hj
      simp at hd
    · exact ⟨hj, by rwa [Function.update_of_ne hj] at hd⟩
  constructor
  · intro j d hd
    obtain ⟨hj, hd⟩ := hkept hd
    by_cases hpid : d.pid = c.pid
    · -- of two calls of a process neither was traced
      have hct : c.traced = false :=
        Bool.eq_false_iff.mpr fun ht => hj (h.apart i j c hc d hd ht hpid.symm).symm
      have hdt : d.traced = false := Bool.eq_false_iff.mpr fun ht => hj (h.apart j i d hd c hc ht hpid)
      rw [hpid, hdt]
      exact hgone hct
    · rw [hm d.pid hpid]
      exact h.entry j d hd
  · intro j k d hd d' hd' ht hpid
    exact h.apart j k d (hkept hd).2 d' (hkept hd').2 ht hpid

theorem Inv.step {e : Ev n} {s t : St n} (h : Inv s) (he : Apart e s) (hs : step e s = some t) : Inv t := by
  cases e with
  | enter i pid ktime =>
    rcases hc : s.calls i with _ | c <;> simp only [ExecDelays.step, hc, reduceCtorEq, Option.some.injEq] at hs
    subst hs
    exact h.enter hc he
  | ret i ktime reserved =>
    rcases hc : s.calls i with _ | c <;> simp only [ExecDelays.step, hc, reduceCtorEq, Option.some.injEq] at hs
    subst hs
    have hleave := h.leave hc (m := (sysExitExecve ktime c.pid reserved s.procStartTime).2)
      (fun p hp => by rw [lookup_exit, if_neg hp]) (fun _ => by rw [lookup_exit, if_pos rfl])
    exact ⟨hleave.entry, hleave.apart⟩
  | kill i =>
    rcases hc : s.calls i with _ | c <;> simp only [ExecDelays.step, hc, reduceCtorEq, Option.some.injEq] at hs
    subst hs
    exact h.leave hc (fun _ _ => rfl) fun ht => by rw [h.entry i c hc, ht]; rfl
  | poll =>
    simp only [ExecDelays.step, Option.ite_none_right_eq_some, Option.some.injEq] at hs
    obtain ⟨-, rfl⟩ := hs
    exact ⟨h.entry, h.apart⟩

theorem Inv.clean {e : Ev n} {s : St n} (h : Inv s) (he : Apart e s) : Clean e s := by
  cases e with
  | ret i ktime reserved =>
    intro c hc
    have hentry := h.entry i c hc
    split
    · rename_i ht
      exact ⟨by rw [hentry, if_pos ht], he⟩
    · rename_i ht
      exact .inl (by rw [hentry, if_neg ht])
  | poll => exact he
  | _ => trivial

/-- Where the processes have one call at a time, the turns summarise all their calls. -/
theorem apart_is_right {inside : Fin n → Option (Pid × UInt64)} {s : St n} (h : Run step Apart (init inside) s) :
    Exact s :=
  (h.inv (P := fun s => Inv s ∧ Exact s) ⟨inv_init inside, exact_init inside⟩
    fun _ _ _ hi he hs => ⟨hi.1.step he hs, (exact_step hi.2 hs).mpr (hi.1.clean he)⟩).2

theorem two_calls_apart : ∃ s : St 3, Run step Apart (init fun _ => none) s ∧ Exact s ∧
    s.turns.map Turn.out = [some (some ⟨5, 7, 3⟩), some none] := by
  obtain ⟨s, h, hp⟩ := run_of_execIf_any step Apart (init fun _ => none) twoCalls
    (fun s => decide (s.turns.map Turn.out = [some (some ⟨5, 7, 3⟩), some none])) (by decide +kernel)
  exact ⟨s, h, apart_is_right h, of_decide_eq_true hp⟩

end Ksight.CpuWatcher.ExecDelays

/-
  Ksight.CpuWatcher.Interrupts — the time spent in interrupts
  (src/process/cpu_watcher/bpf/sar.bpf.c: `trace_softirq_entry`, `trace_softirq_exit`,
  `trace_irq_handler_entry`, `trace_irq_handler_exit`).

  The entry of a handler stores the time under its vector or irq number, and the exit adds
  the time since then to a total. The key does not say on which CPU the handler runs. On
  each CPU the runs are nested; the maps are never full, and no addition is lost.

  The law (`Right`): the totals are the sums of the completed runs, of all CPUs.

  - `totals_right_iff`: the law holds all along a sequence of events if and only if, whenever a
    run completes, the latest entry of its key on any CPU is its own (`Own`).
  - The runs of one vector that overlap lose time (`overlapping_runs`).
-/

import Ksight.Lib.BoundedMap
import Ksight.Lib.Run
import Ksight.Lib.Spans

namespace Ksight.CpuWatcher.Interrupts

open Ksight.Lib

/-- The maps of one kind of handler. `lastTime` is what is stored under the key 0 of the map of
    the total, its only one. -/
structure Probe (entries : Nat) where
  enterTime : BoundedMap UInt32 UInt64 entries
  lastTime : Option UInt64

namespace Probe

variable {entries : Nat}

def entry (key : UInt32) (now : UInt64) (p : Probe entries) : Probe entries :=
  { p with enterTime := (p.enterTime.update key now).getD p.enterTime }

def exit (key : UInt32) (now : UInt64) (p : Probe entries) : Probe entries :=
  match p.enterTime.lookup key with
  | none => p
  | some val =>
    let last_time := now - val
    { p with lastTime := match p.lastTime with
      | none => some last_time
      | some total => some (total + last_time) }

def total (p : Probe entries) : UInt64 := p.lastTime.getD 0

variable {p : Probe entries} {key : UInt32}

@[simp] theorem total_entry (now : UInt64) : (p.entry key now).total = p.total := rfl

theorem lookup_entry (h : p.enterTime.HasRoom key) (now : UInt64) (j : UInt32) :
    (p.entry key now).enterTime.lookup j = if j = key then some now else p.enterTime.lookup j :=
  BoundedMap.lookup_getD_update_room h now j

/-- The first time is stored, the others are added. -/
theorem exit_eq {v : UInt64} (h : p.enterTime.lookup key = some v) (now : UInt64) :
    p.exit key now = ⟨p.enterTime, some (p.total + (now - v))⟩ := by
  rw [exit, h]
  rcases ht : p.lastTime with _ | t
  · simp [total, ht]
  · simp [total, ht]

end Probe

def traceSoftirqEntry (vec : UInt32) (now : UInt64) : Probe 4096 → Probe 4096 := Probe.entry vec now

def traceSoftirqExit (vec : UInt32) (now : UInt64) : Probe 4096 → Probe 4096 := Probe.exit vec now

def traceIrqHandlerEntry (irq : UInt32) (now : UInt64) : Probe 8192 → Probe 8192 := Probe.entry irq now

def traceIrqHandlerExit (irq : UInt32) (now : UInt64) : Probe 8192 → Probe 8192 := Probe.exit irq now

/-! ## The CPUs -/

inductive Kind where
  | softirq
  | irq
  deriving DecidableEq

namespace Kind

def entries : Kind → Nat
  | softirq => 4096
  | irq => 8192

def entry : (k : Kind) → UInt32 → UInt64 → Probe k.entries → Probe k.entries
  | softirq => traceSoftirqEntry
  | irq => traceIrqHandlerEntry

def exit : (k : Kind) → UInt32 → UInt64 → Probe k.entries → Probe k.entries
  | softirq => traceSoftirqExit
  | irq => traceIrqHandlerExit

/-- A hash map is created empty, an array with its elements. -/
def created : (k : Kind) → Probe k.entries
  | softirq => ⟨.empty, none⟩
  | irq => ⟨.empty, some 0⟩

theorem entry_eq (k : Kind) : k.entry = Probe.entry := by cases k <;> rfl

theorem exit_eq (k : Kind) : k.exit = Probe.exit := by cases k <;> rfl

end Kind

abbrev Cpu := Nat

/-- A handler that has not returned. -/
structure Running where
  kind : Kind
  key : UInt32
  entered : UInt64
  deriving DecidableEq

structure St where
  probe : (k : Kind) → Probe k.entries
  /-- The innermost handler of a CPU is first. -/
  running : Cpu → List Running
  /-- Ghost: the time of the latest entry of a key, on any CPU. -/
  latest : Kind → UInt32 → Option UInt64
  /-- Ghost: the completed runs. -/
  done : Kind → List Span

def init : St := ⟨Kind.created, fun _ => [], fun _ _ => none, fun _ => []⟩

inductive Ev where
  | entry (cpu : Cpu) (k : Kind) (key : UInt32) (now : UInt64)
  | exit (cpu : Cpu) (now : UInt64)

/-- The handler that returns is the innermost one. -/
def step : Ev → St → Option St
  | .entry cpu k key now, s =>
    if (s.probe k).enterTime.HasRoom key then
      some { s with
        probe := Function.update s.probe k (k.entry key now (s.probe k))
        running := Function.update s.running cpu (⟨k, key, now⟩ :: s.running cpu)
        latest := Function.update s.latest k (Function.update (s.latest k) key (some now)) }
    else none
  | .exit cpu now, s =>
    match s.running cpu with
    | [] => none
    | r :: rest =>
      some { s with
        probe := Function.update s.probe r.kind (r.kind.exit r.key now (s.probe r.kind))
        running := Function.update s.running cpu rest
        done := Function.update s.done r.kind (⟨r.entered, now⟩ :: s.done r.kind) }

/-! ## The law -/

def Right (s : St) : Prop := ∀ k, (s.probe k).total = totalLength (s.done k)

/-- The condition: no handler with the key of the one that returns has been entered since, at
    another time. -/
def Own : Ev → St → Prop
  | .entry .., _ => True
  | .exit cpu _, s => ∀ r ∈ (s.running cpu).head?, s.latest r.kind r.key = some r.entered

instance (e : Ev) (s : St) : Decidable (Own e s) :=
  match e with
  | .entry .. => .isTrue trivial
  | .exit .. => Option.decidableForallMem _

/-! ## The steps -/

structure Inv (s : St) : Prop where
  stored : ∀ k key, (s.probe k).enterTime.lookup key = s.latest k key
  entered : ∀ cpu, ∀ r ∈ s.running cpu, (s.latest r.kind r.key).isSome

theorem inv_init : Inv init where
  stored k key := by cases k <;> exact BoundedMap.lookup_empty key
  entered _ _ hr := nomatch hr

theorem Inv.entry {s t : St} {cpu : Cpu} {k : Kind} {key : UInt32} {now : UInt64} (h : Inv s)
    (hs : step (.entry cpu k key now) s = some t) : Inv t ∧ (∀ j, (t.probe j).total = (s.probe j).total) ∧
      t.done = s.done := by
  simp only [step, Option.ite_none_right_eq_some, Option.some.injEq] at hs
  obtain ⟨hroom, rfl⟩ := hs
  refine ⟨⟨fun j i => ?_, fun c r hr => ?_⟩, fun j => ?_, rfl⟩
  · by_cases hj : j = k
    · subst j
      simp only [Function.update_self, Kind.entry_eq, Probe.lookup_entry hroom, Function.update_apply, h.stored]
    · simp only [Function.update_of_ne hj, h.stored]
  · have hold : ∀ r : Running, (s.latest r.kind r.key).isSome →
        (Function.update s.latest k (Function.update (s.latest k) key (some now)) r.kind r.key).isSome := by
      intro r hr
      by_cases hk : r.kind = k
      · by_cases hkey : r.key = key
        · simp [hk, hkey]
        · simpa [hk, hkey] using hk ▸ hr
      · simpa [hk] using hr
    by_cases hc : c = cpu
    · subst c
      simp only [Function.update_self, List.mem_cons] at hr
      rcases hr with rfl | hr
      · simp
      · exact hold r (h.entered cpu r hr)
    · simp only [Function.update_of_ne hc] at hr
      exact hold r (h.entered c r hr)
  · by_cases hj : j = k
    · subst j
      simp [Kind.entry_eq]
    · simp [hj]

/-- The one step that changes a total and the completed runs. -/
theorem Inv.exit {s t : St} {cpu : Cpu} {now : UInt64} (h : Inv s) (hs : step (.exit cpu now) s = some t) :
    Inv t ∧ ∃ r rest v, s.running cpu = r :: rest ∧ s.latest r.kind r.key = some v ∧
      (∀ j, (t.probe j).total = if j = r.kind then (s.probe j).total + (now - v) else (s.probe j).total) ∧
      t.done = Function.update s.done r.kind (⟨r.entered, now⟩ :: s.done r.kind) := by
  rcases hr : s.running cpu with _ | ⟨r, rest⟩
  · simp [step, hr] at hs
  obtain ⟨v, hv⟩ := Option.isSome_iff_exists.mp (h.entered cpu r (hr ▸ List.mem_cons_self))
  have hexit := Probe.exit_eq ((h.stored r.kind r.key).trans hv) now
  simp only [step, hr, Option.some.injEq, Kind.exit_eq, hexit] at hs
  subst hs
  refine ⟨⟨fun j i => ?_, fun c q hq => ?_⟩, r, rest, v, rfl, hv, fun j => ?_, rfl⟩
  · by_cases hj : j = r.kind
    · subst j
      simpa using h.stored r.kind i
    · simpa [hj] using h.stored j i
  · by_cases hc : c = cpu
    · subst c
      simp only [Function.update_self] at hq
      exact h.entered cpu q (hr ▸ List.mem_cons_of_mem r hq)
    · simp only [Function.update_of_ne hc] at hq
      exact h.entered c q hq
  · split
    · subst j
      simp [Probe.total]
    · simp [*]

theorem Inv.step {s t : St} (e : Ev) (h : Inv s) (hs : step e s = some t) : Inv t := by
  cases e with
  | entry cpu k key now => exact (h.entry hs).1
  | exit cpu now => exact (h.exit hs).1

theorem right_step {s t : St} (e : Ev) (h : Inv s) (hright : Right s) (hs : Interrupts.step e s = some t) :
    Right t ↔ Own e s := by
  cases e with
  | entry cpu k key now =>
    obtain ⟨-, htotal, hdone⟩ := h.entry hs
    refine iff_of_true (fun j => ?_) trivial
    rw [htotal, hdone]
    exact hright j
  | exit cpu now =>
    obtain ⟨-, r, rest, v, hr, hv, htotal, hdone⟩ := h.exit hs
    have hown : Own (.exit cpu now) s ↔ v = r.entered := by simp [Own, hr, hv]
    have hadd : (s.probe r.kind).total + (now - v) = totalLength [⟨r.entered, now⟩] + (s.probe r.kind).total ↔
        v = r.entered := by
      rw [totalLength_cons, totalLength_nil, UInt64.add_zero]
      exact add_length_eq_iff (s := ⟨r.entered, now⟩)
    rw [hown, ← hadd, Right, hdone]
    exact totals_update_iff hright [⟨r.entered, now⟩] htotal

/-- The totals are right all along if and only if each run that completes is the one of the
    latest entry of its key. -/
theorem totals_right_iff {s : St} {es : List Ev} (h : exec step es init = some s) :
    Along step Right es init ↔ execIf step Own es init = some s :=
  along_iff_of_step (I := Inv) (P := Right) (fun e _ _ hi hs => hi.step e hs)
    (fun e _ _ hi hr hs => right_step e hi hr hs) inv_init (fun k => by cases k <;> rfl) h

/-- Two CPUs in the handler of vector 3, from 0 to 10 and from 5 to 12. -/
theorem overlapping_runs : ∃ s, Run step anyEvent init s ∧
    (s.probe .softirq).total = 12 ∧ totalLength (s.done .softirq) = 17 ∧ ¬ Right s := by
  obtain ⟨s, hr, hs⟩ := run_of_exec_any step init
    [.entry 0 .softirq 3 0, .entry 1 .softirq 3 5, .exit 0 10, .exit 1 12]
    (fun s => (s.probe .softirq).total == 12 && totalLength (s.done .softirq) == 17) (by decide)
  simp only [Bool.and_eq_true, beq_iff_eq] at hs
  refine ⟨s, hr, hs.1, hs.2, fun h => absurd (h .softirq) ?_⟩
  rw [hs.1, hs.2]
  decide

/-- One after the other they are counted in full. -/
theorem runs_in_turn : ∃ s,
    exec step [.entry 0 .softirq 3 0, .exit 0 10, .entry 1 .softirq 3 11, .exit 1 18] init = some s ∧
    Along step Right [.entry 0 .softirq 3 0, .exit 0 10, .entry 1 .softirq 3 11, .exit 1 18] init := by
  obtain ⟨s, hs, hok, -⟩ := execIf_any step Own init
    [.entry 0 .softirq 3 0, .exit 0 10, .entry 1 .softirq 3 11, .exit 1 18] (fun _ => true) (by decide)
  exact ⟨s, hs, (totals_right_iff hs).mpr hok⟩

end Ksight.CpuWatcher.Interrupts

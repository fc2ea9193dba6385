/-
  Ksight.Netwatcher.Resets — the resets of TCP connections
  (src/net/netwatcher/bpf/tcp.bpf.h: `ret`, `__handle_send_reset`,
  `__handle_receive_reset`; bpf/common.bpf.h: `counters`).

  A reset that is sent or received is reported with its two ends and with the number of
  resets of the current process. A report of a received reset has the other end first. The
  record is ring buffer memory; `state` is never written, and the addresses only for IPv4 and
  IPv6. Probes do not overlap.

  - `resets_counted_iff`: in every sequence of resets each report has the number of its process's
    reports so far if and only if no process is reported again whose first report came when
    1024 others had been. Nothing leaves `counters`; from then on each reset of a new process
    is its first.
  - `received_as_sent`: what the receiver of a reset reports has the addresses and the ports
    of what the sender reports.
-/

import Ksight.Lib.Tally
import Ksight.Netwatcher.Conns

namespace Ksight.Netwatcher.Resets

open Ksight.Lib
open Conns (Sock Task)
open Validate (afInet afInet6)

/-- `max_entries` of `counters`. -/
def maxCounters : Nat := 1024

structure ResetEvent where
  pid : Int32
  comm : List UInt8
  family : UInt16
  saddrV6 : BitVec 128
  daddrV6 : BitVec 128
  saddr : UInt32
  daddr : UInt32
  sport : UInt16
  dport : UInt16
  direction : UInt8
  count : UInt64
  timestamp : UInt64
  state : UInt8
  deriving DecidableEq

abbrev Counters := BoundedMap UInt32 UInt64 maxCounters

/-- The addresses of the report, by the family. -/
def addresses (sk : Sock) (direction : UInt8) (message : ResetEvent) : ResetEvent :=
  if sk.family = afInet then
    if direction = 0 then { message with saddr := sk.rcvSaddr, daddr := sk.daddr, saddrV6 := 0, daddrV6 := 0 }
    else { message with saddr := sk.daddr, daddr := sk.rcvSaddr, saddrV6 := 0, daddrV6 := 0 }
  else if sk.family = afInet6 then
    if direction = 0 then { message with saddrV6 := sk.v6RcvSaddr, daddrV6 := sk.v6Daddr, saddr := 0, daddr := 0 }
    else { message with saddrV6 := sk.v6Daddr, daddrV6 := sk.v6RcvSaddr, saddr := 0, daddr := 0 }
  else message

/-- The ports of the tracepoint. -/
def ports (direction : UInt8) (sport dport : UInt16) (message : ResetEvent) : ResetEvent :=
  if direction = 0 then { message with sport := bswap16 sport, dport := bswap16 dport }
  else { message with sport := bswap16 dport, dport := bswap16 sport }

/-- The count of the process, in place or as a new entry; an insertion that fails is not
    noticed. -/
def countReset (pid : UInt32) (counters : Counters) : UInt64 × Counters :=
  match counters.lookup pid with
  | some count => (count + 1, counters.modify pid (· + 1))
  | none => (1, (counters.update pid 1).getD counters)

/-- `record` is what `bpf_ringbuf_reserve` returns, `none` for NULL. -/
def ret (record : Option ResetEvent) (task : Task) (sk : Sock) (direction : UInt8) (sport dport : UInt16)
    (counters : Counters) : Option ResetEvent × Counters :=
  match record with
  | none => (none, counters)
  | some message =>
    let message := { message with
      pid := (task.ptid >>> 32).toUInt32.toInt32
      comm := task.comm
      family := sk.family
      timestamp := task.ktime }
    let message := ports direction sport dport (addresses sk direction message)
    let counted := countReset message.pid.toUInt32 counters
    (some { message with direction := direction, count := counted.1 }, counted.2)

/-- A reset: `skaddr` and the ports of the tracepoint's context. -/
structure Call where
  record : Option ResetEvent
  task : Task
  skaddr : Option UInt64
  sport : UInt16
  dport : UInt16
  received : Bool

/-- `__handle_send_reset` and `__handle_receive_reset`, which differ in the direction. -/
def handleReset (mem : UInt64 → Sock) (c : Call) (counters : Counters) : Option ResetEvent × Counters :=
  match c.skaddr with
  | none => (none, counters)
  | some sk => ret c.record c.task (mem sk) (if c.received then 1 else 0) c.sport c.dport counters

/-- What a sequence of resets reports. -/
def reports (mem : UInt64 → Sock) : List Call → Counters → List ResetEvent
  | [], _ => []
  | c :: calls, counters =>
    (handleReset mem c counters).1.toList ++ reports mem calls (handleReset mem c counters).2

def ResetEvent.process (e : ResetEvent) : UInt32 := e.pid.toUInt32

/-- The law. -/
def Counted (es : List ResetEvent) : Prop :=
  ∀ a e b, es = a ++ e :: b → e.count = UInt64.ofNat ((a.map (·.process)).count e.process + 1)

/-! ## The counts -/

theorem countReset_eq (pid : UInt32) (counters : Counters) : countReset pid counters = Tally.bump counters pid := by
  rcases h : counters.lookup pid with _ | count
  · simp only [countReset, Tally.bump, h, Option.elim_none]
  · simp only [countReset, Tally.bump, h, Option.elim_some, Prod.mk.injEq, true_and]
    have hroom : counters.HasRoom pid := .inl (BoundedMap.mem_keys.mpr ⟨count, h⟩)
    ext1 k
    rw [BoundedMap.lookup_modify, BoundedMap.lookup_getD_update_room hroom, h]
    rfl

/-- A reset is reported with what the process's counter becomes, or leaves the counters alone. -/
theorem handleReset_cases (mem : UInt64 → Sock) (c : Call) (counters : Counters) :
    handleReset mem c counters = (none, counters) ∨
      ∃ e, handleReset mem c counters = (some e, (Tally.bump counters e.process).2) ∧
        e.count = (Tally.bump counters e.process).1 := by
  rcases hsk : c.skaddr with _ | sk
  · exact .inl (by simp only [handleReset, hsk])
  · rcases hrecord : c.record with _ | record
    · exact .inl (by simp only [handleReset, hsk, ret, hrecord])
    · simp only [handleReset, hsk, ret, hrecord, countReset_eq]
      exact .inr ⟨_, rfl, rfl⟩

/-- Each report has the number that its process gets after those before it. -/
theorem count_of_report (mem : UInt64 → Sock) (calls : List Call) (ks : List UInt32) {a b : List ResetEvent}
    {e : ResetEvent} (h : reports mem calls (Tally.tally maxCounters ks) = a ++ e :: b) :
    e.count = (Tally.bump (Tally.tally maxCounters (ks ++ a.map (·.process))) e.process).1 := by
  induction calls generalizing ks a with
  | nil => simp [reports] at h
  | cons c calls ih =>
    rcases handleReset_cases mem c (Tally.tally maxCounters ks) with hc | ⟨e', hc, hcount⟩
    · simp only [reports, hc, Option.toList_none, List.nil_append] at h
      exact ih ks h
    · simp only [reports, hc, Option.toList_some, List.cons_append, List.nil_append] at h
      rw [← Tally.tally_snoc] at h
      cases a with
      | nil =>
        cases h
        simpa using hcount
      | cons e₀ a =>
        simp only [List.cons_append, List.cons.injEq] at h
        obtain ⟨rfl, h⟩ := h
        have := ih (ks ++ [e'.process]) h
        rwa [List.append_assoc] at this

theorem counted_iff_numbered (mem : UInt64 → Sock) (calls : List Call) :
    Counted (reports mem calls .empty) ↔
      Tally.Numbered maxCounters ((reports mem calls .empty).map (·.process)) := by
  have hcount : ∀ a e b, reports mem calls .empty = a ++ e :: b →
      e.count = (Tally.bump (Tally.tally maxCounters (a.map (·.process))) e.process).1 :=
    fun a e b h => count_of_report mem calls [] h
  constructor
  · intro h a k b hks
    obtain ⟨a, b', hes, rfl, hb⟩ := List.map_eq_append_iff.mp hks
    obtain ⟨e, b, rfl, rfl, rfl⟩ := List.map_eq_cons_iff.mp hb
    rw [← hcount a e b hes]
    exact h a e b hes
  · intro h a e b hes
    rw [hcount a e b hes]
    exact h (a.map (·.process)) e.process (b.map (·.process)) (by rw [hes]; simp)

/-- The counts are right if and only if no process is reported again whose first report found
    no room. -/
theorem resets_counted_iff (mem : UInt64 → Sock) (calls : List Call) :
    Counted (reports mem calls .empty) ↔
      ∀ a e b, reports mem calls .empty = a ++ e :: b → e.process ∉ a.map (·.process) →
        (a.map (·.process)).toFinset.card < maxCounters ∨ e.process ∉ b.map (·.process) := by
  rw [counted_iff_numbered, Tally.numbered_iff]
  constructor
  · intro h a e b hes
    exact h _ _ _ (by rw [hes]; simp)
  · intro h a k b hks
    obtain ⟨a, b', hes, rfl, hb⟩ := List.map_eq_append_iff.mp hks
    obtain ⟨e, b, rfl, rfl, rfl⟩ := List.map_eq_cons_iff.mp hb
    exact h a e b hes

/-! ## The two ends -/

/-- The socket at the other end of a connection. -/
def Mirrored (s t : Sock) : Prop :=
  t.family = s.family ∧ t.rcvSaddr = s.daddr ∧ t.daddr = s.rcvSaddr ∧ t.v6RcvSaddr = s.v6Daddr ∧
    t.v6Daddr = s.v6RcvSaddr

/-- A reset that one end sends and the other receives is reported with the same addresses and
    ports. -/
theorem received_as_sent {mem : UInt64 → Sock} {s t : UInt64} (hm : Mirrored (mem s) (mem t))
    (hfamily : (mem s).family = afInet ∨ (mem s).family = afInet6) {sent rcvd : ResetEvent} {task task' : Task}
    {record record' : Option ResetEvent} {sport dport : UInt16} {m m' : Counters}
    (hs : (handleReset mem ⟨record, task, some s, sport, dport, false⟩ m).1 = some sent)
    (hr : (handleReset mem ⟨record', task', some t, dport, sport, true⟩ m').1 = some rcvd) :
    rcvd.saddr = sent.saddr ∧ rcvd.daddr = sent.daddr ∧ rcvd.saddrV6 = sent.saddrV6 ∧
      rcvd.daddrV6 = sent.daddrV6 ∧ rcvd.sport = sent.sport ∧ rcvd.dport = sent.dport := by
  obtain ⟨hf, h1, h2, h3, h4⟩ := hm
  cases record with
  | none => cases hs
  | some record =>
    cases record' with
    | none => cases hr
    | some record' =>
      cases hs
      cases hr
      have hone : (1 : UInt8) ≠ 0 := by decide
      have hne : afInet6 ≠ afInet := by decide
      rcases hfamily with hfam | hfam
      · simp [addresses, ports, hf, hfam, h1, h2, hone]
      · simp [addresses, ports, hf, hfam, h3, h4, hone, hne]

end Ksight.Netwatcher.Resets

/-
  Ksight.Netwatcher.RttHist — the histogram of round-trip times
  (src/net/netwatcher/bpf/tcp.bpf.h: `__tcp_rcv_established`; bpf/common.bpf.h: `hists`).

  Each run looks up the entry of its two addresses, makes a zero one if there is none and
  looks again, then adds its sample to the entry found, in three atomic steps. Runs on any
  CPUs interleave step by step. An update of a key puts a new entry in the place of the old
  one, which the runs that have found it go on using.

  The law (`Exact`): when all runs have finished, each entry has the number of samples of
  its addresses, their sum and how many are in each slot. `histogram_iff`: it holds if and
  only if no run put a new entry in the place of one that another had found (`Sole`), and
  the totals fit 64 bits. Two runs that both find the key absent lose a sample
  (`second_entry_loses_a_sample`).
-/

import Mathlib.Algebra.BigOperators.Group.Finset.Piecewise
import Mathlib.Algebra.BigOperators.Group.Finset.Sigma
import Mathlib.Algebra.Order.BigOperators.Group.Finset
import Ksight.Lib.BoundedMap
import Ksight.Lib.Run
import Ksight.Netwatcher.FlowTimes
import Ksight.Netwatcher.RttSlot

namespace Ksight.Netwatcher.Rtt

open Ksight.Lib
open Ksight.Netwatcher.Flow (IpPacket)

structure Hist where
  slots : Fin maxSlots → UInt64
  latency : UInt64
  cnt : UInt64

def Hist.zero : Hist := ⟨fun _ => 0, 0, 0⟩

def maxHists : Nat := 256 * 1024

/-- What a run has done, with the entry it works on. -/
inductive Stage where
  | start
  | absent
  | created
  | found (entry : Nat)
  | slotAdded (entry : Nat)
  | latencyAdded (entry : Nat)
  | done (entry : Nat)
  | returned
  deriving DecidableEq

/-- A run for a packet between two addresses. -/
structure Sample where
  key : IpPacket
  srttUs : UInt32
  stage : Stage

def Sample.srtt (r : Sample) : UInt32 := srttOf r.srttUs

/-- The map has the entry of each key by its place in memory. -/
structure St where
  hists : BoundedMap IpPacket Nat maxHists
  entries : Nat → Hist
  next : Nat
  runs : Nat → Sample
  n : Nat

def init : St := ⟨.empty, fun _ => .zero, 0, fun _ => ⟨⟨0, 0⟩, 0, .start⟩, 0⟩

inductive Ev where
  | call (key : IpPacket) (srttUs : UInt32)
  | run (i : Nat)

def St.to (st : St) (i : Nat) (stage : Stage) : St :=
  { st with runs := Function.update st.runs i { st.runs i with stage := stage } }

def St.write (st : St) (e : Nat) (h : Hist) : St := { st with entries := Function.update st.entries e h }

/-- A new entry, which the map `m` has. -/
def St.create (st : St) (m : BoundedMap IpPacket Nat maxHists) : St :=
  { st with hists := m, entries := Function.update st.entries st.next .zero, next := st.next + 1 }

def Hist.addSlot (h : Hist) (s : Fin maxSlots) : Hist :=
  { h with slots := Function.update h.slots s (h.slots s + 1) }

def Hist.addLatency (h : Hist) (srtt : UInt32) : Hist := { h with latency := h.latency + srtt.toUInt64 }

def Hist.addCnt (h : Hist) : Hist := { h with cnt := h.cnt + 1 }

/-- The next step of run `i`. An update finds room. -/
def rcvEstablished (i : Nat) (st : St) : Option St :=
  let r := st.runs i
  match r.stage with
  | .start =>
    match st.hists.lookup r.key with
    | some e => some (st.to i (.found e))
    | none => some (st.to i .absent)
  | .absent =>
    (st.hists.update r.key st.next).map fun m => (st.create m).to i .created
  | .created =>
    match st.hists.lookup r.key with
    | some e => some (st.to i (.found e))
    | none => some (st.to i .returned)
  | .found e => some ((st.write e ((st.entries e).addSlot (slotOf r.srtt))).to i (.slotAdded e))
  | .slotAdded e => some ((st.write e ((st.entries e).addLatency r.srtt)).to i (.latencyAdded e))
  | .latencyAdded e => some ((st.write e (st.entries e).addCnt).to i (.done e))
  | .done _ => none
  | .returned => none

def St.call (st : St) (key : IpPacket) (srttUs : UInt32) : St :=
  { st with runs := Function.update st.runs st.n ⟨key, srttUs, .start⟩, n := st.n + 1 }

def step : Ev → St → Option St
  | .call key srttUs, st => some (st.call key srttUs)
  | .run i, st => if i < st.n then rcvEstablished i st else none

/-! ## The law -/

/-- A sum over the runs. -/
def St.sum (st : St) (f : Sample → Nat) : Nat := ∑ i ∈ Finset.range st.n, f (st.runs i)

def St.count (st : St) (key : IpPacket) : Nat := st.sum fun r => if r.key = key then 1 else 0

def St.total (st : St) (key : IpPacket) : Nat := st.sum fun r => if r.key = key then r.srtt.toNat else 0

/-- The samples of a key whose logarithm, rounded down, passes a test. -/
def St.countLog (st : St) (key : IpPacket) (p : Nat → Bool) : Nat :=
  st.sum fun r => if r.key = key ∧ p (Nat.log 2 r.srtt.toNat) then 1 else 0

/-- What the map has for a key. -/
def St.hist (st : St) (key : IpPacket) : Hist :=
  match st.hists.lookup key with
  | some e => st.entries e
  | none => .zero

def Stage.finished : Stage → Bool
  | .done _ | .returned => true
  | _ => false

def Quiet (st : St) : Prop := ∀ i < st.n, (st.runs i).stage.finished

instance (st : St) : Decidable (Quiet st) := inferInstanceAs (Decidable (∀ i < st.n, _))

/-- The entry of a key counts all of its samples, each in the slot of its logarithm; the
    last slot has the larger ones. -/
structure ExactAt (st : St) (key : IpPacket) : Prop where
  cnt : (st.hist key).cnt.toNat = st.count key
  slots : ∑ s, ((st.hist key).slots s).toNat = (st.hist key).cnt.toNat
  latency : (st.hist key).latency.toNat = st.total key
  slot : ∀ s : Fin maxSlots, s.val < 26 → ((st.hist key).slots s).toNat = st.countLog key (· == s.val)
  last : ∀ s : Fin maxSlots, s.val = 26 → ((st.hist key).slots s).toNat = st.countLog key (26 ≤ ·)

def Exact (st : St) : Prop := ∀ key, ExactAt st key

/-- The entry a run has found. -/
def Stage.entry : Stage → Option Nat
  | .found e | .slotAdded e | .latencyAdded e | .done e => some e
  | _ => none

/-- The condition: an update takes the place of an entry that no run has found, and a call
    leaves the totals below 2^64. -/
def Sole : Ev → St → Prop
  | .call key srttUs, st => st.count key + 1 < 2 ^ 64 ∧ st.total key + (srttOf srttUs).toNat < 2 ^ 64
  | .run i, st => (st.runs i).stage = .absent →
    ∀ e ∈ st.hists.lookup (st.runs i).key, ∀ j < st.n, (st.runs j).stage.entry ≠ some e

instance : ∀ (e : Ev) (st : St), Decidable (Sole e st)
  | .call .., _ => inferInstanceAs (Decidable (_ ∧ _))
  | .run _, st => inferInstanceAs (Decidable (_ = _ → ∀ _ ∈ st.hists.lookup _, ∀ j < st.n, _ ≠ _))

/-! ## Sums over the runs -/

variable {st st' : St} {f : Sample → Nat}

/-- One run is changed. -/
theorem sum_update {i : Nat} (hi : i < st.n) (r : Sample) (f : Sample → Nat) :
    ∑ j ∈ Finset.range st.n, f (Function.update st.runs i r j) + f (st.runs i) = st.sum f + f r := by
  have hmem : i ∈ Finset.range st.n := Finset.mem_range.mpr hi
  have hrest : ∀ j ∈ (Finset.range st.n).erase i, f (Function.update st.runs i r j) = f (st.runs j) := by
    intro j hj
    rw [Function.update_of_ne (Finset.ne_of_mem_erase hj)]
  rw [St.sum, ← Finset.add_sum_erase _ _ hmem, ← Finset.add_sum_erase _ _ hmem, Finset.sum_congr rfl hrest,
    Function.update_self]
  omega

theorem sum_to {i : Nat} (hi : i < st.n) (stage : Stage) (f : Sample → Nat) :
    (st.to i stage).sum f + f (st.runs i) = st.sum f + f { st.runs i with stage := stage } :=
  sum_update hi _ f

/-- A step of a run does not change what does not depend on stages. -/
theorem sum_to_same {i : Nat} (hi : i < st.n) (stage : Stage)
    (hf : f { st.runs i with stage := stage } = f (st.runs i)) : (st.to i stage).sum f = st.sum f := by
  have := sum_to hi stage f
  omega

theorem sum_call (key : IpPacket) (srttUs : UInt32) (f : Sample → Nat) :
    (st.call key srttUs).sum f = st.sum f + f ⟨key, srttUs, .start⟩ := by
  have hrest : ∀ j ∈ Finset.range st.n, f ((st.call key srttUs).runs j) = f (st.runs j) := by
    intro j hj
    exact congrArg f (Function.update_of_ne (Finset.mem_range.mp hj).ne ..)
  change ∑ j ∈ Finset.range (st.n + 1), f ((st.call key srttUs).runs j) = _
  rw [Finset.sum_range_succ, Finset.sum_congr rfl hrest]
  exact congrArg (fun r => st.sum f + f r) (Function.update_self ..)

/-! ## What a step does -/

/-- The steps, by what they do. -/
inductive Does (st : St) : Ev → St → Prop
  | call (key : IpPacket) (srttUs : UInt32) :
    Does st (.call key srttUs) (st.call key srttUs)
  | look {i e : Nat} : i < st.n → (st.runs i).stage = .start ∨ (st.runs i).stage = .created →
    st.hists.lookup (st.runs i).key = some e → Does st (.run i) (st.to i (.found e))
  | miss {i : Nat} : i < st.n → (st.runs i).stage = .start → st.hists.lookup (st.runs i).key = none →
    Does st (.run i) (st.to i .absent)
  | lost {i : Nat} : i < st.n → (st.runs i).stage = .created → st.hists.lookup (st.runs i).key = none →
    Does st (.run i) (st.to i .returned)
  | create {i : Nat} {m : BoundedMap IpPacket Nat maxHists} : i < st.n → (st.runs i).stage = .absent →
    st.hists.update (st.runs i).key st.next = some m →
    Does st (.run i) ((st.create m).to i .created)
  | addSlot {i e : Nat} : i < st.n → (st.runs i).stage = .found e →
    Does st (.run i) ((st.write e ((st.entries e).addSlot (slotOf (st.runs i).srtt))).to i (.slotAdded e))
  | addLatency {i e : Nat} : i < st.n → (st.runs i).stage = .slotAdded e →
    Does st (.run i) ((st.write e ((st.entries e).addLatency (st.runs i).srtt)).to i (.latencyAdded e))
  | addCnt {i e : Nat} : i < st.n → (st.runs i).stage = .latencyAdded e →
    Does st (.run i) ((st.write e (st.entries e).addCnt).to i (.done e))

theorem entry_of_looking {s : Stage} (h : s = .start ∨ s = .created) : s.entry = none := by
  rcases h with rfl | rfl <;> rfl

theorem does_of_step {e : Ev} (h : step e st = some st') : Does st e st' := by
  cases e with
  | call key srttUs =>
    cases h
    exact .call key srttUs
  | run i =>
    simp only [step, Option.ite_none_right_eq_some] at h
    obtain ⟨hi, h⟩ := h
    unfold rcvEstablished at h
    cases hs : (st.runs i).stage with
    | start =>
      simp only [hs] at h
      split at h
      · cases h
        exact .look hi (.inl hs) ‹_›
      · cases h
        exact .miss hi hs ‹_›
    | absent =>
      simp only [hs] at h
      obtain ⟨m, hm, rfl⟩ := Option.map_eq_some_iff.mp h
      exact .create hi hs hm
    | created =>
      simp only [hs] at h
      split at h
      · cases h
        exact .look hi (.inr hs) ‹_›
      · cases h
        exact .lost hi hs ‹_›
    | found e =>
      simp only [hs, Option.some.injEq] at h
      exact h ▸ .addSlot hi hs
    | slotAdded e =>
      simp only [hs, Option.some.injEq] at h
      exact h ▸ .addLatency hi hs
    | latencyAdded e =>
      simp only [hs, Option.some.injEq] at h
      exact h ▸ .addCnt hi hs
    | done e => simp [hs] at h
    | returned => simp [hs] at h

/-! ## What has been added -/

/-- The entry that a run has added its slot to, its time, and 1. -/
def Stage.slotIn : Stage → Option Nat
  | .slotAdded e | .latencyAdded e | .done e => some e
  | _ => none

def Stage.latencyIn : Stage → Option Nat
  | .latencyAdded e | .done e => some e
  | _ => none

def Stage.cntIn : Stage → Option Nat
  | .done e => some e
  | _ => none

/-- What the runs have added to entry `e`, a run with `srtt` adding `w srtt`. -/
def St.tally (st : St) (added : Stage → Option Nat) (w : UInt32 → Nat) (e : Nat) : Nat :=
  st.sum fun r => if added r.stage = some e then w r.srtt else 0

def inSlot (s : Fin maxSlots) (srtt : UInt32) : Nat := if slotOf srtt = s then 1 else 0

def St.counted (st : St) (e : Nat) : Hist where
  slots s := .ofNat (st.tally Stage.slotIn (inSlot s) e)
  latency := .ofNat (st.tally Stage.latencyIn UInt32.toNat e)
  cnt := .ofNat (st.tally Stage.cntIn (fun _ => 1) e)

variable {added : Stage → Option Nat} {w : UInt32 → Nat}

theorem tally_same {i : Nat} (hi : i < st.n) {stage : Stage} (h : added stage = added (st.runs i).stage) (e : Nat) :
    (st.to i stage).tally added w e = st.tally added w e :=
  sum_to_same hi stage (by simp only [h]; rfl)

theorem tally_add {i e₀ : Nat} (hi : i < st.n) {stage : Stage} (hold : added (st.runs i).stage = none)
    (hnew : added stage = some e₀) (e : Nat) :
    (st.to i stage).tally added w e = st.tally added w e + if e = e₀ then w (st.runs i).srtt else 0 := by
  have hsum := sum_to hi stage fun r => if added r.stage = some e then w r.srtt else 0
  simp only [hold, hnew, Option.some.injEq, eq_comm (a := e₀)] at hsum
  exact hsum

/-- An entry that no run has found has nothing added to it. -/
theorem tally_eq_zero {e : Nat} (h : ∀ i < st.n, added (st.runs i).stage ≠ some e) : st.tally added w e = 0 :=
  Finset.sum_eq_zero fun i hi => if_neg (h i (Finset.mem_range.mp hi))

/-- A new run has added nothing. -/
theorem tally_call {key : IpPacket} {srttUs : UInt32} (h : added .start = none) (e : Nat) :
    (st.call key srttUs).tally added w e = st.tally added w e := by
  have hsum : (st.call key srttUs).sum (fun r => if added r.stage = some e then w r.srtt else 0) = _ :=
    sum_call key srttUs _
  simp only [h, reduceCtorEq, if_false, Nat.add_zero] at hsum
  exact hsum

/-- Each counter is what the runs have added, modulo 2^64. -/
def Counted (st : St) : Prop := ∀ e, st.entries e = st.counted e

/-- What has been added, has been to the entry found, and is when the run is done. -/
structure Records (added : Stage → Option Nat) : Prop where
  entry : ∀ s e, added s = some e → s.entry = some e
  done : ∀ e, added (.done e) = some e

theorem records_slotIn : Records Stage.slotIn where
  entry s e h := by cases s <;> first | exact h | cases h
  done _ := rfl

theorem records_latencyIn : Records Stage.latencyIn where
  entry s e h := by cases s <;> first | exact h | cases h
  done _ := rfl

theorem records_cntIn : Records Stage.cntIn where
  entry s e h := by cases s <;> first | exact h | cases h
  done _ := rfl

theorem Records.none (hr : Records added) {s : Stage} (h : s.entry = none) : added s = none :=
  Option.eq_none_iff_forall_ne_some.mpr fun e he => by
    rw [hr.entry s e he] at h
    cases h

/-- A step that adds nothing. -/
theorem Counted.to {i : Nat} (hc : Counted st) (hi : i < st.n) {stage : Stage}
    (h : stage.slotIn = none ∧ stage.latencyIn = none ∧ stage.cntIn = none)
    (hold : (st.runs i).stage.entry = none) : Counted (st.to i stage) := by
  intro e
  have hs := h.1.trans (records_slotIn.none hold).symm
  have hl := h.2.1.trans (records_latencyIn.none hold).symm
  have hn := h.2.2.trans (records_cntIn.none hold).symm
  refine (hc e).trans ?_
  simp only [St.counted, tally_same hi hs, tally_same hi hl, tally_same hi hn]

theorem ofNat_toNat (x : UInt32) : UInt64.ofNat x.toNat = x.toUInt64 := by
  apply UInt64.toNat_inj.mp
  rw [UInt64.toNat_ofNat', UInt32.toNat_toUInt64]
  exact Nat.mod_eq_of_lt (x.toNat_lt.trans (by decide))

/-- A step that adds what it counts to its entry `e₀`. -/
theorem Counted.write {i e₀ : Nat} (hc : Counted st) {stage : Stage} {h : Hist}
    (hh : (st.to i stage).counted e₀ = h) (hother : ∀ e, e ≠ e₀ → (st.to i stage).counted e = st.counted e) :
    Counted ((st.write e₀ h).to i stage) := by
  intro e
  change Function.update st.entries e₀ h e = (st.to i stage).counted e
  by_cases he : e = e₀
  · subst he
    rw [Function.update_self, hh]
  · rw [Function.update_of_ne he, hother e he]
    exact hc e

theorem counted_addSlot {i e₀ : Nat} (hc : Counted st) (hi : i < st.n) (hs : (st.runs i).stage = .found e₀) :
    Counted ((st.write e₀ ((st.entries e₀).addSlot (slotOf (st.runs i).srtt))).to i (.slotAdded e₀)) := by
  have hslot : ∀ s e, (st.to i (.slotAdded e₀)).tally Stage.slotIn (inSlot s) e =
      st.tally Stage.slotIn (inSlot s) e + if e = e₀ then inSlot s (st.runs i).srtt else 0 :=
    fun s e => tally_add hi (by rw [hs]; rfl) rfl e
  have hl : ∀ e, (st.to i (.slotAdded e₀)).tally Stage.latencyIn UInt32.toNat e = _ :=
    fun e => tally_same hi (by rw [hs]; rfl) e
  have hn : ∀ e, (st.to i (.slotAdded e₀)).tally Stage.cntIn (fun _ => 1) e = _ :=
    fun e => tally_same hi (by rw [hs]; rfl) e
  refine hc.write ?_ fun e he => ?_
  · rw [hc e₀]
    simp only [St.counted, Hist.addSlot, hslot, hl, hn, if_true, Hist.mk.injEq, and_true]
    funext s
    by_cases hss : s = slotOf (st.runs i).srtt
    · subst hss
      rw [Function.update_self, inSlot, if_pos rfl]
      exact UInt64.ofNat_add _ 1
    · rw [Function.update_of_ne hss, inSlot, if_neg (Ne.symm hss), Nat.add_zero]
  · simp only [St.counted, hslot, hl, hn, if_neg he, Nat.add_zero]

theorem counted_addLatency {i e₀ : Nat} (hc : Counted st) (hi : i < st.n)
    (hs : (st.runs i).stage = .slotAdded e₀) :
    Counted ((st.write e₀ ((st.entries e₀).addLatency (st.runs i).srtt)).to i (.latencyAdded e₀)) := by
  have hslot : ∀ s e, (st.to i (.latencyAdded e₀)).tally Stage.slotIn (inSlot s) e = _ :=
    fun s e => tally_same hi (by rw [hs]; rfl) e
  have hl : ∀ e, (st.to i (.latencyAdded e₀)).tally Stage.latencyIn UInt32.toNat e =
      st.tally Stage.latencyIn UInt32.toNat e + if e = e₀ then (st.runs i).srtt.toNat else 0 :=
    fun e => tally_add hi (by rw [hs]; rfl) rfl e
  have hn : ∀ e, (st.to i (.latencyAdded e₀)).tally Stage.cntIn (fun _ => 1) e = _ :=
    fun e => tally_same hi (by rw [hs]; rfl) e
  refine hc.write ?_ fun e he => ?_
  · rw [hc e₀]
    simp only [St.counted, Hist.addLatency, hslot, hl, hn, if_true, UInt64.ofNat_add, ofNat_toNat]
  · simp only [St.counted, hslot, hl, hn, if_neg he, Nat.add_zero]

theorem counted_addCnt {i e₀ : Nat} (hc : Counted st) (hi : i < st.n)
    (hs : (st.runs i).stage = .latencyAdded e₀) :
    Counted ((st.write e₀ (st.entries e₀).addCnt).to i (.done e₀)) := by
  have hslot : ∀ s e, (st.to i (.done e₀)).tally Stage.slotIn (inSlot s) e = _ :=
    fun s e => tally_same hi (by rw [hs]; rfl) e
  have hl : ∀ e, (st.to i (.done e₀)).tally Stage.latencyIn UInt32.toNat e = _ :=
    fun e => tally_same hi (by rw [hs]; rfl) e
  have hn : ∀ e, (st.to i (.done e₀)).tally Stage.cntIn (fun _ => 1) e =
      st.tally Stage.cntIn (fun _ => 1) e + if e = e₀ then 1 else 0 :=
    fun e => tally_add hi (by rw [hs]; rfl) rfl e
  refine hc.write ?_ fun e he => ?_
  · rw [hc e₀]
    simp only [St.counted, Hist.addCnt, hslot, hl, hn, if_true, UInt64.ofNat_add]
    rfl
  · simp only [St.counted, hslot, hl, hn, if_neg he, Nat.add_zero]

/-! ## Where the entries are -/

/-- A run that has looked finds an entry. -/
def Stage.looked : Stage → Bool
  | .start | .absent => false
  | _ => true

/-- Entries are not used again, and each is one key's. -/
structure Placed (st : St) : Prop where
  found : ∀ i < st.n, ∀ e, (st.runs i).stage.entry = some e → e < st.next
  held : ∀ k e, st.hists.lookup k = some e → e < st.next
  one : ∀ k k' e, st.hists.lookup k = some e → st.hists.lookup k' = some e → k = k'
  own : ∀ i < st.n, ∀ e k, (st.runs i).stage.entry = some e → st.hists.lookup k = some e → k = (st.runs i).key
  present : ∀ i < st.n, (st.runs i).stage.looked → ∃ e, st.hists.lookup (st.runs i).key = some e
  stays : ∀ i < st.n, (st.runs i).stage ≠ .returned

theorem init_placed : Placed init where
  found _ h := by cases h
  held _ _ h := by simp [init] at h
  one _ _ _ h := by simp [init] at h
  own _ h := by cases h
  present _ h := by cases h
  stays _ h := by cases h

theorem to_runs_self (st : St) (i : Nat) (stage : Stage) :
    (st.to i stage).runs i = { st.runs i with stage := stage } := Function.update_self ..

theorem to_runs_ne (st : St) {i j : Nat} (h : j ≠ i) (stage : Stage) : (st.to i stage).runs j = st.runs j :=
  Function.update_of_ne h ..

theorem to_key (st : St) (i j : Nat) (stage : Stage) : ((st.to i stage).runs j).key = (st.runs j).key := by
  by_cases h : j = i
  · subst h
    rw [to_runs_self]
  · rw [to_runs_ne st h]

/-- A run goes on, with the entry it had or the one its key has. -/
theorem Placed.to {i : Nat} (hp : Placed st) (hi : i < st.n) {stage : Stage}
    (he : ∀ e, stage.entry = some e → (st.runs i).stage.entry = some e ∨ st.hists.lookup (st.runs i).key = some e)
    (hl : stage.looked → (st.runs i).stage.looked ∨ ∃ e, st.hists.lookup (st.runs i).key = some e)
    (hr : stage ≠ .returned) : Placed (st.to i stage) := by
  constructor
  · intro j hj e h
    by_cases hji : j = i
    · subst hji
      rw [to_runs_self] at h
      rcases he e h with h | h
      · exact hp.found j hi e h
      · exact hp.held _ e h
    · rw [to_runs_ne st hji] at h
      exact hp.found j hj e h
  · exact hp.held
  · exact hp.one
  · intro j hj e k h hk
    rw [to_key]
    by_cases hji : j = i
    · subst hji
      rw [to_runs_self] at h
      rcases he e h with h | h
      · exact hp.own j hi e k h hk
      · exact hp.one k _ e hk h
    · rw [to_runs_ne st hji] at h
      exact hp.own j hj e k h hk
  · intro j hj h
    rw [to_key]
    by_cases hji : j = i
    · subst hji
      rw [to_runs_self] at h
      rcases hl h with h | h
      · exact hp.present j hi h
      · exact h
    · rw [to_runs_ne st hji] at h
      exact hp.present j hj h
  · intro j hj
    by_cases hji : j = i
    · subst hji
      rw [to_runs_self]
      exact hr
    · rw [to_runs_ne st hji]
      exact hp.stays j hj

theorem looked_of_entry {s : Stage} {e : Nat} (h : s.entry = some e) : s.looked = true ∧ s ≠ .returned := by
  cases s <;> simp [Stage.entry, Stage.looked] at h ⊢

/-- A run adds something to the entry it has found. -/
theorem Placed.add {i e : Nat} (hp : Placed st) (hi : i < st.n) (hold : (st.runs i).stage.entry = some e)
    {stage : Stage} (hnew : stage.entry = some e) (h : Hist) : Placed ((st.write e h).to i stage) := by
  have hw : Placed (st.write e h) := ⟨hp.found, hp.held, hp.one, hp.own, hp.present, hp.stays⟩
  refine hw.to hi (fun e' he' => .inl ?_) (fun _ => .inl (looked_of_entry hold).1) (looked_of_entry hnew).2
  exact hold.trans (hnew.symm.trans he')

theorem Placed.create {k : IpPacket} {m : BoundedMap IpPacket Nat maxHists} (hp : Placed st)
    (hm : st.hists.update k st.next = some m) : Placed (st.create m) := by
  have hl : ∀ j, m.lookup j = if j = k then some st.next else st.hists.lookup j := BoundedMap.lookup_update hm
  constructor
  · intro i hi e h
    exact (hp.found i hi e h).trans (Nat.lt_succ_self _)
  · intro j e h
    change m.lookup j = some e at h
    rw [hl] at h
    split at h
    · cases h
      exact Nat.lt_succ_self _
    · exact (hp.held j e h).trans (Nat.lt_succ_self _)
  · intro j j' e h h'
    change m.lookup j = some e at h
    change m.lookup j' = some e at h'
    rw [hl] at h h'
    by_cases hj : j = k <;> by_cases hj' : j' = k
    · exact hj.trans hj'.symm
    · rw [if_pos hj] at h
      rw [if_neg hj'] at h'
      cases h
      exact absurd (hp.held j' _ h') (Nat.lt_irrefl _)
    · rw [if_neg hj] at h
      rw [if_pos hj'] at h'
      cases h'
      exact absurd (hp.held j _ h) (Nat.lt_irrefl _)
    · rw [if_neg hj] at h
      rw [if_neg hj'] at h'
      exact hp.one j j' e h h'
  · intro i hi e j h hj
    change m.lookup j = some e at hj
    rw [hl] at hj
    split at hj
    · cases hj
      exact absurd (hp.found i hi _ h) (Nat.lt_irrefl _)
    · exact hp.own i hi e j h hj
  · intro i hi h
    change ∃ e, m.lookup (st.runs i).key = some e
    rw [hl]
    split
    · exact ⟨_, rfl⟩
    · exact hp.present i hi h
  · exact hp.stays

theorem Counted.create {m : BoundedMap IpPacket Nat maxHists} (hc : Counted st) (hp : Placed st) :
    Counted (st.create m) := by
  intro e
  change Function.update st.entries st.next .zero e = st.counted e
  by_cases he : e = st.next
  · subst he
    have hz : ∀ {added : Stage → Option Nat} (w : UInt32 → Nat), Records added → st.tally added w st.next = 0 :=
      fun w hr => tally_eq_zero fun i hi h => absurd (hp.found i hi _ (hr.entry _ _ h)) (Nat.lt_irrefl _)
    rw [Function.update_self]
    simp only [St.counted, hz _ records_slotIn, hz _ records_latencyIn, hz _ records_cntIn]
    rfl
  · rw [Function.update_of_ne he]
    exact hc e

/-! ## Every step -/

structure Inv (st : St) : Prop where
  counted : Counted st
  placed : Placed st

theorem init_inv : Inv init where
  counted e := by
    have hz : ∀ (added : Stage → Option Nat) (w : UInt32 → Nat), init.tally added w e = 0 := fun _ _ => rfl
    simp only [St.counted, hz]
    rfl
  placed := init_placed

/-- The runs before a call, and the new one. -/
theorem call_runs {key : IpPacket} {srttUs : UInt32} {i : Nat} (hi : i < st.n + 1) :
    i < st.n ∧ (st.call key srttUs).runs i = st.runs i ∨
      i = st.n ∧ (st.call key srttUs).runs i = ⟨key, srttUs, .start⟩ := by
  by_cases h : i = st.n
  · subst h
    exact .inr ⟨rfl, Function.update_self ..⟩
  · exact .inl ⟨by omega, Function.update_of_ne h ..⟩

theorem Inv.call (h : Inv st) (key : IpPacket) (srttUs : UInt32) : Inv (st.call key srttUs) := by
  have hp := h.placed
  constructor
  · intro e
    refine (h.counted e).trans ?_
    simp only [St.counted, tally_call (records_slotIn.none rfl), tally_call (records_latencyIn.none rfl),
      tally_call (records_cntIn.none rfl)]
  · constructor
    · intro i hi e he
      rcases call_runs hi with ⟨hi, hr⟩ | ⟨-, hr⟩
      · rw [hr] at he
        exact hp.found i hi e he
      · rw [hr] at he
        cases he
    · exact hp.held
    · exact hp.one
    · intro i hi e k he hk
      rcases call_runs hi with ⟨hi, hr⟩ | ⟨-, hr⟩
      · rw [hr] at he ⊢
        exact hp.own i hi e k he hk
      · rw [hr] at he
        cases he
    · intro i hi hl
      rcases call_runs hi with ⟨hi, hr⟩ | ⟨-, hr⟩
      · rw [hr] at hl ⊢
        exact hp.present i hi hl
      · rw [hr] at hl
        cases hl
    · intro i hi
      rcases call_runs hi with ⟨hi, hr⟩ | ⟨-, hr⟩
      · rw [hr]
        exact hp.stays i hi
      · rw [hr]
        exact nofun

theorem step_inv {e : Ev} (h : Inv st) (hstep : step e st = some st') : Inv st' := by
  obtain ⟨hc, hp⟩ := h
  have hdoes := does_of_step hstep
  clear hstep
  cases hdoes with
  | call key srttUs => exact Inv.call ⟨hc, hp⟩ key srttUs
  | look hi hs hl =>
    refine ⟨hc.to hi ⟨rfl, rfl, rfl⟩ (entry_of_looking hs), hp.to hi ?_ (fun _ => .inr ⟨_, hl⟩) nofun⟩
    intro e he
    cases he
    exact .inr hl
  | miss hi hs hl => exact ⟨hc.to hi ⟨rfl, rfl, rfl⟩ (by rw [hs]; rfl), hp.to hi nofun nofun nofun⟩
  | lost hi hs hl =>
    -- a run looks again after its update, and nothing is deleted
    obtain ⟨e, he⟩ := hp.present _ hi (by rw [hs]; rfl)
    rw [hl] at he
    cases he
  | @create i m hi hs hm =>
    have hk : ∃ e, (st.create m).hists.lookup (st.runs i).key = some e :=
      ⟨_, (BoundedMap.lookup_update hm _).trans (if_pos rfl)⟩
    have hold : ((st.create m).runs i).stage.entry = none := congrArg Stage.entry hs
    exact ⟨(hc.create hp).to hi ⟨rfl, rfl, rfl⟩ hold, (hp.create hm).to hi nofun (fun _ => .inr hk) nofun⟩
  | addSlot hi hs => exact ⟨counted_addSlot hc hi hs, hp.add hi (congrArg Stage.entry hs) rfl _⟩
  | addLatency hi hs => exact ⟨counted_addLatency hc hi hs, hp.add hi (congrArg Stage.entry hs) rfl _⟩
  | addCnt hi hs => exact ⟨counted_addCnt hc hi hs, hp.add hi (congrArg Stage.entry hs) rfl _⟩

/-! ## When samples are lost -/

/-- No run works on an entry that has been replaced, and the totals fit. -/
structure Good (st : St) : Prop where
  current : ∀ i < st.n, ∀ e, (st.runs i).stage.entry = some e → st.hists.lookup (st.runs i).key = some e
  count : ∀ key, st.count key < 2 ^ 64
  total : ∀ key, st.total key < 2 ^ 64

theorem init_good : Good init where
  current _ h := by cases h
  count _ := Nat.two_pow_pos 64
  total _ := Nat.two_pow_pos 64

theorem count_to {i : Nat} (hi : i < st.n) (stage : Stage) (key : IpPacket) :
    (st.to i stage).count key = st.count key := sum_to_same hi stage rfl

theorem total_to {i : Nat} (hi : i < st.n) (stage : Stage) (key : IpPacket) :
    (st.to i stage).total key = st.total key := sum_to_same hi stage rfl

/-- A run that has no entry yet, or finds the one of its key, or goes on with its own. -/
theorem good_to {i : Nat} (hi : i < st.n) {stage : Stage}
    (h : stage.entry = (st.runs i).stage.entry ∨ (st.runs i).stage.entry = none ∧
      ∀ e, stage.entry = some e → st.hists.lookup (st.runs i).key = some e) :
    Good (st.to i stage) ↔ Good st := by
  constructor
  · intro hg
    refine ⟨fun j hj e he => ?_, fun key => (count_to hi stage key) ▸ hg.count key,
      fun key => (total_to hi stage key) ▸ hg.total key⟩
    have hj' := hg.current j hj e
    rw [to_key] at hj'
    by_cases hji : j = i
    · subst hji
      rw [to_runs_self] at hj'
      rcases h with h | ⟨h, -⟩
      · exact hj' (h.trans he)
      · rw [h] at he
        cases he
    · rw [to_runs_ne st hji] at hj'
      exact hj' he
  · intro hg
    refine ⟨fun j hj e he => ?_, fun key => (count_to hi stage key).symm ▸ hg.count key,
      fun key => (total_to hi stage key).symm ▸ hg.total key⟩
    rw [to_key]
    by_cases hji : j = i
    · subst hji
      rw [to_runs_self] at he
      rcases h with h | ⟨-, h⟩
      · exact hg.current j hj e (h.symm.trans he)
      · exact h e he
    · rw [to_runs_ne st hji] at he
      exact hg.current j hj e he

theorem good_add {i e : Nat} (hi : i < st.n) (hold : (st.runs i).stage.entry = some e) {stage : Stage}
    (hnew : stage.entry = some e) (h : Hist) : Good ((st.write e h).to i stage) ↔ Good st := by
  have hi' : i < (st.write e h).n := hi
  have hto := good_to hi' (.inl (hnew.trans hold.symm))
  exact hto.trans ⟨fun hg => ⟨hg.current, hg.count, hg.total⟩, fun hg => ⟨hg.current, hg.count, hg.total⟩⟩

/-- A new entry for a key is harmless if and only if no run has found the key's old one. -/
theorem good_create {k : IpPacket} {m : BoundedMap IpPacket Nat maxHists} (hp : Placed st)
    (hm : st.hists.update k st.next = some m) :
    Good (st.create m) ↔
      Good st ∧ ∀ e ∈ st.hists.lookup k, ∀ j < st.n, (st.runs j).stage.entry ≠ some e := by
  have hl : ∀ j, m.lookup j = if j = k then some st.next else st.hists.lookup j := BoundedMap.lookup_update hm
  -- no run has the new entry
  have hnew : ∀ j < st.n, (st.runs j).stage.entry ≠ some st.next :=
    fun j hj h => absurd (hp.found j hj _ h) (Nat.lt_irrefl _)
  constructor
  · intro hg
    have hcur : ∀ j < st.n, ∀ e, (st.runs j).stage.entry = some e →
        (st.runs j).key ≠ k ∧ st.hists.lookup (st.runs j).key = some e := by
      intro j hj e he
      have hlook : m.lookup (st.runs j).key = some e := hg.current j hj e he
      rw [hl] at hlook
      split at hlook
      · cases hlook
        exact absurd he (hnew j hj)
      · exact ⟨‹_›, hlook⟩
    refine ⟨⟨fun j hj e he => (hcur j hj e he).2, hg.count, hg.total⟩, fun e he j hj h => ?_⟩
    exact (hcur j hj e h).1 (hp.own j hj e k h he).symm
  · rintro ⟨hg, hno⟩
    refine ⟨fun j hj e he => ?_, hg.count, hg.total⟩
    change m.lookup (st.runs j).key = some e
    have hlook := hg.current j hj e he
    rw [hl, if_neg]
    · exact hlook
    · intro hk
      exact hno e (hk ▸ hlook) j hj he

theorem good_call {key : IpPacket} {srttUs : UInt32} :
    Good (st.call key srttUs) ↔ Good st ∧ Sole (.call key srttUs) st := by
  have hcount : ∀ k, (st.call key srttUs).count k = st.count k + if key = k then 1 else 0 :=
    fun k => sum_call key srttUs _
  have htotal : ∀ k, (st.call key srttUs).total k = st.total k + if key = k then (srttOf srttUs).toNat else 0 :=
    fun k => sum_call key srttUs _
  constructor
  · intro hg
    refine ⟨⟨fun i hi e he => ?_, fun k => ?_, fun k => ?_⟩, ?_, ?_⟩
    · have hr : (st.call key srttUs).runs i = st.runs i := Function.update_of_ne hi.ne ..
      have := hg.current i (Nat.lt_succ_of_lt hi) e
      rw [hr] at this
      exact this he
    · have := hg.count k
      rw [hcount] at this
      omega
    · have := hg.total k
      rw [htotal] at this
      omega
    · have := hg.count key
      rwa [hcount, if_pos rfl] at this
    · have := hg.total key
      rwa [htotal, if_pos rfl] at this
  · rintro ⟨hg, hc, ht⟩
    refine ⟨fun i hi e he => ?_, fun k => ?_, fun k => ?_⟩
    · rcases call_runs hi with ⟨hi, hr⟩ | ⟨-, hr⟩
      · rw [hr] at he ⊢
        exact hg.current i hi e he
      · rw [hr] at he
        cases he
    · rw [hcount]
      split
      · subst k
        exact hc
      · exact hg.count k
    · rw [htotal]
      split
      · subst k
        exact ht
      · exact hg.total k

/-- A step keeps the state good if and only if it meets the condition. -/
theorem step_good {e : Ev} (h : Inv st) (hstep : step e st = some st') : Good st' ↔ Good st ∧ Sole e st := by
  have hp := h.placed
  have hdoes := does_of_step hstep
  clear hstep
  have hsole : ∀ {i}, (st.runs i).stage ≠ .absent → (Sole (.run i) st ↔ True) :=
    fun hne => iff_true_intro fun ha => absurd ha hne
  cases hdoes with
  | call key srttUs => exact good_call
  | look hi hs hl =>
    rw [hsole (by rcases hs with hs | hs <;> rw [hs] <;> exact nofun), and_true]
    refine good_to hi (.inr ⟨entry_of_looking hs, fun e he => ?_⟩)
    cases he
    exact hl
  | miss hi hs hl =>
    rw [hsole (by rw [hs]; exact nofun), and_true]
    exact good_to hi (.inl (congrArg Stage.entry hs).symm)
  | lost hi hs hl =>
    rw [hsole (by rw [hs]; exact nofun), and_true]
    exact good_to hi (.inl (congrArg Stage.entry hs).symm)
  | @create i m hi hs hm =>
    have hcond : Sole (.run i) st ↔
        ∀ e ∈ st.hists.lookup (st.runs i).key, ∀ j < st.n, (st.runs j).stage.entry ≠ some e :=
      ⟨fun hs' => hs' hs, fun hs' _ => hs'⟩
    rw [hcond, ← good_create hp hm]
    have hi' : i < (st.create m).n := hi
    exact good_to hi' (.inl (congrArg Stage.entry hs).symm)
  | addSlot hi hs =>
    rw [hsole (by rw [hs]; exact nofun), and_true]
    exact good_add hi (congrArg Stage.entry hs) rfl _
  | addLatency hi hs =>
    rw [hsole (by rw [hs]; exact nofun), and_true]
    exact good_add hi (congrArg Stage.entry hs) rfl _
  | addCnt hi hs =>
    rw [hsole (by rw [hs]; exact nofun), and_true]
    exact good_add hi (congrArg Stage.entry hs) rfl _

/-! ## When all runs have finished -/

/-- A sum over the runs of a key. -/
def St.sumOf (st : St) (key : IpPacket) (w : UInt32 → Nat) : Nat :=
  st.sum fun r => if r.key = key then w r.srtt else 0

theorem done_of_quiet (hp : Placed st) (hq : Quiet st) {i : Nat} (hi : i < st.n) :
    ∃ e, (st.runs i).stage = .done e := by
  have hf := hq i hi
  have hr := hp.stays i hi
  cases hs : (st.runs i).stage with
  | done e => exact ⟨e, rfl⟩
  | returned => exact absurd hs hr
  | _ =>
    rw [hs] at hf
    cases hf

/-- What is added to the entry of a key is what the runs of the key add. -/
theorem tally_of_good (hi : Inv st) (hq : Quiet st) (hg : Good st) (hr : Records added) {key : IpPacket} {e : Nat}
    (hk : st.hists.lookup key = some e) (w : UInt32 → Nat) : st.tally added w e = st.sumOf key w := by
  unfold St.tally St.sumOf St.sum
  refine Finset.sum_congr rfl fun i hmem => ?_
  have hlt := Finset.mem_range.mp hmem
  obtain ⟨e', hs⟩ := done_of_quiet hi.placed hq hlt
  have hentry : (st.runs i).stage.entry = some e' := by rw [hs]; rfl
  have hiff : added (st.runs i).stage = some e ↔ (st.runs i).key = key := by
    rw [hs, hr.done e', Option.some.injEq]
    constructor
    · rintro rfl
      exact (hi.placed.own i hlt e' key hentry hk).symm
    · intro hkey
      have := hg.current i hlt e' hentry
      rw [hkey, hk] at this
      exact (Option.some.inj this).symm
  simp only [hiff]

theorem sumOf_eq_zero (hi : Inv st) (hq : Quiet st) {key : IpPacket} (hk : st.hists.lookup key = none)
    (w : UInt32 → Nat) : st.sumOf key w = 0 := by
  unfold St.sumOf St.sum
  refine Finset.sum_eq_zero fun i hmem => if_neg fun hkey => ?_
  have hlt := Finset.mem_range.mp hmem
  obtain ⟨e, hs⟩ := done_of_quiet hi.placed hq hlt
  obtain ⟨e', he'⟩ := hi.placed.present i hlt (by rw [hs]; rfl)
  rw [hkey, hk] at he'
  cases he'

/-- The entry of each key counts the runs of the key. -/
theorem hist_of_good (hi : Inv st) (hq : Quiet st) (hg : Good st) (key : IpPacket) :
    st.hist key = ⟨fun s => .ofNat (st.sumOf key (inSlot s)), .ofNat (st.sumOf key UInt32.toNat),
      .ofNat (st.sumOf key fun _ => 1)⟩ := by
  unfold St.hist
  cases hk : st.hists.lookup key with
  | none =>
    simp only [sumOf_eq_zero hi hq hk]
    rfl
  | some e =>
    refine (hi.counted e).trans ?_
    simp only [St.counted, tally_of_good hi hq hg records_slotIn hk, tally_of_good hi hq hg records_latencyIn hk,
      tally_of_good hi hq hg records_cntIn hk]

theorem sumOf_le {key : IpPacket} {w v : UInt32 → Nat} (h : ∀ x, w x ≤ v x) : st.sumOf key w ≤ st.sumOf key v := by
  unfold St.sumOf St.sum
  refine Finset.sum_le_sum fun i _ => ?_
  dsimp only
  split
  · exact h _
  · exact Nat.le_refl 0

/-- Each sample is in one slot. -/
theorem sum_inSlot (key : IpPacket) : ∑ s, st.sumOf key (inSlot s) = st.sumOf key fun _ => 1 := by
  unfold St.sumOf St.sum
  rw [Finset.sum_comm]
  refine Finset.sum_congr rfl fun i _ => ?_
  dsimp only
  split
  · simp [inSlot]
  · simp

theorem countLog_eq (key : IpPacket) (p : Nat → Bool) :
    st.countLog key p = st.sumOf key fun srtt => if p (Nat.log 2 srtt.toNat) then 1 else 0 := by
  unfold St.countLog St.sumOf St.sum
  refine Finset.sum_congr rfl fun i _ => ?_
  by_cases hk : (st.runs i).key = key <;> simp [hk]

theorem exact_of_good (hi : Inv st) (hq : Quiet st) (hg : Good st) : Exact st := by
  intro key
  have hcount : st.sumOf key (fun _ => 1) < 2 ^ 64 := hg.count key
  have htotal : st.sumOf key UInt32.toNat < 2 ^ 64 := hg.total key
  have hslot : ∀ s, st.sumOf key (inSlot s) < 2 ^ 64 := fun s =>
    (sumOf_le fun x => by unfold inSlot; split <;> omega).trans_lt hcount
  have hnat : ∀ x : Nat, x < 2 ^ 64 → (UInt64.ofNat x).toNat = x := fun x hx => by
    rw [UInt64.toNat_ofNat', Nat.mod_eq_of_lt hx]
  have hh := hist_of_good hi hq hg key
  constructor
  · rw [hh]
    exact hnat _ hcount
  · rw [hh]
    simp only [hnat _ (hslot _), hnat _ hcount]
    exact sum_inSlot key
  · rw [hh]
    exact hnat _ htotal
  · intro s hs
    rw [hh, countLog_eq]
    refine (hnat _ (hslot s)).trans (congrArg (st.sumOf key) (funext fun x => ?_))
    have hiff : slotOf x = s ↔ Nat.log 2 x.toNat = s.val := by
      rw [Fin.ext_iff, val_slotOf]
      omega
    simp [inSlot, hiff]
  · intro s hs
    rw [hh, countLog_eq]
    refine (hnat _ (hslot s)).trans (congrArg (st.sumOf key) (funext fun x => ?_))
    have hiff : slotOf x = s ↔ 26 ≤ Nat.log 2 x.toNat := by
      rw [Fin.ext_iff, val_slotOf]
      omega
    simp [inSlot, hiff]

/-- A run that worked on an entry since replaced is not counted. -/
theorem good_of_exact (hi : Inv st) (hx : Exact st) : Good st := by
  have hcount : ∀ key, st.count key < 2 ^ 64 := fun key => (hx key).cnt ▸ UInt64.toNat_lt _
  refine ⟨fun i hlt e he => ?_, hcount, fun key => (hx key).latency ▸ UInt64.toNat_lt _⟩
  by_contra hne
  have hp := hi.placed
  obtain ⟨e', hk⟩ := hp.present i hlt (looked_of_entry he).1
  have hee : e ≠ e' := fun h => hne (h ▸ hk)
  have hcnt := (hx (st.runs i).key).cnt
  rw [St.hist, hk] at hcnt
  simp only [hi.counted e', St.counted, UInt64.toNat_ofNat'] at hcnt
  -- the runs counted in the entry that is there are runs of the key, and run `i` is not one
  have hless : st.tally Stage.cntIn (fun _ => 1) e' < st.count (st.runs i).key := by
    unfold St.tally St.count St.sum
    refine Finset.sum_lt_sum (fun j hj => ?_) ⟨i, Finset.mem_range.mpr hlt, ?_⟩
    · by_cases hc : (st.runs j).stage.cntIn = some e'
      · have hkey := hp.own j (Finset.mem_range.mp hj) e' _ (records_cntIn.entry _ _ hc) hk
        dsimp only
        rw [if_pos hc, if_pos hkey.symm]
      · dsimp only
        rw [if_neg hc]
        exact Nat.zero_le _
    · have hc : (st.runs i).stage.cntIn ≠ some e' := fun hc => by
        have := records_cntIn.entry _ _ hc
        rw [he] at this
        exact hee (Option.some.inj this)
      dsimp only
      rw [if_neg hc, if_pos rfl]
      exact Nat.zero_lt_one
  have hmod := Nat.mod_le (st.tally Stage.cntIn (fun _ => 1) e') (2 ^ 64)
  omega

/-- When all runs have finished, the histogram counts every sample if and only if no run
    replaced an entry that another had found, and the totals fit 64 bits. -/
theorem histogram_iff {es : List Ev} (h : exec step es init = some st) (hq : Quiet st) :
    Exact st ↔ execIf step Sole es init = some st := by
  have hi : Inv st := (run_of_exec h).inv init_inv fun _ _ _ hi _ hs => step_inv hi hs
  have hgood : Good st ↔ execIf step Sole es init = some st :=
    holds_iff_of_step (fun _ _ _ hi hs => step_inv hi hs) (fun _ _ _ hi hs => step_good hi hs) init_inv init_good h
  exact ⟨fun hx => hgood.mp (good_of_exact hi hx), fun hif => exact_of_good hi hq (hgood.mpr hif)⟩

/-! ## Two runs -/

def someKey : IpPacket := ⟨0x0100000a, 0x0200000a⟩

/-- The second run finds the entry of the first, and they add to it in turns. -/
theorem two_runs_are_counted :
    ∃ st, Quiet st ∧ st.count someKey = 2 ∧ (st.hist someKey).cnt = 2 ∧
      (st.hist someKey).latency = 1025 ∧ Exact st := by
  obtain ⟨st, hexec, hif, hs⟩ := execIf_any step Sole init
    [.call someKey 8, .call someKey 8192, .run 0, .run 0, .run 1, .run 0, .run 1, .run 0, .run 0, .run 1, .run 1,
      .run 0]
    (fun st => decide (Quiet st ∧ st.count someKey = 2 ∧ (st.hist someKey).cnt = 2 ∧
      (st.hist someKey).latency = 1025)) (by decide +kernel)
  obtain ⟨hq, hc, hcnt, hl⟩ := of_decide_eq_true hs
  exact ⟨st, hq, hc, hcnt, hl, (histogram_iff hexec hq).mpr hif⟩

/-- Both find the key absent; the first adds its sample to the entry that the second
    replaces. -/
theorem second_entry_loses_a_sample : ∃ st, Run step anyEvent init st ∧ Quiet st ∧ ¬ Exact st := by
  obtain ⟨st, hr, hs⟩ := run_of_exec_any step init
    [.call someKey 8, .call someKey 8192, .run 0, .run 1, .run 0, .run 0, .run 0, .run 0, .run 0,
      .run 1, .run 1, .run 1, .run 1, .run 1]
    (fun st => decide (Quiet st ∧ st.count someKey = 2 ∧ (st.hist someKey).cnt = 1)) (by decide +kernel)
  obtain ⟨hq, hc, hcnt⟩ := of_decide_eq_true hs
  refine ⟨st, hr, hq, fun hx => ?_⟩
  have hlaw := (hx someKey).cnt
  rw [hc, hcnt] at hlaw
  exact absurd hlaw (by decide)

end Ksight.Netwatcher.Rtt
